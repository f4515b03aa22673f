/-
# ACPI tables

The driver of `drivers/acpi.c`. The boot loader hands over an RSDP, which points to the root
table of the firmware: an RSDT, whose entries are addresses of four bytes, or an XSDT, whose
entries are addresses of eight. A lookup goes through the entries for a signature. Every table
begins with the same header, which holds the length of the whole table, and its bytes sum up to
a multiple of 256.
-/

import HeavenOS.Kernel.Multiboot
import HeavenOS.Mm.Paging

namespace HeavenOS

open Lib

/-- `sizeof(acpi_sdt_header_t)` -/
def sdtHeaderSize : ℕ := 36

/-- `table->header.length` -/
def sdtLength (m : Mem) (table : ℕ) : ℕ := m.loadU32 (table + 4)

/-- The `uint32_t` sum of the first bytes of a table. -/
def checksum (m : Mem) (table : ℕ) : ℕ → ℕ
  | 0 => 0
  | i + 1 => (checksum m table i + (m (table + i)).toNat) % 2 ^ 32

/-- `acpi_check` -/
def acpiCheck (m : Mem) (acpiTable : ℕ) : Except Panic Bool := do
  kassert (acpiTable ≠ 0) "acpi_table != ((void *)0)"
  return checksum m acpiTable (intCount (sdtLength m acpiTable)) &&& 0xFF = 0

/-! ## Root tables -/

/-- The pointers `rsdt` and `xsdt`. -/
structure AcpiState where
  rsdt : ℕ
  xsdt : ℕ
  deriving DecidableEq

/-- The two kinds of root tables. -/
inductive RootKind where
  | rsdt
  | xsdt
  deriving DecidableEq

namespace RootKind

/-- `sizeof(uint32_t)` and `sizeof(uint64_t)`. -/
def entrySize : RootKind → ℕ
  | rsdt => 4
  | xsdt => 8

/-- `table->entries[i]` -/
def entry (kind : RootKind) (m : Mem) (table i : ℕ) : ℕ :=
  match kind with
  | rsdt => m.loadU32 ((table + sdtHeaderSize + 4 * i) % 2 ^ 64)
  | xsdt => m.loadPtr ((table + sdtHeaderSize + 8 * i) % 2 ^ 64)

/-- The pointers after a table of this kind was found. -/
def state : RootKind → ℕ → AcpiState
  | rsdt, table => ⟨table, 0⟩
  | xsdt, table => ⟨0, table⟩

end RootKind

/-- The iterations of a lookup from entry `i` on: the result, and the entries that were read. -/
def acpiLookupLoop (kind : RootKind) (m : Mem) (table signature : ℕ) : (count i : ℕ) → Except Panic ℕ × List ℕ
  | 0, _ => (.ok 0, [])
  | count + 1, i =>
      let sdt := physToVirt (kind.entry m table i)
      if m.memcmp signature sdt 4 = 0 then
        ((acpiCheck m sdt).map fun valid => if valid then sdt else 0, [i])
      else
        let (res, reads) := acpiLookupLoop kind m table signature count (i + 1)
        (res, i :: reads)

/-- The common body of the two lookups. -/
def acpiRootLookup (kind : RootKind) (m : Mem) (table signature : ℕ) : Except Panic ℕ × List ℕ :=
  let size := subU64 (sdtLength m table) sdtHeaderSize / kind.entrySize
  acpiLookupLoop kind m table signature size 0

/-- `acpi_rsdt_lookup` -/
def acpiRsdtLookup (m : Mem) (rsdt signature : ℕ) : Except Panic ℕ × List ℕ := acpiRootLookup .rsdt m rsdt signature

/-- `acpi_xsdt_lookup` -/
def acpiXsdtLookup (m : Mem) (xsdt signature : ℕ) : Except Panic ℕ × List ℕ := acpiRootLookup .xsdt m xsdt signature

/-- `acpi_lookup`: the result, and the entries of the root table that were read. -/
def acpiLookup (m : Mem) (s : AcpiState) (signature : ℕ) : Except Panic ℕ × List ℕ :=
  match kassert (signature ≠ 0) "signature != ((void *)0)" with
  | .error e => (.error e, [])
  | .ok () =>
      if s.xsdt ≠ 0 then acpiXsdtLookup m s.xsdt signature
      else if s.rsdt ≠ 0 then acpiRsdtLookup m s.rsdt signature
      else (.error "Neither XSDT nor RSDT pointers were set", [])

/-! ## Initialisation -/

/-- What `%s` prints of a signature of `n` bytes. -/
def signText (m : Mem) (a n : ℕ) : String :=
  String.ofList ((((List.range n).map fun i => m (a + i)).takeWhile (· ≠ 0)).map fun b => Char.ofNat b.toNat)

/-- `acpi_rsdp_check` -/
def acpiRsdpCheck (m : Mem) (rsdp : ℕ) : Except Panic Unit := do
  kassert (rsdp ≠ 0) "rsdp != NULL"
  if checksum m rsdp 20 &&& 0xFF ≠ 0 then
    .error ("Bad ACPI 1.0 RSDP checksum\nRSDP signature: " ++ signText m rsdp 8 ++ "\n")
  else .ok ()

/-- `acpi_rsdt_init` -/
def acpiRsdtInit (m : Mem) (p : MbPointers) (s : AcpiState) : Except Panic AcpiState := do
  kassert (p.mbAcpiRsdpV1 ≠ 0) "mb_acpi_rsdp_v1 != NULL"
  let rsdp := p.mbAcpiRsdpV1 + 8
  acpiRsdpCheck m rsdp
  let rsdt := physToVirt (m.loadU32 (rsdp + 16))
  if ¬ (← acpiCheck m rsdt) then
    .error ("Bad ACPI RSDT checksum\nRSDT signature: " ++ signText m rsdt 4)
  else .ok { s with rsdt := rsdt }

/-- `acpi_xsdt_init` -/
def acpiXsdtInit (m : Mem) (p : MbPointers) (s : AcpiState) : Except Panic AcpiState := do
  kassert (p.mbAcpiRsdpV2 ≠ 0) "mb_acpi_rsdp_v2 != NULL"
  let rsdp := p.mbAcpiRsdpV2 + 8
  acpiRsdpCheck m rsdp
  if checksum m rsdp (intCount (m.loadU32 (rsdp + 20))) &&& 0xFF ≠ 0 then
    .error ("Bad ACPI 2.0 RSDP checksum\nRSDP signature: " ++ signText m rsdp 8 ++ "\n")
  else
    let xsdt := physToVirt (m.loadPtr (rsdp + 24))
    if ¬ (← acpiCheck m xsdt) then
      .error ("Bad ACPI XSDT checksum\nXSDT signature: " ++ signText m xsdt 4 ++ "\n")
    else .ok { s with xsdt := xsdt }

/-- `acpi_init` -/
def acpiInit (m : Mem) (p : MbPointers) (s : AcpiState) : Except Panic AcpiState :=
  if p.mbAcpiRsdpV2 ≠ 0 then acpiXsdtInit m p s else acpiRsdtInit m p s

/-- Afterwards there is one root table, and `acpi_check` has accepted it. -/
theorem acpiInit_accepts {m : Mem} {p : MbPointers} {s : AcpiState} (h : acpiInit m p ⟨0, 0⟩ = .ok s) :
    ∃ (kind : RootKind) (table : ℕ), s = kind.state table ∧ acpiCheck m table = .ok true := by
  unfold acpiInit at h
  split_ifs at h with hv2
  · obtain ⟨-, -, h⟩ := bind_eq_ok.mp h
    obtain ⟨-, -, h⟩ := bind_eq_ok.mp h
    split_ifs at h with hsum
    obtain ⟨valid, hvalid, h⟩ := bind_eq_ok.mp h
    split_ifs at h with hok
    exact ⟨.xsdt, _, (Except.ok.inj h).symm, by simpa using hok ▸ hvalid⟩
  · obtain ⟨-, -, h⟩ := bind_eq_ok.mp h
    obtain ⟨-, -, h⟩ := bind_eq_ok.mp h
    obtain ⟨valid, hvalid, h⟩ := bind_eq_ok.mp h
    split_ifs at h with hok
    exact ⟨.rsdt, _, (Except.ok.inj h).symm, by simpa using hok ▸ hvalid⟩

/-! ## The checksum -/

/-- The sum of the first bytes of a table. -/
def byteSum (m : Mem) (table n : ℕ) : ℕ := ((List.range n).map fun i => (m (table + i)).toNat).sum

/-- The bytes of a table sum up to a multiple of 256. -/
def SumZero (m : Mem) (table : ℕ) : Prop := byteSum m table (sdtLength m table) % 256 = 0

instance (m : Mem) : DecidablePred (SumZero m) := fun _ => inferInstanceAs (Decidable (_ = _))

theorem byteSum_succ (m : Mem) (table n : ℕ) : byteSum m table (n + 1) = byteSum m table n + (m (table + n)).toNat := by
  simp [byteSum, List.range_succ]

/-- The `uint32_t` loses nothing that the mask keeps. -/
theorem checksum_eq (m : Mem) (table n : ℕ) : checksum m table n = byteSum m table n % 2 ^ 32 := by
  induction n with
  | zero => rfl
  | succ n ih =>
      rw [checksum, ih, byteSum_succ, Nat.mod_add_mod]

theorem acpiCheck_eq (m : Mem) {table : ℕ} (hne : table ≠ 0) :
    acpiCheck m table = .ok (decide (byteSum m table (intCount (sdtLength m table)) % 256 = 0)) := by
  rw [acpiCheck, kassert_of_true hne, ok_bind, checksum_eq, show 0xFF = 2 ^ 8 - 1 by decide, Nat.and_two_pow_sub_one_eq_mod,
    Nat.mod_mod_of_dvd _ (by decide)]
  rfl

/-- The check says whether the sum is right, unless the `int` in its loop is negative. -/
theorem acpiCheck_iff {m : Mem} {table : ℕ} (hne : table ≠ 0) :
    acpiCheck m table = .ok (decide (SumZero m table)) ↔ (2 ^ 31 ≤ sdtLength m table → SumZero m table) := by
  have hlt : sdtLength m table < 2 ^ 32 := m.loadU32_lt _
  rw [acpiCheck_eq m hne, intCount_eq hlt]
  by_cases hshort : sdtLength m table < 2 ^ 31
  · rw [if_pos hshort]
    exact iff_of_true rfl fun hlong => absurd hlong (Nat.not_le.mpr hshort)
  · rw [if_neg hshort]
    have hlong := Nat.not_lt.mp hshort
    simp only [hlong, true_implies]
    simp [byteSum]

/-! ## Lookups -/

section Lookup

variable {kind : RootKind} {m : Mem} {table signature : ℕ}

/-- The physical addresses that a root table lists. -/
def listedAddrs (kind : RootKind) (m : Mem) (table : ℕ) : List ℕ :=
  (List.range ((sdtLength m table - sdtHeaderSize) / kind.entrySize)).map (kind.entry m table)

/-- The tables that a root table lists. -/
def listed (kind : RootKind) (m : Mem) (table : ℕ) : List ℕ := (listedAddrs kind m table).map physToVirt

/-- The table has this signature of four bytes. -/
def HasSignature (m : Mem) (signature table : ℕ) : Prop := ∀ i < 4, m (signature + i) = m (table + i)

instance (m : Mem) (signature : ℕ) : DecidablePred (HasSignature m signature) :=
  fun _ => inferInstanceAs (Decidable (∀ i < 4, _))

/-- What a lookup among these tables is for: the first one with the signature, if its sum is
right, else `NULL`. -/
def lookupAmong (m : Mem) (signature : ℕ) (tables : List ℕ) : ℕ :=
  match tables.find? fun table => HasSignature m signature table with
  | none => 0
  | some table => if SumZero m table then table else 0

/-- The entries that the loop reads lie in its range, and the first one is among them. -/
theorem acpiLookupLoop_reads {count i : ℕ} :
    (∀ j ∈ (acpiLookupLoop kind m table signature count i).2, j < i + count) ∧
      (0 < count → i ∈ (acpiLookupLoop kind m table signature count i).2) := by
  induction count generalizing i with
  | zero => simp [acpiLookupLoop]
  | succ count ih =>
      rw [acpiLookupLoop]
      split_ifs with hsig
      · simp
      · refine ⟨fun j hj => ?_, fun _ => List.mem_cons_self⟩
        rcases List.mem_cons.mp hj with rfl | hj
        · omega
        · have := ih.1 j hj
          omega

/-- The loop calls `acpi_check` for the first table with the signature. -/
theorem acpiLookupLoop_fst (count i : ℕ) :
    (acpiLookupLoop kind m table signature count i).1 =
      match (((List.range' i count).map (kind.entry m table)).map physToVirt).find? fun t => HasSignature m signature t with
      | none => .ok 0
      | some t => (acpiCheck m t).map fun valid => if valid then t else 0 := by
  induction count generalizing i with
  | zero => rfl
  | succ count ih =>
      rw [acpiLookupLoop, List.range', List.map_cons, List.map_cons]
      by_cases hsig : HasSignature m signature (physToVirt (kind.entry m table i))
      · rw [if_pos ((m.memcmp_eq_zero_iff _ _ _).mpr hsig), List.find?_cons_of_pos (by simpa using hsig)]
      · rw [if_neg (fun h => hsig ((m.memcmp_eq_zero_iff _ _ _).mp h)), List.find?_cons_of_neg (by simpa using hsig)]
        exact ih (i + 1)

/-- With a header the entries counted are those listed. -/
theorem acpiRootLookup_eq (hheader : sdtHeaderSize ≤ sdtLength m table) :
    acpiRootLookup kind m table signature =
      acpiLookupLoop kind m table signature ((sdtLength m table - sdtHeaderSize) / kind.entrySize) 0 := by
  have hlt : sdtLength m table < 2 ^ 32 := m.loadU32_lt _
  rw [acpiRootLookup, subU64_of_le hheader (by omega)]

theorem acpiLookup_state (hne : table ≠ 0) (hsignature : signature ≠ 0) :
    acpiLookup m (kind.state table) signature = acpiRootLookup kind m table signature := by
  unfold acpiLookup
  rw [kassert_of_true hsignature]
  cases kind
  · simp [RootKind.state, hne, acpiRsdtLookup]
  · simp [RootKind.state, hne, acpiXsdtLookup]

/-- The checks and lookups for one root table do what they are for. -/
structure LookupSound (kind : RootKind) (m : Mem) (table : ℕ) : Prop where
  checks : ∀ t ∈ table :: listed kind m table, acpiCheck m t = .ok (decide (SumZero m t))
  result : ∀ signature ≠ 0,
    (acpiLookup m (kind.state table) signature).1 = .ok (lookupAmong m signature (listed kind m table))
  inside : ∀ signature ≠ 0, ∀ i ∈ (acpiLookup m (kind.state table) signature).2,
    sdtHeaderSize + kind.entrySize * i + kind.entrySize ≤ sdtLength m table

/-- The root table has room for its header, and its own bytes and those of the listed tables sum
up to zero at least where there are so many that `int` cannot count them. -/
structure Countable (kind : RootKind) (m : Mem) (table : ℕ) : Prop where
  header : sdtHeaderSize ≤ sdtLength m table
  lengths : ∀ t ∈ table :: listed kind m table, 2 ^ 31 ≤ sdtLength m t → SumZero m t

/-- With a header the result is that of `acpi_check` for the first listed table with the signature. -/
theorem acpiRootLookup_fst (hheader : sdtHeaderSize ≤ sdtLength m table) :
    (acpiRootLookup kind m table signature).1 =
      match (listed kind m table).find? fun t => HasSignature m signature t with
      | none => .ok 0
      | some t => (acpiCheck m t).map fun valid => if valid then t else 0 := by
  rw [acpiRootLookup_eq hheader, acpiLookupLoop_fst, ← List.range_eq_range']
  rfl

/-- Without a header the entry count wraps, and the loop reads behind the end of the table. -/
theorem LookupSound.header (h : LookupSound kind m table) (hne : table ≠ 0) : sdtHeaderSize ≤ sdtLength m table := by
  by_contra hshort
  have hcount : 0 < subU64 (sdtLength m table) sdtHeaderSize / kind.entrySize := by
    unfold sdtHeaderSize subU64 at *
    cases kind <;> simp only [RootKind.entrySize] <;> omega
  have hfirst : 0 ∈ (acpiLookup m (kind.state table) 1).2 := by
    rw [acpiLookup_state hne (by decide)]
    exact acpiLookupLoop_reads.2 hcount
  have hinside := h.inside 1 (by decide) 0 hfirst
  omega

theorem Countable.lookupSound (h : Countable kind m table) (hne : table ≠ 0)
    (htables : ∀ t ∈ listed kind m table, t ≠ 0) : LookupSound kind m table := by
  have hchecks : ∀ t ∈ table :: listed kind m table, acpiCheck m t = .ok (decide (SumZero m t)) := fun t ht =>
    (acpiCheck_iff (by
      rcases List.mem_cons.mp ht with rfl | ht
      · exact hne
      · exact htables t ht)).mpr (h.lengths t ht)
  refine ⟨hchecks, fun signature hsignature => ?_, fun signature hsignature i hi => ?_⟩
  · rw [acpiLookup_state hne hsignature, acpiRootLookup_fst h.header, lookupAmong]
    cases hfind : (listed kind m table).find? fun t => HasSignature m signature t with
    | none => rfl
    | some t =>
        have hmem := List.mem_of_find?_eq_some hfind
        simp [hchecks t (List.mem_cons_of_mem _ hmem), Except.map]
  · rw [acpiLookup_state hne hsignature, acpiRootLookup_eq h.header] at hi
    have hcount := acpiLookupLoop_reads.1 i hi
    rw [Nat.zero_add] at hcount
    have hentry : (i + 1) * kind.entrySize ≤ sdtLength m table - sdtHeaderSize :=
      (Nat.le_div_iff_mul_le (by cases kind <;> decide)).mp hcount
    have hheader := h.header
    rw [Nat.mul_comm, Nat.mul_succ] at hentry
    omega

/-- The lookups are right, for each kind of root table that `acpi_check` has accepted, exactly if
the lengths can be counted; and the two kinds agree. -/
theorem acpi_lookup_sound (m : Mem) :
    (∀ kind table, acpiCheck m table = .ok true → (∀ t ∈ listed kind m table, t ≠ 0) →
      (LookupSound kind m table ↔ Countable kind m table)) ∧
    ∀ rsdt xsdt, acpiCheck m rsdt = .ok true → acpiCheck m xsdt = .ok true → Countable .rsdt m rsdt →
      Countable .xsdt m xsdt → listedAddrs .rsdt m rsdt = listedAddrs .xsdt m xsdt → ∀ signature ≠ 0,
      (acpiLookup m ⟨rsdt, 0⟩ signature).1 = (acpiLookup m ⟨0, xsdt⟩ signature).1 := by
  have hnull {table : ℕ} (haccepted : acpiCheck m table = .ok true) : table ≠ 0 := by
    obtain ⟨_, hne, -⟩ := bind_eq_ok.mp haccepted
    exact kassert_eq_ok_iff.mp hne
  refine ⟨fun kind table haccepted htables => ⟨fun h => ⟨h.header (hnull haccepted), fun t ht => ?_⟩,
    fun h => h.lookupSound (hnull haccepted) htables⟩,
    fun rsdt xsdt hrsdt hxsdt hcount hcount' hsame signature hsignature => ?_⟩
  · have hne : t ≠ 0 := by
      rcases List.mem_cons.mp ht with rfl | ht
      · exact hnull haccepted
      · exact htables t ht
    exact (acpiCheck_iff hne).mp (h.checks t ht)
  · have hleft := @acpiLookup_state .rsdt m rsdt signature (hnull hrsdt) hsignature
    have hright := @acpiLookup_state .xsdt m xsdt signature (hnull hxsdt) hsignature
    calc (acpiLookup m ⟨rsdt, 0⟩ signature).1
        = (acpiRootLookup .rsdt m rsdt signature).1 := by rw [← hleft]; rfl
      _ = (acpiRootLookup .xsdt m xsdt signature).1 := by
          rw [acpiRootLookup_fst hcount.header, acpiRootLookup_fst hcount'.header, listed, listed, hsame]
      _ = (acpiLookup m ⟨0, xsdt⟩ signature).1 := by rw [← hright]; rfl

end Lookup

/-! ## Tables that show it -/

/-- An RSDT that lists one table, and this table: a header without signature of the right sum. -/
def rsdtBytes : List ℕ :=
  [152, 0, 0, 0, 40] ++ List.replicate 31 0 ++ [64, 0, 0, 0] ++ List.replicate 24 0 ++ [220, 0, 0, 0, 36]

/-- A table of this length with nothing else in it but the first byte. -/
def shortBytes (first : ℕ) (length : List ℕ) : List ℕ := [first, 0, 0, 0] ++ length

theorem acpi_lookup_sound_rsdt :
    LookupSound .rsdt (Mem.ofBytes directMapStart rsdtBytes) directMapStart ∧
      listed .rsdt (Mem.ofBytes directMapStart rsdtBytes) directMapStart = [directMapStart + 64] := by
  have hlisted : listed .rsdt (Mem.ofBytes directMapStart rsdtBytes) directMapStart = [directMapStart + 64] := by decide
  refine ⟨((acpi_lookup_sound _).1 .rsdt directMapStart (by decide) ?_).mpr ⟨by decide, ?_⟩, hlisted⟩
  · rw [hlisted]
    decide
  · rw [hlisted]
    decide

/-- Zeros behind the first bytes do not count. -/
theorem byteSum_add_zeros {m : Mem} {table k : ℕ} (hzero : ∀ i, k ≤ i → m (table + i) = 0) (n : ℕ) :
    byteSum m table (k + n) = byteSum m table k := by
  induction n with
  | zero => rfl
  | succ n ih =>
      rw [← Nat.add_assoc, byteSum_succ, ih, hzero _ (Nat.le_add_right _ _)]
      rfl

/-- A root table that is shorter than its header: the lookup reads an entry behind its end. And
one of `2 ^ 31` bytes: it is accepted though its sum is wrong. -/
theorem acpi_lookup_unsound :
    (acpiCheck (Mem.ofBytes directMapStart (shortBytes 248 [8])) directMapStart = .ok true ∧
        ¬LookupSound .rsdt (Mem.ofBytes directMapStart (shortBytes 248 [8])) directMapStart) ∧
      acpiCheck (Mem.ofBytes directMapStart (shortBytes 1 [0, 0, 0, 128])) directMapStart = .ok true ∧
        ¬SumZero (Mem.ofBytes directMapStart (shortBytes 1 [0, 0, 0, 128])) directMapStart := by
  refine ⟨⟨by decide, fun h => absurd (h.header (by decide)) (by decide)⟩, by decide, fun h => ?_⟩
  have hzero : ∀ i, 8 ≤ i → Mem.ofBytes directMapStart (shortBytes 1 [0, 0, 0, 128]) (directMapStart + i) = 0 := by
    intro i hi
    have hlength : (shortBytes 1 [0, 0, 0, 128]).length ≤ i := hi
    rw [Mem.ofBytes, if_neg (by omega), Nat.add_sub_cancel_left, List.getD_eq_getElem?_getD, List.getElem?_eq_none hlength]
    rfl
  have hsum := byteSum_add_zeros hzero (2 ^ 31 - 8)
  rw [SumZero, show sdtLength _ directMapStart = 8 + (2 ^ 31 - 8) by decide, hsum] at h
  exact absurd h (by decide)

end HeavenOS
