/-
# The APIC and walks over firmware tables

The initialisation in `drivers/apic.c` reads the addresses of the interrupt controllers from the
MADT, whose entries it visits one after the other by their lengths. The tags of the boot
information and the entries of a memory map are visited in the same way. All three walks take
the way from one record to the next from the table itself, so it is the table that decides
whether they end and whether they stay inside.
-/

import HeavenOS.Drivers.Acpi

namespace HeavenOS

open Lib

/-- `TYPE_IOAPIC` -/
def typeIoapic : ℕ := 1

/-- `entry->type` -/
def madtEntryType (m : Mem) (entry : ℕ) : ℕ := (m entry).toNat

/-- `entry->length` -/
def madtEntryLength (m : Mem) (entry : ℕ) : ℕ := (m (entry + 1)).toNat

/-- `&header->first_entry` -/
def madtFirstEntry (header : ℕ) : ℕ := (header + 44) % 2 ^ 64

/-- `(uint8_t*)entry >= (uint8_t*)header + header->acpi.length` -/
def IsMadtEnd (m : Mem) (header entry : ℕ) : Prop := (header + sdtLength m header) % 2 ^ 64 ≤ entry

instance (m : Mem) (header : ℕ) : DecidablePred (IsMadtEnd m header) := fun _ => inferInstanceAs (Decidable (_ ≤ _))

/-- Where the loop goes from an entry. -/
def madtNextEntry (m : Mem) (entry : ℕ) : ℕ := (entry + madtEntryLength m entry) % 2 ^ 64

/-- The body of the `switch`. -/
def madtSee (m : Mem) (ioapicPtr entry : ℕ) : ℕ :=
  if madtEntryType m entry = typeIoapic then m.loadU32 (entry + 4) else ioapicPtr

/-- The loop over the entries of the MADT: the address of the I/O APIC, and the entries that were
read; nothing if it has not come to its end within `fuel` iterations. -/
def madtLoop (m : Mem) (header : ℕ) : (fuel entry ioapicPtr : ℕ) → Option (ℕ × List ℕ)
  | 0, _, _ => none
  | fuel + 1, entry, ioapicPtr =>
      if IsMadtEnd m header entry then some (ioapicPtr, [])
      else
        (madtLoop m header fuel (madtNextEntry m entry) (madtSee m ioapicPtr entry)).map
          fun (ptr, entries) => (ptr, entry :: entries)

/-! ## Initialisation -/

/-- A write to an I/O port, or to a register of the local APIC. -/
inductive DeviceWrite where
  | outb (port data : ℕ)
  | lapic (idx value : ℕ)
  deriving DecidableEq

/-- What `apic_init` writes after it has found the controllers. -/
def apicInitWrites : List DeviceWrite :=
  [.outb (0x20 + 1) 0xFF, .outb (0xA0 + 1) 0xFF, .lapic 0x0F0 (39 ||| 0x100), .lapic 0x340 0x10000,
    .lapic 0x350 0x10000, .lapic 0x360 0x10000, .lapic 0x0B0 0, .lapic 0x080 0]

/-- `apic_init`, where `apic` points to the text of the signature: `lapic_ptr`, `ioapic_ptr` and
the writes to the devices. -/
def apicInit (m : Mem) (s : AcpiState) (fuel apic ioapicPtr : ℕ) : Except Panic (Option (ℕ × ℕ × List DeviceWrite)) := do
  let header ← (acpiLookup m s apic).1
  if header = 0 then .error "ACPI MADT not found!"
  let lapicPtr := physToVirt (m.loadU32 (header + 36))
  match madtLoop m header fuel (madtFirstEntry header) ioapicPtr with
  | none => return none
  | some (ioapicPtr, _) =>
      if ioapicPtr = 0 then .error "Cannot locate I/O APIC address"
      if lapicPtr = 0 then .error "Cannot locate Local APIC address"
      return some (lapicPtr, ioapicPtr, apicInitWrites)

/-- The loop is a walk from entry to entry. -/
theorem madtLoop_eq (m : Mem) (header fuel entry ioapicPtr : ℕ) :
    madtLoop m header fuel entry ioapicPtr =
      (scan (IsMadtEnd m header) (madtNextEntry m) fuel entry).map
        fun places => (places.dropLast.foldl (madtSee m) ioapicPtr, places.dropLast) := by
  induction fuel generalizing entry ioapicPtr with
  | zero => rfl
  | succ fuel ih =>
      rw [madtLoop]
      by_cases hend : IsMadtEnd m header entry
      · rw [scan_of_stop hend, if_pos hend]
        rfl
      · rw [scan_of_not_stop hend, if_neg hend, ih, Option.map_map, Option.map_map]
        refine Option.map_congr fun places hplaces => ?_
        simp [List.dropLast_cons_of_ne_nil (scan_ne_nil hplaces)]

/-! ## Records inside of their tables -/

/-- The address lies in the mapping of the physical memory. -/
def InDirectMap (a : ℕ) : Prop := directMapStart ≤ a ∧ a < directMapStart + directMapSize

instance : DecidablePred InDirectMap := fun _ => inferInstanceAs (Decidable (_ ∧ _))

/-- A tag, with its header, lies in the boot information. -/
def TagInside (m : Mem) (base tag : ℕ) : Prop :=
  tag + 8 ≤ base + mbTotalSize m base ∧ tag + mbTagSize m tag ≤ base + mbTotalSize m base

/-- An entry of the memory map, with the fields that are read, lies in the tag. -/
def MemmapEntryInside (m : Mem) (info entry : ℕ) : Prop :=
  entry + 20 ≤ info + mbTagSize m info ∧ entry + mbEntrySize m info ≤ info + mbTagSize m info

/-- An entry of the MADT, with the fields that are read, lies in the table. -/
def MadtEntryInside (m : Mem) (header entry : ℕ) : Prop :=
  entry + 2 ≤ header + sdtLength m header ∧ entry + madtEntryLength m entry ≤ header + sdtLength m header ∧
    (madtEntryType m entry = typeIoapic → entry + 8 ≤ header + sdtLength m header)

/-- Every tag that the sizes lead to is inside, and one that is not the last has a size, or is
at least followed by padding. -/
def BootInfoLinked (m : Mem) (base : ℕ) : Prop :=
  ∀ tag, Reached (IsEndTag m) (mbNextTag m) (base + 8) tag →
    TagInside m base tag ∧ (¬IsEndTag m tag → ¬(mbTagSize m tag = 0 ∧ mbTagAlignment ∣ tag))

/-- There are no entries, or they are large enough and fill the tag. -/
def MemmapLinked (m : Mem) (info : ℕ) : Prop :=
  mbTagSize m info ≤ 16 ∨ 20 ≤ mbEntrySize m info ∧ mbEntrySize m info ∣ mbTagSize m info - 16

/-- Every entry that the lengths lead to is inside and has a length. -/
def MadtLinked (m : Mem) (header : ℕ) : Prop :=
  ∀ entry, Reached (IsMadtEnd m header) (madtNextEntry m) (header + 44) entry → ¬IsMadtEnd m header entry →
    MadtEntryInside m header entry ∧ madtEntryLength m entry ≠ 0

/-! ## The three walks -/

section Walks

variable {m : Mem}

/-- The parser ends inside of the boot information exactly if the tags are linked. -/
theorem mbParseTags_inside {base : ℕ} (hbase : InDirectMap base) (p : MbPointers) :
    (∃ fuel p' tags, mbParseTags m fuel (base + 8) p = some (p', tags) ∧ ∀ tag ∈ tags, TagInside m base tag) ↔
      BootInfoLinked m base := by
  have htotal : mbTotalSize m base < 2 ^ 32 := m.loadU32_lt _
  have hend : base + mbTotalSize m base + 8 < 2 ^ 64 := by
    unfold InDirectMap directMapStart directMapSize at hbase
    omega
  have hless (tag : ℕ) (hin : TagInside m base tag) (hforward : ¬(mbTagSize m tag = 0 ∧ mbTagAlignment ∣ tag)) :
      base + mbTotalSize m base - mbNextTag m tag < base + mbTotalSize m base - tag := by
    unfold TagInside mbNextTag mbTagAlignment roundUp roundDown at *
    omega
  have hstuck (tag : ℕ) (hin : TagInside m base tag) (hback : mbTagSize m tag = 0 ∧ mbTagAlignment ∣ tag) :
      mbNextTag m tag = tag := by
    unfold TagInside mbNextTag mbTagAlignment roundUp roundDown at *
    omega
  have hiff : _ ↔ BootInfoLinked m base := scan_good_iff (TagInside m base) _ (base + mbTotalSize m base - ·)
    (fun tag _ hin _ => hless tag hin) (fun tag hin _ hback => hstuck tag hin (not_not.mp hback))
  refine Iff.trans ?_ hiff
  constructor
  · rintro ⟨fuel, p', tags, hparse, hin⟩
    rw [mbParseTags_eq] at hparse
    obtain ⟨places, hscan, heq⟩ := Option.map_eq_some_iff.mp hparse
    obtain ⟨-, rfl⟩ := Prod.mk.inj heq
    exact ⟨fuel, places, hscan, hin⟩
  · rintro ⟨fuel, tags, hscan, hin⟩
    exact ⟨fuel, _, tags, by rw [mbParseTags_eq, hscan]; rfl, hin⟩

/-- The loop ends inside of the MADT exactly if the entries are linked. -/
theorem madtLoop_inside {header : ℕ} (hheader : InDirectMap header) (ioapicPtr : ℕ) :
    (∃ fuel ptr entries, madtLoop m header fuel (madtFirstEntry header) ioapicPtr = some (ptr, entries) ∧
        ∀ entry ∈ entries, MadtEntryInside m header entry) ↔ MadtLinked m header := by
  have hlength : sdtLength m header < 2 ^ 32 := m.loadU32_lt _
  have hend : header + 44 < 2 ^ 64 ∧ header + sdtLength m header < 2 ^ 64 := by
    unfold InDirectMap directMapStart directMapSize at hheader
    omega
  have hless (entry : ℕ) (hin : MadtEntryInside m header entry) (hforward : madtEntryLength m entry ≠ 0) :
      header + sdtLength m header - madtNextEntry m entry < header + sdtLength m header - entry := by
    unfold MadtEntryInside madtNextEntry at *
    omega
  have hstuck (entry : ℕ) (hin : MadtEntryInside m header entry) (hback : madtEntryLength m entry = 0) :
      madtNextEntry m entry = entry := by
    unfold MadtEntryInside madtNextEntry at *
    omega
  have hiff : _ ↔ MadtLinked m header := scan_good_dropLast_iff (MadtEntryInside m header) _
    (header + sdtLength m header - ·) (fun entry _ hin _ => hless entry hin)
    (fun entry hin _ hback => hstuck entry hin (not_not.mp hback))
  refine Iff.trans ?_ hiff
  rw [madtFirstEntry, Nat.mod_eq_of_lt hend.1]
  constructor
  · rintro ⟨fuel, ptr, entries, hloop, hin⟩
    rw [madtLoop_eq] at hloop
    obtain ⟨places, hscan, heq⟩ := Option.map_eq_some_iff.mp hloop
    obtain ⟨-, rfl⟩ := Prod.mk.inj heq
    exact ⟨fuel, places, hscan, hin⟩
  · rintro ⟨fuel, places, hscan, hin⟩
    exact ⟨fuel, _, places.dropLast, by rw [madtLoop_eq, hscan]; rfl, hin⟩

/-- The iterator never gets past an entry without a size. -/
theorem mbMemmapEntries_of_zero {info entry : ℕ} (hentry : entry ≠ 0) (hlt : entry < info + mbTagSize m info)
    (hend : info + mbTagSize m info < 2 ^ 64) (hzero : mbEntrySize m info = 0) (fuel : ℕ) :
    mbMemmapEntries m info fuel entry = none := by
  induction fuel with
  | zero => rfl
  | succ fuel ih =>
      rw [mbMemmapEntries, mbMemmapIterNext, Nat.mod_eq_of_lt hend, if_neg (Nat.not_le.mpr hlt), hzero, Nat.add_zero,
        Nat.mod_eq_of_lt (hlt.trans hend)]
      simp [hentry, ih]

/-- The iterator leaves no entry out that begins inside of the tag. -/
theorem mem_mbMemmapEntries {info fuel entry it : ℕ} {entries : List ℕ} (hentry : entry ≠ 0)
    (hend : info + mbTagSize m info + mbEntrySize m info < 2 ^ 64)
    (h : mbMemmapEntries m info fuel entry = some (entries, it)) {j : ℕ}
    (hj : entry + j * mbEntrySize m info < info + mbTagSize m info) : entry + j * mbEntrySize m info ∈ entries := by
  induction fuel generalizing entry entries it j with
  | zero => cases h
  | succ fuel ih =>
      have hlt : entry < info + mbTagSize m info := by omega
      rw [mbMemmapEntries, mbMemmapIterNext, Nat.mod_eq_of_lt (by omega), if_neg (Nat.not_le.mpr hlt),
        Nat.mod_eq_of_lt (by omega)] at h
      simp only [if_neg hentry] at h
      obtain ⟨⟨rest, it'⟩, hrest, heq⟩ := Option.map_eq_some_iff.mp h
      obtain ⟨rfl, -⟩ := Prod.mk.inj heq
      cases j with
      | zero => simp
      | succ j =>
          rw [Nat.succ_mul, Nat.add_comm (j * _), ← Nat.add_assoc] at hj ⊢
          exact List.mem_cons_of_mem _ (ih (by omega) hrest hj)

/-- The iterator ends inside of the tag exactly if there are no entries, or they fill it. -/
theorem mbMemmapEntries_inside {info : ℕ} (hinfo : InDirectMap info) :
    (∃ fuel first entries it, mbMemmapIterInit info = .ok first ∧
        mbMemmapEntries m info fuel first = some (entries, it) ∧ ∀ entry ∈ entries, MemmapEntryInside m info entry) ↔
      MemmapLinked m info := by
  have hsize : mbTagSize m info < 2 ^ 32 := m.loadU32_lt _
  have hentrySize : mbEntrySize m info < 2 ^ 32 := m.loadU32_lt _
  have hpos : info ≠ 0 ∧ info + mbTagSize m info + mbEntrySize m info < 2 ^ 64 ∧ info + 16 < 2 ^ 64 := by
    unfold InDirectMap directMapStart directMapSize at hinfo
    omega
  obtain ⟨hnull, hend, hfirst⟩ := hpos
  have hinit : mbMemmapIterInit info = .ok (info + 16) := by
    rw [mbMemmapIterInit, kassert_of_true hnull, ok_bind, Nat.mod_eq_of_lt hfirst]
    rfl
  unfold MemmapLinked
  constructor
  · rintro ⟨fuel, first, entries, it, hcall, hentries, hin⟩
    obtain rfl := Except.ok.inj (hinit.symm.trans hcall)
    refine or_iff_not_imp_left.mpr fun hsome => ?_
    have hne : mbEntrySize m info ≠ 0 := fun hzero => by
      rw [mbMemmapEntries_of_zero (by omega) (by omega) (by omega) hzero] at hentries
      cases hentries
    -- the last entry that begins inside
    have hle := Nat.div_mul_le_self (mbTagSize m info - 17) (mbEntrySize m info)
    have hgt := Nat.lt_div_mul_add (a := mbTagSize m info - 17) (Nat.pos_of_ne_zero hne)
    have hlast := hin _ (mem_mbMemmapEntries (by omega) hend hentries
      (show info + 16 + (mbTagSize m info - 17) / mbEntrySize m info * mbEntrySize m info < _ by omega))
    unfold MemmapEntryInside at hlast
    refine ⟨by omega, (mbTagSize m info - 17) / mbEntrySize m info + 1, ?_⟩
    rw [Nat.mul_comm, Nat.succ_mul]
    omega
  · intro hlinked
    by_cases hnone : mbTagSize m info ≤ 16
    · refine ⟨1, info + 16, [], info + 16, hinit, ?_, by simp⟩
      rw [mbMemmapEntries, mbMemmapIterNext, Nat.mod_eq_of_lt (by omega), if_pos (by omega)]
      rfl
    · obtain ⟨hlarge, n, hn⟩ := hlinked.resolve_left hnone
      have hfill : mbTagSize m info = 16 + n * mbEntrySize m info := by
        rw [Nat.mul_comm]
        omega
      have hspec := mbMemmapEntries_spec (by omega) hfill (by omega) (Nat.zero_le n) (show n < 0 + (n + 1) by omega)
      rw [Nat.zero_mul, Nat.add_zero, ← List.range_eq_range'] at hspec
      refine ⟨n + 1, info + 16, _, _, hinit, hspec, fun entry hentry => ?_⟩
      obtain ⟨j, hj, rfl⟩ := List.mem_map.mp hentry
      have hmul := Nat.mul_le_mul_right (mbEntrySize m info) (show j + 1 ≤ n from List.mem_range.mp hj)
      rw [Nat.succ_mul] at hmul
      unfold MemmapEntryInside
      omega

/-- Each of the walks over the tables of the firmware ends and stays inside of its table exactly
if the records of the table are linked. -/
theorem firmware_walks_inside (m : Mem) :
    (∀ earlyData base, earlyData ≠ 0 → m.loadPtr earlyData = base → InDirectMap base → ∀ p,
      ((∃ fuel p' tags, mbParseBootInfo m fuel earlyData p = .ok (some (p', tags)) ∧
          ∀ tag ∈ tags, TagInside m base tag) ↔ BootInfoLinked m base)) ∧
    (∀ info, InDirectMap info →
      ((∃ fuel first entries it, mbMemmapIterInit info = .ok first ∧
          mbMemmapEntries m info fuel first = some (entries, it) ∧
          ∀ entry ∈ entries, MemmapEntryInside m info entry) ↔ MemmapLinked m info)) ∧
    ∀ header, InDirectMap header → ∀ ioapicPtr,
      ((∃ fuel ptr entries, madtLoop m header fuel (madtFirstEntry header) ioapicPtr = some (ptr, entries) ∧
          ∀ entry ∈ entries, MadtEntryInside m header entry) ↔ MadtLinked m header) := by
  refine ⟨fun earlyData base hearly hload hbase p => ?_, fun info hinfo => mbMemmapEntries_inside hinfo,
    fun header hheader ioapicPtr => madtLoop_inside hheader ioapicPtr⟩
  have hwrap : base + 8 < 2 ^ 64 := by
    unfold InDirectMap directMapStart directMapSize at hbase
    omega
  have hcall (fuel : ℕ) :
      mbParseBootInfo m fuel earlyData p = .ok (mbParseTags m fuel (base + 8) { p with mbBootInfo := base }) := by
    rw [mbParseBootInfo, kassert_of_true hearly, ok_bind, hload]
    simp only [Nat.mod_eq_of_lt hwrap]
    rfl
  simp only [hcall, Except.ok.injEq]
  exact mbParseTags_inside hbase _

end Walks

/-! ## Tables that show it -/

/-- A pointer to boot information, which has a memory map of one entry and an end tag, and
behind that a MADT with an I/O APIC. -/
def firmwareBytes : List ℕ :=
  [8, 0, 0, 0, 0x80, 0x88, 0xff, 0xff] ++ [56, 0, 0, 0, 0, 0, 0, 0] ++
    [6, 0, 0, 0, 40, 0, 0, 0, 24, 0, 0, 0, 0, 0, 0, 0] ++ [0, 0, 0, 0, 0, 0, 0, 0, 0, 0, 16, 0, 0, 0, 0, 0, 1, 0, 0, 0, 0, 0, 0, 0] ++
    [0, 0, 0, 0, 8, 0, 0, 0] ++ [65, 80, 73, 67, 56] ++ List.replicate 39 0 ++ [1, 12, 0, 0, 0, 0, 192, 254, 0, 0, 0, 0]

def firmwareMem : Mem := Mem.ofBytes directMapStart firmwareBytes

/-- A pointer to boot information with a tag of size zero, behind it. -/
def emptyTagBytes : List ℕ :=
  [8, 0, 0, 0, 0x80, 0x88, 0xff, 0xff] ++ [24, 0, 0, 0, 0, 0, 0, 0] ++ [1, 0, 0, 0, 0, 0, 0, 0] ++ [0, 0, 0, 0, 8, 0, 0, 0]

/-- A memory map with an entry, and with entries of size zero. -/
def emptyEntryBytes : List ℕ := [6, 0, 0, 0, 40]

/-- A MADT with an entry of length zero, and the right sum. -/
def emptyMadtBytes : List ℕ := [208, 0, 0, 0, 48]

/-- Three walks with a record each. -/
theorem firmware_walks_inside_records :
    (∃ fuel p tags, mbParseBootInfo firmwareMem fuel directMapStart .null = .ok (some (p, tags)) ∧
        ∀ tag ∈ tags, TagInside firmwareMem (directMapStart + 8) tag) ∧
      (∃ fuel first entries it, mbMemmapIterInit (directMapStart + 16) = .ok first ∧
        mbMemmapEntries firmwareMem (directMapStart + 16) fuel first = some (entries, it) ∧
        ∀ entry ∈ entries, MemmapEntryInside firmwareMem (directMapStart + 16) entry) ∧
      ∃ fuel ptr entries,
        madtLoop firmwareMem (directMapStart + 64) fuel (madtFirstEntry (directMapStart + 64)) 0 = some (ptr, entries) ∧
        ∀ entry ∈ entries, MadtEntryInside firmwareMem (directMapStart + 64) entry := by
  obtain ⟨hboot, hmap, hmadt⟩ := firmware_walks_inside firmwareMem
  refine ⟨(hboot directMapStart (directMapStart + 8) (by decide) (by decide) (by decide) _).mpr fun tag htag => ?_,
    (hmap _ (by decide)).mpr (Or.inr ⟨by decide, by decide⟩), (hmadt _ (by decide) 0).mpr fun entry hentry hnot => ?_⟩
  · have hsecond : mbNextTag firmwareMem (directMapStart + 8 + 8) = directMapStart + 56 := by decide
    have hend : IsEndTag firmwareMem (directMapStart + 56) := by decide
    rcases reached_iff.mp htag with rfl | ⟨-, hnext⟩
    · exact ⟨⟨by decide, by decide⟩, fun _ => by decide⟩
    · rw [hsecond] at hnext
      rcases reached_iff.mp hnext with rfl | ⟨hstop, -⟩
      · exact ⟨⟨by decide, by decide⟩, fun hstop => absurd hend hstop⟩
      · exact absurd hend hstop
  · have hsecond : madtNextEntry firmwareMem (directMapStart + 64 + 44) = directMapStart + 120 := by decide
    have hend : IsMadtEnd firmwareMem (directMapStart + 64) (directMapStart + 120) := by decide
    rcases reached_iff.mp hentry with rfl | ⟨-, hnext⟩
    · exact ⟨⟨by decide, by decide, fun _ => by decide⟩, by decide⟩
    · rw [hsecond] at hnext
      rcases reached_iff.mp hnext with rfl | ⟨hstop, -⟩
      · exact absurd hend hnot
      · exact absurd hend hstop

/-- Each of the three walks can hang, the last one in a table that `acpi_check` accepts. -/
theorem firmware_walks_hang :
    (∀ fuel, mbParseBootInfo (Mem.ofBytes directMapStart emptyTagBytes) fuel directMapStart .null = .ok none) ∧
      (∀ fuel, mbMemmapEntries (Mem.ofBytes directMapStart emptyEntryBytes) directMapStart fuel (directMapStart + 16) = none) ∧
      acpiCheck (Mem.ofBytes directMapStart emptyMadtBytes) directMapStart = .ok true ∧
      ∀ fuel, madtLoop (Mem.ofBytes directMapStart emptyMadtBytes) directMapStart fuel (madtFirstEntry directMapStart) 0 = none := by
  refine ⟨fun fuel => ?_, mbMemmapEntries_of_zero (by decide) (by decide) (by decide) (by decide), by decide, fun fuel => ?_⟩
  · have hfirst : (Mem.loadPtr (Mem.ofBytes directMapStart emptyTagBytes) directMapStart + 8) % 2 ^ 64 =
        directMapStart + 16 := by decide
    rw [mbParseBootInfo, kassert_of_true (by decide), ok_bind]
    simp only [hfirst, mbParseTags_eq]
    rw [scan_of_stuck .start (by decide) (by decide)]
    rfl
  · rw [madtLoop_eq, scan_of_stuck .start (by decide) (by decide)]
    rfl

end HeavenOS
