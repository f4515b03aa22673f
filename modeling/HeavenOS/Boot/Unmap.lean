/-
# Leaving the boot mapping

`unmap_early` of `arch/x86/x86.c` takes back the identity mapping that `boot.asm` has made, and
`vmem_init_from_current` of `mm/vmem.c` copies what is left of the boot tables to an address
space, in which the scheduler destroys dead tasks. The boot tables in memory are a tree in the
sense of `Mm.PageTable`, so that the copy is one of those of `Mm.VmemClone`.
-/

import HeavenOS.Boot.Early
import HeavenOS.Mm.VmemClone
import HeavenOS.Sched.SetupVmem

namespace HeavenOS

open Lib

/-! ## The code -/

/-- `unmap_early` -/
def unmapEarly (earlyPml4 : ℕ) (m : Mem) : Mem :=
  let pml4Virt := physToVirt earlyPml4
  let pdpdVirt := physToVirt (entry m pml4Virt 0 &&& ~~~0xFFF#64).toNat
  m.storeWord pdpdVirt 0

/-- `vmem_init_from_current` with this address in `cr3`. -/
def vmemInitFromCurrent (cr3 : ℕ) (k : Kernel) : Except Panic (Int × Vmem × Kernel) := do
  let (res, vm, k) := vmemInit k
  if res < 0 then return (res, vm, k) else
  let (res, k) ← vmemClonePages vm (physToVirt cr3) k
  if res < 0 then return (res, vm, k) else
  return (0, vm, k)

/-- It is the copy of an address space without areas. -/
theorem vmemInitFromCurrent_eq (cr3 : ℕ) (k : Kernel) : vmemInitFromCurrent cr3 k = vmemClone ⟨[], physToVirt cr3⟩ k := by
  unfold vmemInitFromCurrent vmemClone cloneAreas
  simp

/-! ## The static tables -/

/-- The page of a static table: the PML4, the PDPT of `boot.asm`, those of the direct mapping, and
the tables of the kernel sections. -/
def EarlyAddrs.page (addrs : EarlyAddrs) (i : ℕ) : ℕ :=
  if i = 0 then addrs.earlyPml4
  else if i = 1 then addrs.earlyPdpt
  else if i < 130 then addrs.directPhysMappingPdpts + pageSize * (i - 2)
  else if i = 130 then addrs.higherHalfPdpt
  else addrs.higherHalfPgdirs + pageSize * (i - 131)

/-- The static tables are different pages inside of the direct mapping, none of them its first. -/
structure EarlyAddrs.Placed (addrs : EarlyAddrs) : Prop where
  pos : ∀ i < 133, 0 < addrs.page i
  dvd : ∀ i < 133, pageSize ∣ addrs.page i
  le : ∀ i < 133, addrs.page i + pageSize ≤ 2 ^ 46
  inj : ∀ i < 133, ∀ j < 133, addrs.page i = addrs.page j → i = j

/-- The memory in which `kmain` starts: the tables of `early_setup_paging`, and the one of `boot.asm`. -/
structure BootMemory (addrs : EarlyAddrs) (image : Image) (m : Mem) : Prop where
  tables : (earlySetupPaging addrs image.start (image.start + image.size) (bootTables addrs)).InMemory addrs m
  earlyPdpt : ∀ i < 512, entry m (physToVirt addrs.earlyPdpt) i =
    if i = 0 then ptePageSize ||| ptePresent ||| pteWriteable else 0

/-- Below the direct mapping there is only the entry of `boot.asm`. -/
theorem earlySetupPaging_low (addrs : EarlyAddrs) {image : Image} (hpages : image.pages < 1024) {i : ℕ} (hi : i < 273) :
    (earlySetupPaging addrs image.start (image.start + image.size) (bootTables addrs)).earlyPml4 i =
      if i = 0 then pteWord addrs.earlyPdpt false kernelRights else 0 := by
  have hstart : (earlyMapDirect addrs 128 0 (bootTables addrs)).Sections addrs image 0 := by
    obtain ⟨-, -, hpdpt, hpgdirs⟩ := earlyMapDirect_spec addrs (i := 0) (le_refl (0 + 128)) (bootTables addrs)
    refine ⟨fun j hj => ?_, fun g hg d hd => ?_⟩
    · rw [hpdpt, show sectionsPdpe 0 j = none by simp [sectionsPdpe]]
      rfl
    · rw [hpgdirs, if_neg (by omega)]
      rfl
  obtain ⟨hpml4, -, -, -⟩ := earlyMapDirect_spec addrs (i := 0) (le_refl (0 + 128)) (bootTables addrs)
  obtain ⟨t, hloop, -, hpml4', -⟩ := earlyMapSections_spec (Nat.zero_le _) image.pages_bounds.2 hstart
  rw [Nat.zero_mul, Nat.add_zero, Nat.add_zero, ← image.size_eq,
    show kernelSectionsStart % 2 ^ 64 = kernelSectionsStart by decide] at hloop
  have hindex : i ≠ tableIndex 3 ((kernelSectionsStart + image.size) % 2 ^ 64) := by
    rw [tableIndex_eq, image.size_eq]
    unfold kernelSectionsStart twoMb
    omega
  rw [earlySetupPaging, show divRoundUp (directMapSize / gb) 512 = 128 by decide]
  simp only [hloop]
  rw [Function.update_of_ne hindex, hpml4', hpml4, if_neg (by omega), bootTables, linkWord_eq]

/-! ## The tree -/

/-- The static table at a path. -/
def earlyTableAt (image : Image) : Path → Option ℕ
  | [] => some 0
  | [m] => if m = 0 then some 1 else if 273 ≤ m ∧ m < 401 then some (m - 273 + 2) else if m = 511 then some 130 else none
  | [p, m] => if m = 511 ∧ p = 510 then some 131 else if m = 511 ∧ p = 511 ∧ 512 < image.pages then some 132 else none
  | _ => none

/-- The page at a path. -/
def earlyLeafAt (image : Image) (identity : Bool) : Path → Option Leaf
  | [p, m] =>
      if m = 0 ∧ p = 0 then if identity then some ⟨0, kernelRights⟩ else none
      else if 273 ≤ m ∧ m < 401 ∧ p < 512 then some ⟨((m - 273) * 512 + p) * gb, kernelRights⟩
      else none
  | [d, p, m] =>
      if m = 511 ∧ 510 ≤ p ∧ p < 512 ∧ d < 512 ∧ (p - 510) * 512 + d < image.pages then
        some ⟨image.start + ((p - 510) * 512 + d) * twoMb, kernelRights⟩
      else none
  | _ => none

/-- The boot tables, with or without the identity mapping. -/
def earlyTree (addrs : EarlyAddrs) (image : Image) (identity : Bool) : PageTable where
  table q := (earlyTableAt image q).map fun i => (physToVirt (addrs.page i), kernelRights)
  leaf := earlyLeafAt image identity

/-- Where the tree has pages, or had one. -/
def earlyClaimed (image : Image) : Set Path := {q | (earlyLeafAt image true q).isSome}

/-- Without its flags a link is an address. -/
theorem pteWord_and_not_flags {phys : ℕ} (hdvd : pageSize ∣ phys) (hlt : phys < 2 ^ 48) :
    (pteWord phys false kernelRights &&& ~~~0xFFF#64).toNat = phys := by
  have hmask : pteWord phys false kernelRights &&& pteAddrMask = pteWord phys false kernelRights := by
    apply BitVec.eq_of_getLsbD_eq
    intro i hi
    have hbit : pteAddrMask.getLsbD i = decide (i < 48) := by
      rw [show pteAddrMask = BitVec.ofNat 64 (2 ^ 48 - 1) by decide, BitVec.getLsbD_ofNat, Nat.testBit_two_pow_sub_one]
      simp [hi]
    rw [BitVec.getLsbD_and, hbit]
    by_cases hlow : i < 48
    · rw [decide_eq_true hlow, Bool.and_true]
    · rw [getLsbD_pteWord _ _ _ hi, testBit_phys hdvd hlt (Or.inr (by omega))]
      simp [kernelRights]
      omega
  have haddr := pteAddr_pteWord hdvd hlt false kernelRights
  rwa [pteAddr, hmask] at haddr

section Tree

variable {addrs : EarlyAddrs} {image : Image} {identity : Bool}

/-- A table has only one path. -/
theorem earlyTableAt_path {q : Path} {i : ℕ} (h : earlyTableAt image q = some i) :
    i < 133 ∧ q = if i = 0 then [] else if i = 1 then [0] else if i < 130 then [i - 2 + 273] else if i = 130 then [511]
      else [i - 131 + 510, 511] := by
  unfold earlyTableAt at h
  split at h
  · obtain rfl := Option.some.inj h
    exact ⟨by decide, rfl⟩
  · rename_i m
    split_ifs at h with h0 h1 h2
    · obtain rfl := Option.some.inj h
      exact ⟨by decide, by simp [h0]⟩
    · obtain rfl := Option.some.inj h
      refine ⟨by omega, ?_⟩
      rw [if_neg (by omega), if_neg (by omega), if_pos (by omega), show m - 273 + 2 - 2 + 273 = m by omega]
    · obtain rfl := Option.some.inj h
      exact ⟨by decide, by simp [h2]⟩
  · rename_i p m
    split_ifs at h with h0 h1
    · obtain rfl := Option.some.inj h
      exact ⟨by decide, by simp [h0]⟩
    · obtain rfl := Option.some.inj h
      exact ⟨by decide, by simp [h1]⟩
  · cases h

theorem earlyTree_table {q : Path} {t : ℕ} {r : Rights} :
    (earlyTree addrs image identity).table q = some (t, r) ↔
      ∃ i, earlyTableAt image q = some i ∧ t = physToVirt (addrs.page i) ∧ r = kernelRights := by
  unfold earlyTree
  simp only [Option.map_eq_some_iff, Prod.mk.injEq]
  exact ⟨fun ⟨i, hi, ht, hr⟩ => ⟨i, hi, ht.symm, hr.symm⟩, fun ⟨i, hi, ht, hr⟩ => ⟨i, hi, ht.symm, hr.symm⟩⟩

theorem EarlyAddrs.Placed.isFrame (h : addrs.Placed) {i : ℕ} (hi : i < 133) : IsFrame (physToVirt (addrs.page i)) := by
  have hpos := h.pos i hi
  have hle := h.le i hi
  have hdvd := h.dvd i hi
  unfold pageSize at hle hdvd
  have hvirt : physToVirt (addrs.page i) = directMapStart + addrs.page i :=
    physToVirt_of_lt (by unfold directMapStart; omega)
  refine ⟨?_, by omega, by unfold pageSize; omega⟩
  rw [hvirt]
  exact Nat.dvd_add (by decide) hdvd

theorem EarlyAddrs.Placed.eq_of_physToVirt (h : addrs.Placed) {i j : ℕ} (hi : i < 133) (hj : j < 133)
    (heq : physToVirt (addrs.page i) = physToVirt (addrs.page j)) : i = j := by
  have hlei := h.le i hi
  have hlej := h.le j hj
  unfold pageSize at hlei hlej
  rw [physToVirt_of_lt (by unfold directMapStart; omega), physToVirt_of_lt (by unfold directMapStart; omega)] at heq
  exact h.inj i hi j hj (by omega)

/-- The pages of the tree. -/
inductive EarlyLeaf (image : Image) : Path → Leaf → Prop
  | identity : EarlyLeaf image [0, 0] ⟨0, kernelRights⟩
  | direct {n j : ℕ} (hn : n < 128) (hj : j < 512) : EarlyLeaf image [j, n + 273] ⟨(n * 512 + j) * gb, kernelRights⟩
  | kernel {g d : ℕ} (hg : g < 2) (hd : d < 512) (hpage : g * 512 + d < image.pages) :
      EarlyLeaf image [d, g + 510, 511] ⟨image.start + (g * 512 + d) * twoMb, kernelRights⟩

theorem earlyLeaf_of_some {q : Path} {l : Leaf} (h : earlyLeafAt image identity q = some l) : EarlyLeaf image q l := by
  unfold earlyLeafAt at h
  split at h
  · rename_i p m
    split_ifs at h with h0 h1 h2
    · obtain rfl := Option.some.inj h
      obtain ⟨rfl, rfl⟩ := h0
      exact .identity
    · obtain rfl := Option.some.inj h
      obtain ⟨n, rfl⟩ : ∃ n, m = n + 273 := ⟨m - 273, by omega⟩
      rw [Nat.add_sub_cancel]
      exact .direct (by omega) h2.2.2
  · rename_i d p m
    split_ifs at h with h0
    obtain rfl := Option.some.inj h
    obtain ⟨rfl, hlo, hhi, hd, hpage⟩ := h0
    obtain ⟨g, rfl⟩ : ∃ g, p = g + 510 := ⟨p - 510, by omega⟩
    rw [Nat.add_sub_cancel] at hpage ⊢
    exact .kernel (by omega) hd hpage
  · cases h

theorem EarlyLeaf.leafAt {q : Path} {l : Leaf} (h : EarlyLeaf image q l) (hq : identity = true ∨ q ≠ [0, 0]) :
    earlyLeafAt image identity q = some l := by
  cases h with
  | identity =>
      obtain rfl := hq.resolve_right (fun hne => hne rfl)
      rfl
  | @direct n j hn hj =>
      rw [earlyLeafAt, if_neg (by omega), if_pos (by omega), Nat.add_sub_cancel]
  | @kernel g d hg hd hpage =>
      rw [earlyLeafAt, Nat.add_sub_cancel, if_pos (by omega)]

theorem mem_earlyClaimed {q : Path} : q ∈ earlyClaimed image ↔ ∃ l, EarlyLeaf image q l := by
  unfold earlyClaimed
  rw [Set.mem_ofPred_eq, Option.isSome_iff_exists]
  exact ⟨fun ⟨l, hl⟩ => ⟨l, earlyLeaf_of_some hl⟩, fun ⟨l, hl⟩ => ⟨l, hl.leafAt (Or.inl rfl)⟩⟩

theorem earlyTree_table_isSome {q : Path} :
    ((earlyTree addrs image identity).table q).isSome ↔ ∃ i, earlyTableAt image q = some i := by
  rw [earlyTree, Option.isSome_map, Option.isSome_iff_exists]

/-- The way to a table is made of tables. -/
theorem earlyTableAt_suffix {p q : Path} {i : ℕ} (hq : earlyTableAt image q = some i) (hp : p <:+ q) :
    ∃ j, earlyTableAt image p = some j := by
  obtain ⟨-, hpath⟩ := earlyTableAt_path hq
  have hroot : p <:+ ([] : Path) → ∃ j, earlyTableAt image p = some j := fun hp => by
    rw [List.suffix_nil.mp hp]
    exact ⟨0, rfl⟩
  have hone (m : ℕ) (hm : earlyTableAt image [m] = some i) (hp : p <:+ [m]) : ∃ j, earlyTableAt image p = some j := by
    rcases List.suffix_cons_iff.mp hp with rfl | hp
    · exact ⟨i, hm⟩
    · exact hroot hp
  split_ifs at hpath
  · exact hroot (hpath ▸ hp)
  · exact hone 0 (hpath ▸ hq) (hpath ▸ hp)
  · exact hone _ (hpath ▸ hq) (hpath ▸ hp)
  · exact hone 511 (hpath ▸ hq) (hpath ▸ hp)
  · rw [hpath] at hp
    rcases List.suffix_cons_iff.mp hp with rfl | hp
    · exact ⟨i, hpath ▸ hq⟩
    · rcases List.suffix_cons_iff.mp hp with rfl | hp
      · exact ⟨130, rfl⟩
      · exact hroot hp

/-- Below every table but the root there is a page, or was one. -/
theorem earlyTableAt_claimed {q : Path} {i : ℕ} (hq : earlyTableAt image q = some i) :
    q = [] ∨ ∃ c ∈ earlyClaimed image, q <:+ c ∧ q ≠ c := by
  obtain ⟨hi, hpath⟩ := earlyTableAt_path hq
  have hone := image.pages_bounds.1
  have hbelow (j : ℕ) (l : Leaf) (hl : EarlyLeaf image (j :: q) l) : ∃ c ∈ earlyClaimed image, q <:+ c ∧ q ≠ c :=
    ⟨j :: q, mem_earlyClaimed.mpr ⟨l, hl⟩, List.suffix_cons j q, (List.cons_ne_self j q).symm⟩
  split_ifs at hpath with h0 h1 h2 h3
  · exact Or.inl hpath
  · right
    rw [hpath] at hbelow ⊢
    exact hbelow 0 _ .identity
  · right
    rw [hpath] at hbelow ⊢
    exact hbelow 0 _ (.direct (by omega) (by decide))
  · right
    rw [hpath] at hbelow ⊢
    exact ⟨[0, 510, 511], mem_earlyClaimed.mpr ⟨_, .kernel (g := 0) (d := 0) (by decide) (by decide) hone⟩, ⟨[0, 510], rfl⟩,
      by simp⟩
  · right
    have hpage : (i - 131) * 512 + 0 < image.pages := by
      obtain rfl | rfl : i = 131 ∨ i = 132 := by omega
      · omega
      · rw [hpath] at hq
        by_contra hsmall
        simp [earlyTableAt] at hq
        omega
    rw [hpath] at hbelow ⊢
    exact hbelow 0 _ (.kernel (by omega) (by decide) hpage)

/-- A page has the size that its place in the tree says. -/
theorem EarlyLeaf.frame {q : Path} {l : Leaf} (h : EarlyLeaf image q l) :
    2 ^ (12 + 9 * (4 - q.length)) ∣ l.frame ∧ l.frame < 2 ^ 48 := by
  cases h with
  | identity => exact ⟨Nat.dvd_zero _, by decide⟩
  | direct hn hj => exact ⟨Nat.dvd_mul_left _ _, by unfold gb; simp only; omega⟩
  | @kernel g d hg hd hpage =>
      have hphys := image.phys
      rw [image.size_eq] at hphys
      refine ⟨Nat.dvd_add image.start_dvd (Nat.dvd_mul_left _ _), ?_⟩
      unfold twoMb at *
      simp only
      omega

/-- A page lies in a table. -/
theorem EarlyLeaf.parent {i : ℕ} {q : Path} {l : Leaf} (h : EarlyLeaf image (i :: q) l) : ∃ j, earlyTableAt image q = some j := by
  cases h with
  | identity => exact ⟨1, rfl⟩
  | @direct n j hn hj =>
      refine ⟨n + 2, ?_⟩
      rw [earlyTableAt, if_neg (by omega), if_pos (by omega), Nat.add_sub_cancel]
  | @kernel g d hg hd hpage =>
      obtain rfl | rfl : g = 0 ∨ g = 1 := by omega
      · exact ⟨131, rfl⟩
      · refine ⟨132, ?_⟩
        rw [earlyTableAt, if_neg (by decide), if_pos ⟨rfl, rfl, by omega⟩]

theorem EarlyLeaf.rights {q : Path} {l : Leaf} (h : EarlyLeaf image q l) : l.rights = kernelRights := by
  cases h <;> rfl

/-- No page lies below another. -/
theorem EarlyLeaf.apart {q q' : Path} {l l' : Leaf} (h : EarlyLeaf image q l) (h' : EarlyLeaf image q' l') (hsuf : q <:+ q') :
    q = q' := by
  have hlength := hsuf.length_le
  cases h with
  | identity =>
      cases h' with
      | kernel =>
          rcases List.suffix_cons_iff.mp hsuf with heq | hsuf
          · cases heq
          · have heq := hsuf.eq_of_length rfl
            simp at heq
      | identity | direct => exact hsuf.eq_of_length rfl
  | direct hn =>
      cases h' with
      | kernel =>
          rcases List.suffix_cons_iff.mp hsuf with heq | hsuf
          · cases heq
          · have heq := hsuf.eq_of_length rfl
            simp at heq
            omega
      | identity | direct => exact hsuf.eq_of_length rfl
  | kernel =>
      cases h' with
      | kernel => exact hsuf.eq_of_length rfl
      | identity | direct => exact absurd hlength (by simp)

/-- The boot tables form a tree. -/
theorem earlyTree_wellFormed (h : addrs.Placed) :
    (earlyTree addrs image identity).WellFormed (physToVirt addrs.earlyPml4) (earlyClaimed image) where
  root := ⟨kernelRights, earlyTree_table.mpr ⟨0, rfl, rfl, rfl⟩⟩
  isFrame := by
    intro q t r hq
    obtain ⟨i, hi, rfl, -⟩ := earlyTree_table.mp hq
    exact h.isFrame (earlyTableAt_path hi).1
  inj := by
    intro q q' t r r' hq hq'
    obtain ⟨i, hi, rfl, -⟩ := earlyTree_table.mp hq
    obtain ⟨j, hj, heq, -⟩ := earlyTree_table.mp hq'
    obtain ⟨hilt, hqi⟩ := earlyTableAt_path hi
    obtain ⟨hjlt, hqj⟩ := earlyTableAt_path hj
    obtain rfl := h.eq_of_physToVirt hilt hjlt heq
    rw [hqi, hqj]
  table_suffix := by
    intro p q hq hp
    obtain ⟨i, hi⟩ := earlyTree_table_isSome.mp hq
    exact earlyTree_table_isSome.mpr (earlyTableAt_suffix hi hp)
  table_claimed := by
    intro q hq
    obtain ⟨i, hi⟩ := earlyTree_table_isSome.mp hq
    exact earlyTableAt_claimed hi
  leaf_claimed := by
    intro q hq
    obtain ⟨l, hl⟩ := Option.isSome_iff_exists.mp hq
    exact mem_earlyClaimed.mpr ⟨l, earlyLeaf_of_some hl⟩
  leaf_parent := by
    intro i q hq
    obtain ⟨l, hl⟩ := Option.isSome_iff_exists.mp hq
    exact earlyTree_table_isSome.mpr (earlyLeaf_of_some hl).parent
  leaf_frame := fun hq => (earlyLeaf_of_some hq).frame
  rights := by
    intro p q t r l hp _ hq _
    obtain ⟨i, -, -, rfl⟩ := earlyTree_table.mp hp
    rw [(earlyLeaf_of_some hq).rights]
    exact ⟨id, id, id⟩
  claimed_length := by
    intro c hc
    obtain ⟨l, hl⟩ := mem_earlyClaimed.mp hc
    cases hl <;> simp
  claimed_lt := by
    intro c hc
    obtain ⟨l, hl⟩ := mem_earlyClaimed.mp hc
    cases hl with
    | identity => simp
    | direct hn hj => simp; omega
    | kernel hg hd => simp; omega
  antichain := by
    intro c hc c' hc' hne hsuf
    obtain ⟨l, hl⟩ := mem_earlyClaimed.mp hc
    obtain ⟨l', hl'⟩ := mem_earlyClaimed.mp hc'
    exact hne (hl.apart hl' hsuf)

/-! ## The tree in memory -/

theorem EarlyAddrs.Placed.virtToPhys (h : addrs.Placed) {i : ℕ} (hi : i < 133) :
    HeavenOS.virtToPhys (physToVirt (addrs.page i)) = addrs.page i := by
  have hle := h.le i hi
  rw [(h.isFrame hi).virtToPhys_eq, physToVirt_of_lt (by unfold pageSize at hle; unfold directMapStart; omega),
    Nat.add_sub_cancel_left]

theorem earlyTree_word_table (h : addrs.Placed) {q : Path} {i : ℕ} (hq : earlyTableAt image q = some i) :
    (earlyTree addrs image identity).word q = pteWord (addrs.page i) false kernelRights := by
  rw [PageTable.WellFormed.word_of_table (earlyTree_table.mpr ⟨i, hq, rfl, rfl⟩), h.virtToPhys (earlyTableAt_path hq).1]

theorem earlyTree_word_leaf (h : addrs.Placed) {q : Path} {l : Leaf} (hl : EarlyLeaf image q l)
    (hq : identity = true ∨ q ≠ [0, 0]) : (earlyTree addrs image identity).word q = pteWord l.frame true kernelRights := by
  rw [(earlyTree_wellFormed h).word_of_leaf (hl.leafAt hq), hl.rights,
    decide_eq_true (show q.length < 4 by cases hl <;> simp)]

theorem earlyTree_word_none {q : Path} (htable : earlyTableAt image q = none) (hleaf : earlyLeafAt image identity q = none) :
    (earlyTree addrs image identity).word q = 0 :=
  PageTable.WellFormed.word_of_none (by simp [earlyTree, htable]) hleaf

/-- The tables that the boot code leaves are the tree with the identity mapping. -/
theorem BootMemory.represents {m : Mem} (hm : BootMemory addrs image m) (h : addrs.Placed) (hpages : image.pages < 1024)
    (hapart : image.pages ≠ 512) : (earlyTree addrs image true).Represents m := by
  have hfinal := earlySetupPaging_final addrs image
  intro q t r hq i hi
  obtain ⟨n, hn, rfl, -⟩ := earlyTree_table.mp hq
  obtain ⟨hlt, hpath⟩ := earlyTableAt_path hn
  unfold EarlyAddrs.page
  split_ifs at hpath ⊢ with h0 h1 h2 h3
  · -- the PML4
    subst hpath
    rw [hm.tables.pml4 i hi]
    by_cases hlow : i < 273
    · rw [earlySetupPaging_low addrs hpages hlow]
      split_ifs with hzero
      · subst hzero
        exact (earlyTree_word_table h (q := [0]) (i := 1) rfl).symm
      · refine (earlyTree_word_none ?_ rfl).symm
        rw [earlyTableAt, if_neg hzero, if_neg (by omega), if_neg (by omega)]
    · rw [hfinal.pml4 i (by omega) hi]
      split_ifs with hdirect hlast
      · have htable : earlyTableAt image [i] = some (i - 273 + 2) := by
          rw [earlyTableAt, if_neg (by omega), if_pos hdirect]
        rw [earlyTree_word_table h htable, EarlyAddrs.page, if_neg (by omega), if_neg (by omega), if_pos (by omega),
          Nat.add_sub_cancel]
      · rw [hlast.1]
        exact (earlyTree_word_table h (q := [511]) (i := 130) rfl).symm
      · refine (earlyTree_word_none ?_ rfl).symm
        rw [earlyTableAt, if_neg (by omega), if_neg hdirect, if_neg (fun heq => hlast ⟨heq, hpages⟩)]
  · -- the PDPT of `boot.asm`
    subst hpath
    rw [hm.earlyPdpt i hi]
    split_ifs with hzero
    · subst hzero
      rw [earlyTree_word_leaf h .identity (Or.inl rfl)]
      exact (largeWord_eq 0).symm ▸ by simp
    · refine (earlyTree_word_none ?_ ?_).symm
      · simp [earlyTableAt]
      · simp [earlyLeafAt, hzero]
  · -- a PDPT of the direct mapping
    obtain ⟨n, rfl⟩ : ∃ k, n = k + 2 := ⟨n - 2, by omega⟩
    subst hpath
    rw [Nat.add_sub_cancel, hm.tables.pdpts n (by omega) i hi, hfinal.pdpts n (by omega) i hi,
      earlyTree_word_leaf h (.direct (by omega) hi) (Or.inl rfl)]
  · -- the PDPT of the sections
    subst hpath
    rw [hm.tables.pdpt i hi, hfinal.sections.pdpt i hi]
    have hone := image.pages_bounds.1
    by_cases hfirst : i = 510
    · subst hfirst
      rw [show sectionsPdpe image.pages 510 = some 0 from if_pos ⟨rfl, hone⟩]
      exact (earlyTree_word_table h (q := [510, 511]) (i := 131) rfl).symm
    by_cases hsecond : i = 511 ∧ 512 < image.pages
    · obtain ⟨rfl, hmany⟩ := hsecond
      have htable : earlyTableAt image [511, 511] = some 132 := if_pos ⟨rfl, rfl, hmany⟩
      rw [show sectionsPdpe image.pages 511 = some 1 by
        rw [sectionsPdpe, if_neg (by omega), if_neg (by omega), if_pos ⟨rfl, hmany⟩]]
      exact (earlyTree_word_table h htable).symm
    · rw [show sectionsPdpe image.pages i = none by
        rw [sectionsPdpe, if_neg (by omega), if_neg (by omega), if_neg (by omega), if_neg (by omega)]]
      refine (earlyTree_word_none ?_ ?_).symm
      · rw [earlyTableAt, if_neg (by omega), if_neg (by omega)]
      · rw [earlyLeafAt, if_neg (by omega), if_neg (by omega)]
  · -- a directory of the sections
    obtain ⟨g, rfl⟩ : ∃ g, n = g + 131 := ⟨n - 131, by omega⟩
    subst hpath
    rw [Nat.add_sub_cancel, hm.tables.pgdirs g (by omega) i hi, hfinal.sections.pgdirs g (by omega) i hi]
    split_ifs with hpage
    · exact (earlyTree_word_leaf h (.kernel (by omega) hi hpage) (Or.inl rfl)).symm
    · refine (earlyTree_word_none rfl ?_).symm
      rw [earlyLeafAt, Nat.add_sub_cancel, if_neg (by omega)]

/-- The identity mapping is in no other entry. -/
theorem earlyTree_word_congr {q : Path} (hq : q ≠ [0, 0]) :
    (earlyTree addrs image true).word q = (earlyTree addrs image false).word q := by
  have hleaf : earlyLeafAt image true q = earlyLeafAt image false q := by
    unfold earlyLeafAt
    split
    · rename_i p m
      have hne : ¬(m = 0 ∧ p = 0) := fun h => hq (by rw [h.1, h.2])
      rw [if_neg hne, if_neg hne]
    · rfl
    · rfl
  unfold PageTable.word earlyTree
  simp only [hleaf]

/-- Behind `unmap_early` they are the tree without it, and nothing outside of its table has
changed. -/
theorem BootMemory.unmapped {m : Mem} (hm : BootMemory addrs image m) (h : addrs.Placed) (hpages : image.pages < 1024)
    (hapart : image.pages ≠ 512) : (earlyTree addrs image false).Represents (unmapEarly addrs.earlyPml4 m) ∧
      ∀ a, ¬InFrame (physToVirt addrs.earlyPdpt) a → unmapEarly addrs.earlyPml4 m a = m a := by
  have hrep := hm.represents h hpages hapart
  have hentry : entry m (physToVirt addrs.earlyPml4) 0 = pteWord addrs.earlyPdpt false kernelRights := by
    rw [hm.tables.pml4 0 (by decide), earlySetupPaging_low addrs hpages (by decide), if_pos rfl]
  have hword : (earlyTree addrs image false).word [0, 0] = 0 := earlyTree_word_none rfl rfl
  have hrun : unmapEarly addrs.earlyPml4 m = m.storeWord (physToVirt addrs.earlyPdpt + 8 * 0) 0 := by
    have hdvd : pageSize ∣ addrs.earlyPdpt := h.dvd 1 (by decide)
    have hle : addrs.earlyPdpt + pageSize ≤ 2 ^ 46 := h.le 1 (by decide)
    rw [unmapEarly, hentry, pteWord_and_not_flags hdvd (by omega)]
    rfl
  rw [hrun]
  constructor
  · rw [← hword]
    refine PageTable.Represents.storeEntry (earlyTree_wellFormed h) (earlyTree_table.mpr ⟨1, rfl, rfl, rfl⟩) (by decide) ?_
    intro q t r hq j hj hne
    obtain ⟨n, hn, rfl, -⟩ := earlyTree_table.mp hq
    rw [hrep q _ _ (earlyTree_table.mpr ⟨n, hn, rfl, rfl⟩) j hj]
    exact earlyTree_word_congr hne
  · intro a ha
    exact Mem.storeWord_of_outside _ _ (by unfold InFrame pageSize at ha; omega)

/-! ## The walk -/

/-- Of the lower half, only the first gigabyte could lead to a page. -/
theorem EarlyLeaf.low {v n : ℕ} {l : Leaf} (h : EarlyLeaf image (pathTo v n) l) (hv : v < 2 ^ 47) :
    pathTo v n = [0, 0] := by
  have hindex : tableIndex 3 v < 256 := by
    rw [tableIndex_eq]
    omega
  have hlength := pathTo_length v n
  generalize hq : pathTo v n = q at h hlength
  cases h with
  | identity => rfl
  | direct =>
      obtain rfl : n = 2 := hlength.symm
      have heq := (List.cons.inj (List.cons.inj hq).2).1
      simp only [Nat.sub_zero] at heq
      omega
  | kernel =>
      obtain rfl : n = 3 := hlength.symm
      have heq := (List.cons.inj (List.cons.inj (List.cons.inj hq).2).2).1
      simp only [Nat.sub_zero] at heq
      omega

/-- Only its first gigabyte has the path of the identity mapping. -/
theorem pathTo_eq_identity {v n : ℕ} (hcanonical : Canonical v) : pathTo v n = [0, 0] ↔ n = 2 ∧ v < gb := by
  constructor
  · intro hpath
    have hn := pathTo_length v n
    rw [hpath] at hn
    obtain rfl : n = 2 := hn.symm
    obtain ⟨hp, hpath⟩ := List.cons.inj hpath
    have hm := (List.cons.inj hpath).1
    simp only [Nat.sub_zero] at hm hp
    rw [tableIndex_eq] at hm hp
    unfold Canonical at hcanonical
    unfold gb
    omega
  · rintro ⟨rfl, hv⟩
    have hp : tableIndex (3 - 1) v = 0 := by
      rw [tableIndex_eq]
      unfold gb at hv
      omega
    have hm : tableIndex (3 - 0) v = 0 := by
      rw [tableIndex_eq]
      unfold gb at hv
      omega
    rw [pathTo, pathTo, pathTo, hp, hm]

/-- `unmap_early` takes back exactly the identity mapping of the first gigabyte. The lower half
is then empty, and the higher half as it was. -/
theorem unmap_early_exact {m : Mem} (hm : BootMemory addrs image m) (h : addrs.Placed) (hpages : image.pages < 1024)
    (hapart : image.pages ≠ 512) :
    (∀ v < gb, walk m (physToVirt addrs.earlyPml4) v = some ⟨v, 2, kernelRights⟩) ∧
      (∀ v < 2 ^ 47, walk (unmapEarly addrs.earlyPml4 m) (physToVirt addrs.earlyPml4) v = none) ∧
      ∀ v, Canonical v → gb ≤ v → walk (unmapEarly addrs.earlyPml4 m) (physToVirt addrs.earlyPml4) v =
        walk m (physToVirt addrs.earlyPml4) v := by
  have hbefore := hm.represents h hpages hapart
  obtain ⟨hafter, -⟩ := hm.unmapped h hpages hapart
  refine ⟨fun v hv => ?_, fun v hv => ?_, fun v hcanonical hv => ?_⟩
  · have hcanonical : Canonical v := Or.inl (by unfold gb at hv; omega)
    have hpath := (pathTo_eq_identity (n := 2) hcanonical).mpr ⟨rfl, hv⟩
    have hleaf : (earlyTree addrs image true).leaf (pathTo v 2) = some ⟨0, kernelRights⟩ := by
      rw [hpath]
      rfl
    rw [walk_of_leaf (earlyTree_wellFormed h) hbefore hleaf, Nat.zero_add,
      show v % 2 ^ (12 + 9 * (4 - 2)) = v from Nat.mod_eq_of_lt hv]
  · refine walk_of_no_leaf (earlyTree_wellFormed h) hafter fun n _ => ?_
    by_contra hsome
    obtain ⟨l, hl⟩ := Option.ne_none_iff_exists'.mp hsome
    have hpath := (earlyLeaf_of_some hl).low hv
    rw [hpath] at hl
    cases hl
  · by_cases hsome : ∃ n ≤ 4, ∃ l, (earlyTree addrs image false).leaf (pathTo v n) = some l
    · obtain ⟨n, -, l, hl⟩ := hsome
      have hl' : earlyLeafAt image true (pathTo v n) = some l := (earlyLeaf_of_some hl).leafAt (Or.inl rfl)
      rw [walk_of_leaf (earlyTree_wellFormed h) hafter hl,
        walk_of_leaf (earlyTree_wellFormed h) hbefore hl']
    · have hnone : ∀ n ≤ 4, (earlyTree addrs image true).leaf (pathTo v n) = none := fun n hn => by
        by_contra hsome'
        obtain ⟨l, hl⟩ := Option.ne_none_iff_exists'.mp hsome'
        have hne : pathTo v n ≠ [0, 0] := fun hpath => by
          have := ((pathTo_eq_identity hcanonical).mp hpath).2
          omega
        exact hsome ⟨n, hn, l, (earlyLeaf_of_some hl).leafAt (Or.inr hne)⟩
      rw [walk_of_no_leaf (earlyTree_wellFormed h) hbefore hnone]
      refine walk_of_no_leaf (earlyTree_wellFormed h) hafter fun n hn => ?_
      by_contra hsome'
      obtain ⟨l, hl⟩ := Option.ne_none_iff_exists'.mp hsome'
      exact hsome ⟨n, hn, l, hl⟩

/-! ## The address space of the scheduler -/

/-- Frames that may be handed out, none of which is a static table. -/
structure FreeOfTables (addrs : EarlyAddrs) (frames : List (Option ℕ)) : Prop where
  fresh : FreshFrames frames
  tables : ∀ i < 133, some (physToVirt (addrs.page i)) ∉ frames

/-- The boot tables behind `unmap_early`, as an address space without areas. -/
theorem BootMemory.spaceInv {m : Mem} (hm : BootMemory addrs image m) (h : addrs.Placed) (hpages : image.pages < 1024)
    (hapart : image.pages ≠ 512) {k : Kernel} (hk : k.mem = unmapEarly addrs.earlyPml4 m)
    (hframes : FreeOfTables addrs k.frames) :
    SpaceInv ⟨⟨[], physToVirt addrs.earlyPml4⟩, k, []⟩ (earlyTree addrs image false) (earlyClaimed image) where
  valid :=
    { wf := earlyTree_wellFormed h
      rep := by
        rw [hk]
        exact (hm.unmapped h hpages hapart).1
      fresh := by
        refine ⟨hframes.fresh.1, fun f hf => ⟨hframes.fresh.2 f hf, fun q r hq => ?_⟩⟩
        obtain ⟨i, hi, rfl, -⟩ := earlyTree_table.mp hq
        exact hframes.tables i (earlyTableAt_path hi).1 hf }
  small := by
    intro q l hl halloc
    rw [(earlyLeaf_of_some hl).rights] at halloc
    cases halloc
  unused := by
    intro q l hl hlength
    cases earlyLeaf_of_some hl <;> cases hlength

/-- The areas of a new address space. -/
theorem vmemInitFromCurrent_areas {cr3 : ℕ} {k k' : Kernel} {res : Int} {vm : Vmem}
    (hcall : vmemInitFromCurrent cr3 k = .ok (res, vm, k')) : vm.areas = [] := by
  have hareas : (vmemInit k).2.1.areas = [] := by
    unfold vmemInit
    simp only
    split_ifs <;> rfl
  unfold vmemInitFromCurrent at hcall
  simp only at hcall
  split_ifs at hcall
  · obtain rfl := (Prod.mk.inj (Prod.mk.inj (Except.ok.inj hcall)).2).1
    exact hareas
  · cases hpages : vmemClonePages (vmemInit k).2.1 (physToVirt cr3) (vmemInit k).2.2 with
    | error e =>
        rw [hpages] at hcall
        cases hcall
    | ok out =>
        rw [hpages, ok_bind] at hcall
        split_ifs at hcall
        all_goals
          obtain rfl := (Prod.mk.inj (Prod.mk.inj (Except.ok.inj hcall)).2).1
          exact hareas

/-- With the boot tables in `cr3`, `vmem_init_from_current` returns. If it succeeds, the address
space of the scheduler translates every address as the boot tables do: nothing in the lower half,
and the mapping of the kernel in the higher half. It has no areas, and the boot tables have not
been changed. -/
theorem sched_vmem_boot_mapping {m : Mem} (hm : BootMemory addrs image m) (h : addrs.Placed) (hpages : image.pages < 1024)
    (hapart : image.pages ≠ 512) {k : Kernel} (hk : k.mem = unmapEarly addrs.earlyPml4 m)
    (hframes : FreeOfTables addrs k.frames) :
    ∃ res vm k', vmemInitFromCurrent addrs.earlyPml4 k = .ok (res, vm, k') ∧ vm.areas = [] ∧
      (res = 0 → ∀ v, walk k'.mem vm.pml4 v = walk k.mem (physToVirt addrs.earlyPml4) v ∧
        walk k'.mem (physToVirt addrs.earlyPml4) v = walk k.mem (physToVirt addrs.earlyPml4) v ∧
        (v < 2 ^ 47 → walk k'.mem vm.pml4 v = none)) := by
  have hsrc := hm.spaceInv h hpages hapart hk hframes
  obtain ⟨res, vm, k', hcall, hcopied⟩ := vmemClone_spec hsrc
  rw [← vmemInitFromCurrent_eq] at hcall
  refine ⟨res, vm, k', hcall, vmemInitFromCurrent_areas hcall, fun hres v => ?_⟩
  obtain ⟨pt, hcopy⟩ := hcopied hres
  have hsame := hcopy.sameTranslation hsrc v
  have hwalk : walk k'.mem vm.pml4 v = walk k.mem (physToVirt addrs.earlyPml4) v := by
    cases hold : walk k.mem (physToVirt addrs.earlyPml4) v with
    | none =>
        rw [hold] at hsame
        cases hnew : walk k'.mem vm.pml4 v with
        | none => rfl
        | some tr =>
            rw [hnew] at hsame
            exact hsame.elim
    | some tr =>
        rw [hold] at hsame
        cases hnew : walk k'.mem vm.pml4 v with
        | none =>
            rw [hnew] at hsame
            exact hsame.elim
        | some tr' =>
            rw [hnew] at hsame
            obtain ⟨hlevel, hrights, hphys, -⟩ := hsame
            obtain ⟨n, hleaf, -⟩ := exists_leaf_of_walk hsrc.valid.wf hsrc.valid.rep hold
            obtain ⟨l, hl⟩ := Option.isSome_iff_exists.mp hleaf
            have htr := (walk_of_leaf hsrc.valid.wf hsrc.valid.rep hl).symm.trans hold
            have halloc : tr.rights.alloc = false := by
              rw [← Option.some.inj htr]
              simp only [(earlyLeaf_of_some hl).rights]
              rfl
            obtain ⟨phys, level, rights⟩ := tr
            obtain ⟨phys', level', rights'⟩ := tr'
            simp only at hlevel hrights hphys halloc
            rw [hphys halloc, hlevel, hrights]
  refine ⟨hwalk, walk_congr hsrc.valid (hcopy.source hsrc).valid rfl v, fun hv => ?_⟩
  rw [hwalk, hk]
  exact (unmap_early_exact hm h hpages hapart).2.1 v hv

end Tree

/-! A kernel of one page, with the boot tables from 2 MiB on. -/

/-- The memory of `earlyMem`, with the PDPT of `boot.asm`. -/
def bootMem (t : EarlyTables) : Mem := Mem.ofWords fun w =>
  if w / 512 - physToVirt 0 / pageSize = 0x201 then if w % 512 = 0 then ptePageSize ||| ptePresent ||| pteWriteable else 0
  else (earlyMem t).loadWord (8 * w)

theorem entry_bootMem (t : EarlyTables) {frame i : ℕ} (hframe : frame < 2 ^ 20) (hi : i < 512) :
    entry (bootMem t) (physToVirt (frame * pageSize)) i =
      if frame = 0x201 then if i = 0 then ptePageSize ||| ptePresent ||| pteWriteable else 0
      else entry (earlyMem t) (physToVirt (frame * pageSize)) i := by
  have hvirt : physToVirt (frame * pageSize) + 8 * i = 8 * ((physToVirt 0 / pageSize + frame) * 512 + i) := by
    unfold physToVirt directMapStart pageSize
    omega
  rw [entry, entry, hvirt, bootMem, Mem.loadWord_ofWords]
  simp only [show ((physToVirt 0 / pageSize + frame) * 512 + i) / 512 = physToVirt 0 / pageSize + frame by omega,
    show ((physToVirt 0 / pageSize + frame) * 512 + i) % 512 = i by omega, Nat.add_sub_cancel_left]

/-- The memory that `boot.asm` and `early_setup_paging` leave to a kernel of one page. -/
def onePageMem : Mem :=
  bootMem (earlySetupPaging earlyAddrs onePageImage.start (onePageImage.start + onePageImage.size) (bootTables earlyAddrs))

theorem earlyAddrs_page {i : ℕ} (hi : i < 133) : earlyAddrs.page i = (0x200 + i) * pageSize := by
  unfold EarlyAddrs.page pageSize
  split_ifs with h0 h1 h2 h3
  · rw [h0]; rfl
  · rw [h1]; rfl
  · change 0x202000 + 4096 * (i - 2) = _
    omega
  · rw [h3]; rfl
  · change 0x283000 + 4096 * (i - 131) = _
    omega

theorem earlyAddrs_placed : earlyAddrs.Placed where
  pos i hi := by
    rw [earlyAddrs_page hi]
    unfold pageSize
    omega
  dvd i hi := by
    rw [earlyAddrs_page hi]
    exact Nat.dvd_mul_left _ _
  le i hi := by
    rw [earlyAddrs_page hi]
    unfold pageSize
    omega
  inj i hi j hj h := by
    rw [earlyAddrs_page hi, earlyAddrs_page hj] at h
    unfold pageSize at h
    omega

/-- Only the PDPT of `boot.asm` is not what `earlyMem` has there. -/
theorem entry_bootMem_page (t : EarlyTables) {p i : ℕ} (hp : p < 133) (hi : i < 512) :
    entry (bootMem t) (physToVirt (earlyAddrs.page p)) i =
      if p = 1 then if i = 0 then ptePageSize ||| ptePresent ||| pteWriteable else 0
      else entry (earlyMem t) (physToVirt (earlyAddrs.page p)) i := by
  rw [earlyAddrs_page hp, entry_bootMem t (by omega) hi]
  by_cases hone : p = 1
  · rw [if_pos (by omega), if_pos hone]
  · rw [if_neg (by omega), if_neg hone]

theorem bootMem_inMemory (t : EarlyTables) : t.InMemory earlyAddrs (bootMem t) where
  pml4 i hi := by
    have hentry := entry_bootMem_page t (p := 0) (by decide) hi
    rw [if_neg (by decide)] at hentry
    exact hentry.trans ((earlyMem_inMemory t).pml4 i hi)
  pdpts n hn i hi := by
    have hentry := entry_bootMem_page t (p := n + 2) (by omega) hi
    rw [if_neg (by omega), EarlyAddrs.page, if_neg (by omega), if_neg (by omega), if_pos (by omega),
      Nat.add_sub_cancel] at hentry
    exact hentry.trans ((earlyMem_inMemory t).pdpts n hn i hi)
  pdpt i hi := by
    have hentry := entry_bootMem_page t (p := 130) (by decide) hi
    rw [if_neg (by decide)] at hentry
    exact hentry.trans ((earlyMem_inMemory t).pdpt i hi)
  pgdirs g hg i hi := by
    have hentry := entry_bootMem_page t (p := g + 131) (by omega) hi
    rw [if_neg (by omega), EarlyAddrs.page, if_neg (by omega), if_neg (by omega), if_neg (by omega),
      if_neg (by omega), Nat.add_sub_cancel] at hentry
    exact hentry.trans ((earlyMem_inMemory t).pgdirs g hg i hi)

theorem onePageMem_boot : BootMemory earlyAddrs onePageImage onePageMem where
  tables := bootMem_inMemory _
  earlyPdpt i hi := by
    have hentry := entry_bootMem_page (earlySetupPaging earlyAddrs onePageImage.start
      (onePageImage.start + onePageImage.size) (bootTables earlyAddrs)) (p := 1) (by decide) hi
    rw [if_pos rfl] at hentry
    exact hentry

theorem manyFrames_freeOfTables {n : ℕ} (hn : n ≤ 2 ^ 32) : FreeOfTables earlyAddrs (manyFrames n) where
  fresh := manyFrames_fresh hn
  tables i hi hmem := by
    obtain ⟨j, -, heq⟩ := List.mem_map.mp hmem
    have heq := Option.some.inj heq
    rw [earlyAddrs_page hi] at heq
    unfold physToVirt directMapStart gb pageSize at heq
    omega

theorem unmap_early_exact_onePage :
    (∀ v < gb, walk onePageMem (physToVirt earlyAddrs.earlyPml4) v = some ⟨v, 2, kernelRights⟩) ∧
      (∀ v < 2 ^ 47, walk (unmapEarly earlyAddrs.earlyPml4 onePageMem) (physToVirt earlyAddrs.earlyPml4) v = none) ∧
      ∀ v, Canonical v → gb ≤ v → walk (unmapEarly earlyAddrs.earlyPml4 onePageMem) (physToVirt earlyAddrs.earlyPml4) v =
        walk onePageMem (physToVirt earlyAddrs.earlyPml4) v :=
  unmap_early_exact onePageMem_boot earlyAddrs_placed (by decide) (by decide)

/-- A kernel in this memory. -/
def onePageKernel (frames : List (Option ℕ)) : Kernel :=
  { kernelWith frames with mem := unmapEarly earlyAddrs.earlyPml4 onePageMem }

/-- The copy succeeds, and the kernel is where the boot tables have it. -/
theorem sched_vmem_boot_mapping_onePage :
    ∃ frames vm k', vmemInitFromCurrent earlyAddrs.earlyPml4 (onePageKernel frames) = .ok (0, vm, k') ∧ vm.areas = [] ∧
      ∀ v, walk k'.mem vm.pml4 v = walk (onePageKernel frames).mem (physToVirt earlyAddrs.earlyPml4) v ∧
        walk k'.mem (physToVirt earlyAddrs.earlyPml4) v = walk (onePageKernel frames).mem (physToVirt earlyAddrs.earlyPml4) v ∧
        (v < 2 ^ 47 → walk k'.mem vm.pml4 v = none) := by
  have hfree := manyFrames_freeOfTables (n := 2 ^ 30) (by decide)
  have hplenty : PageTable.Plenty (0 + 4 * (512 ^ 3 + 0) + 1) (manyFrames (2 ^ 30)) := (manyFrames_plenty (2 ^ 30)).mono (by decide)
  generalize manyFrames (2 ^ 30) = frames at hfree hplenty
  have hinv := onePageMem_boot.spaceInv earlyAddrs_placed (by decide) (by decide) (k := onePageKernel frames) rfl hfree
  -- all pages are large
  have hlarge : ∀ q, ((earlyTree earlyAddrs onePageImage false).leaf q).isSome → q.length = 4 → q ∈ (∅ : Finset Path) := by
    intro q hq hlen
    obtain ⟨l, hl⟩ := Option.isSome_iff_exists.mp hq
    cases earlyLeaf_of_some hl <;> cases hlen
  have hcost := PageCost.ofSmall hinv.valid.wf hlarge
  obtain ⟨vm, k', hcall, -⟩ := vmemClone_plenty hinv hcost (n := 0) (show [true] = _ ++ [] from rfl) hplenty
  rw [← vmemInitFromCurrent_eq] at hcall
  obtain ⟨res, vm', k'', hcall', hareas, hwalks⟩ := sched_vmem_boot_mapping onePageMem_boot earlyAddrs_placed (by decide)
    (by decide) (k := onePageKernel frames) rfl hfree
  obtain ⟨rfl, hrest⟩ := Prod.mk.inj (Except.ok.inj (hcall.symm.trans hcall'))
  obtain ⟨rfl, rfl⟩ := Prod.mk.inj hrest
  exact ⟨frames, vm, k', hcall, hareas, hwalks rfl⟩

end HeavenOS
