/-
# Freeing an area

`vmem_free_pages` takes an area off the list and unmaps its pages one by one. Whether
the frame of a page is given back is decided by `pte & VMEM_ALLOC`, a flag of the other
encoding: in an entry that bit is `PTE_USER`. The frames given back are therefore those of
the pages that user mode may access.
-/

import Mathlib.Data.List.Pairwise
import HeavenOS.Mm.VmemClone

namespace HeavenOS

open Lib PageTable

/-! ## One page -/

namespace PageTable

/-- The tree without the page at `c`. -/
def dropLeaf (pt : PageTable) (c : Path) : PageTable :=
  { pt with leaf := Function.update pt.leaf c none }

variable {pt : PageTable} {pml4 : ℕ} {claimed : Set Path} {k : Kernel}

@[simp]
theorem dropLeaf_table (c : Path) : (pt.dropLeaf c).table = pt.table := rfl

@[simp]
theorem dropLeaf_leaf (c : Path) : (pt.dropLeaf c).leaf = Function.update pt.leaf c none := rfl

theorem dropLeaf_cases {c q : Path} {l : Leaf} (h : (pt.dropLeaf c).leaf q = some l) :
    q ≠ c ∧ pt.leaf q = some l := by
  by_cases hq : q = c
  · rw [hq, dropLeaf_leaf, Function.update_self] at h
    cases h
  · rw [dropLeaf_leaf, Function.update_of_ne hq] at h
    exact ⟨hq, h⟩

theorem WellFormed.dropLeaf (h : pt.WellFormed pml4 claimed) (c : Path) :
    (pt.dropLeaf c).WellFormed pml4 claimed := by
  have hsome {q : Path} (hq : ((pt.dropLeaf c).leaf q).isSome) : (pt.leaf q).isSome := by
    obtain ⟨l, hl⟩ := Option.isSome_iff_exists.mp hq
    rw [(dropLeaf_cases hl).2]
    rfl
  exact
    { root := h.root
      isFrame := h.isFrame
      inj := h.inj
      table_suffix := h.table_suffix
      table_claimed := h.table_claimed
      leaf_claimed := fun hq => h.leaf_claimed (hsome hq)
      leaf_parent := fun hq => h.leaf_parent (hsome hq)
      leaf_frame := fun hl => h.leaf_frame (dropLeaf_cases hl).2
      rights := fun hp hne hl => h.rights hp hne (dropLeaf_cases hl).2
      claimed_length := h.claimed_length
      claimed_lt := h.claimed_lt
      antichain := h.antichain }

/-- Clearing the entry of a page takes the page out of the tree. -/
theorem Represents.clear {m : Mem} {q : Path} {t i : ℕ} {r : Rights} (h : pt.WellFormed pml4 claimed)
    (hrep : pt.Represents m) (ht : pt.table q = some (t, r)) (hi : i < 512)
    (hnone : pt.table (i :: q) = none) :
    (pt.dropLeaf (i :: q)).Represents (m.storeWord (t + 8 * i) 0) := by
  have hword : (pt.dropLeaf (i :: q)).word (i :: q) = 0 :=
    WellFormed.word_of_none hnone (Function.update_self _ _ _)
  rw [← hword]
  refine Represents.storeEntry (h.dropLeaf _) ht hi fun p t' r' hp j hj hne => ?_
  rw [hrep p t' r' hp j hj]
  simp only [word, PageTable.dropLeaf, Function.update_of_ne hne]

end PageTable

/-- The frame that unmapping a page gives back. -/
def givesBack (pt : PageTable) (c : Path) : List ℕ :=
  match pt.leaf c with
  | some l => if l.rights.user then [physToVirt l.frame] else []
  | none => []

/-- Neither a page of 4 KiB nor a frame given back is a table. -/
structure TablesApart (pt : PageTable) (k : Kernel) : Prop where
  page : ∀ {q l p t r}, pt.leaf q = some l → q.length = 4 → pt.table p = some (t, r) →
    physToVirt l.frame ≠ t
  freed : ∀ g ∈ k.freed, pageSize ∣ g ∧ ∀ p t r, pt.table p = some (t, r) → g ≠ t

section Unmap

variable {vm : Vmem} {pt : PageTable} {claimed : Set Path} {k : Kernel} {addr : ℕ}
  (h : pt.Valid vm.pml4 claimed k) (hlarge : ∀ n < 4, pt.leaf (pathTo addr n) = none)

include h hlarge

/-- The next table on the way to a page of 4 KiB, as `vmem_unmap_page` reads its entry. -/
theorem unmap_entry {n t : ℕ} {r : Rights} (hn : n < 3) (ht : pt.table (pathTo addr n) = some (t, r)) :
    (pt.table (pathTo addr (n + 1)) = none ∧
      entry k.mem t (tableIndex (3 - n) addr) &&& ptePresent = 0) ∨
    ∃ t' r', pt.table (pathTo addr (n + 1)) = some (t', r') ∧
      entry k.mem t (tableIndex (3 - n) addr) &&& ptePresent ≠ 0 ∧
      physToVirt (pteAddr (entry k.mem t (tableIndex (3 - n) addr))) = t' := by
  have hentry : entry k.mem t (tableIndex (3 - n) addr) = pt.word (pathTo addr (n + 1)) :=
    h.rep _ t r ht _ (tableIndex_lt _ _)
  rw [hentry]
  cases hnext : pt.table (pathTo addr (n + 1)) with
  | none => exact Or.inl ⟨rfl, by rw [WellFormed.word_of_none hnext (hlarge _ (by omega))]; rfl⟩
  | some next =>
      obtain ⟨t', r'⟩ := next
      obtain ⟨hpresent, -, haddr, -, -⟩ := table_word_reads h.wf hnext
      exact Or.inr ⟨t', r', rfl, hpresent, haddr⟩

/-- What `vmem_unmap_page` does: nothing without a page table, else it clears the entry. -/
theorem vmemUnmapPage_eq :
    (pt.table (pathTo addr 3) = none ∧ vmemUnmapPage vm addr k = k) ∨
    ∃ t r, pt.table (pathTo addr 3) = some (t, r) ∧
      vmemUnmapPage vm addr k = setEntry
        (if pt.word (pathTo addr 4) &&& vmemAlloc ≠ 0 then
          frameFree k (physToVirt (pteAddr (pt.word (pathTo addr 4)))) else k) t (tableIndex 0 addr) 0 := by
  have hmiss {n : ℕ} (hn : n ≤ 3) (hnone : pt.table (pathTo addr n) = none) :
      pt.table (pathTo addr 3) = none := by
    by_contra hne
    have := h.wf.table_suffix (p := pathTo addr n) (Option.isSome_iff_ne_none.mpr hne)
      (suffix_pathTo_iff.mpr ⟨n, hn, rfl⟩)
    rw [hnone] at this
    cases this
  obtain ⟨r0, hroot⟩ := h.wf.root
  unfold vmemUnmapPage
  rcases unmap_entry h hlarge (n := 0) (by decide) hroot with ⟨hnone, hbit⟩ | ⟨t1, r1, ht1, hbit1, haddr1⟩
  · exact Or.inl ⟨hmiss (by decide) hnone, by simp only [hbit, if_true]⟩
  simp only [hbit1, if_false, haddr1]
  rcases unmap_entry h hlarge (n := 1) (by decide) ht1 with ⟨hnone, hbit⟩ | ⟨t2, r2, ht2, hbit2, haddr2⟩
  · exact Or.inl ⟨hmiss (by decide) hnone, by simp only [hbit, if_true]⟩
  simp only [hbit2, if_false, haddr2]
  rcases unmap_entry h hlarge (n := 2) (by decide) ht2 with ⟨hnone, hbit⟩ | ⟨t3, r3, ht3, hbit3, haddr3⟩
  · exact Or.inl ⟨hmiss (by decide) hnone, by simp only [hbit, if_true]⟩
  simp only [hbit3, if_false, haddr3]
  have hentry : entry k.mem t3 (tableIndex 0 addr) = pt.word (pathTo addr 4) :=
    h.rep _ t3 r3 ht3 _ (tableIndex_lt _ _)
  rw [hentry]
  exact Or.inr ⟨t3, r3, ht3, rfl⟩

/-- Unmapping a page takes it out of the tree and gives its frame back if user mode may
access it. -/
theorem vmemUnmapPage_spec (hapart : TablesApart pt k) :
    (pt.dropLeaf (pathTo addr 4)).Valid vm.pml4 claimed (vmemUnmapPage vm addr k) ∧
      TablesApart (pt.dropLeaf (pathTo addr 4)) (vmemUnmapPage vm addr k) ∧
      (vmemUnmapPage vm addr k).trace = k.trace ++ (givesBack pt (pathTo addr 4)).map .free ∧
      (vmemUnmapPage vm addr k).freed = givesBack pt (pathTo addr 4) ++ k.freed ∧
      (vmemUnmapPage vm addr k).frames = k.frames := by
  have hnotable : pt.table (pathTo addr 4) = none := by
    by_contra hne
    have := h.wf.table_length (Option.isSome_iff_ne_none.mpr hne)
    simp at this
  have hdrop {k' : Kernel} (hfreed : k'.freed = k.freed) : TablesApart (pt.dropLeaf (pathTo addr 4)) k' :=
    ⟨fun hl => hapart.page (dropLeaf_cases hl).2, fun g hg => hapart.freed g (hfreed ▸ hg)⟩
  rcases vmemUnmapPage_eq h hlarge with ⟨hnone, heq⟩ | ⟨t, r, ht, heq⟩
  · -- no page table, so no page either
    have hleaf : pt.leaf (pathTo addr 4) = none := by
      by_contra hne
      have := h.wf.leaf_parent (i := tableIndex 0 addr) (q := pathTo addr 3) (Option.isSome_iff_ne_none.mpr hne)
      rw [hnone] at this
      cases this
    have hgive : givesBack pt (pathTo addr 4) = [] := by rw [givesBack, hleaf]
    have hsame : pt.dropLeaf (pathTo addr 4) = pt := by
      rw [PageTable.dropLeaf, ← hleaf, Function.update_eq_self]
    rw [heq, hgive, hsame]
    exact ⟨h, hapart, by simp, rfl, rfl⟩
  · have hclear {k1 : Kernel} (hrep : pt.Represents k1.mem) (hframes : k1.frames = k.frames) :
        (pt.dropLeaf (pathTo addr 4)).Valid vm.pml4 claimed (setEntry k1 t (tableIndex 0 addr) 0) :=
      ⟨h.wf.dropLeaf _, Represents.clear h.wf hrep ht (tableIndex_lt _ _) hnotable,
        show PageTable.Fresh _ k1.frames from hframes ▸ h.fresh⟩
    rw [heq]
    cases hleaf : pt.leaf (pathTo addr 4) with
    | none =>
        have hgive : givesBack pt (pathTo addr 4) = [] := by rw [givesBack, hleaf]
        rw [hgive, WellFormed.word_of_none hnotable hleaf, if_neg (by simp)]
        exact ⟨hclear h.rep rfl, hdrop rfl, by simp [setEntry], rfl, rfl⟩
    | some l =>
        obtain ⟨-, -, haddr, huser, -, -⟩ := leaf_word_reads h.wf hleaf
        have hbit : pt.word (pathTo addr 4) &&& vmemAlloc ≠ 0 ↔ l.rights.user = true := by
          rw [← huser]
          exact decide_eq_true_iff.symm
        rw [haddr]
        cases hcase : l.rights.user with
        | false =>
            have hgive : givesBack pt (pathTo addr 4) = [] := by
              rw [givesBack, hleaf]
              simp [hcase]
            rw [hgive, if_neg (by rw [hbit, hcase]; simp)]
            exact ⟨hclear h.rep rfl, hdrop rfl, by simp [setEntry], rfl, rfl⟩
        | true =>
            have hgive : givesBack pt (pathTo addr 4) = [physToVirt l.frame] := by
              rw [givesBack, hleaf]
              simp [hcase]
            have hpage := dvd_physToVirt (h.wf.leaf_dvd hleaf)
            have hnt {p : Path} {t' : ℕ} {r' : Rights} (hp : pt.table p = some (t', r')) :
                physToVirt l.frame ≠ t' := hapart.page hleaf (pathTo_length _ _) hp
            have hfreed : ∀ g ∈ (frameFree k (physToVirt l.frame)).freed,
                pageSize ∣ g ∧ ∀ p t' r', pt.table p = some (t', r') → g ≠ t' := by
              intro g hg
              rcases List.mem_cons.mp hg with rfl | hg
              · exact ⟨hpage, fun p t' r' hp => hnt hp⟩
              · exact hapart.freed g hg
            have hrep : pt.Represents (frameFree k (physToVirt l.frame)).mem := by
              refine h.rep.congr fun p t' r' hp a ha => if_neg ?_
              rintro ⟨g, hg, hlo, hhi⟩
              obtain ⟨hdvd, hne⟩ := hfreed g hg
              exact hne p t' r' hp (inFrame_unique hdvd (h.wf.isFrame hp).1 ⟨hlo, hhi⟩ ha)
            rw [hgive, if_pos (by rw [hbit, hcase])]
            exact ⟨hclear hrep rfl, ⟨fun hl => hapart.page (dropLeaf_cases hl).2, hfreed⟩, rfl, rfl, rfl⟩

end Unmap

/-! ## All pages of a range -/

/-- The frames that unmapping pages from `addr` on gives back. -/
def freesIn (pt : PageTable) : (count addr : ℕ) → List ℕ
  | 0, _ => []
  | count + 1, addr => givesBack pt (pathTo addr 4) ++ freesIn pt count (addr + pageSize)

/-- The places of the pages from `addr` on. -/
def pagePaths (count addr : ℕ) : Set Path := {c | ∃ i < count, c = pathTo (addr + i * pageSize) 4}

theorem mem_pagePaths_succ {count addr : ℕ} {q : Path} :
    q ∈ pagePaths (count + 1) addr ↔ q = pathTo addr 4 ∨ q ∈ pagePaths count (addr + pageSize) := by
  constructor
  · rintro ⟨i, hi, rfl⟩
    cases i with
    | zero => exact Or.inl (by rw [Nat.zero_mul, Nat.add_zero])
    | succ i => exact Or.inr ⟨i, by omega, by rw [Nat.succ_mul, Nat.add_assoc, Nat.add_comm pageSize]⟩
  · rintro (rfl | ⟨i, hi, rfl⟩)
    · exact ⟨0, by omega, by rw [Nat.zero_mul, Nat.add_zero]⟩
    · exact ⟨i + 1, by omega, by rw [Nat.succ_mul, Nat.add_assoc, Nat.add_comm pageSize]⟩

theorem freesIn_congr {pt pt' : PageTable} {count addr : ℕ}
    (hleaf : ∀ q ∈ pagePaths count addr, pt'.leaf q = pt.leaf q) :
    freesIn pt' count addr = freesIn pt count addr := by
  induction count generalizing addr with
  | zero => rfl
  | succ count ih =>
      rw [freesIn, freesIn, ih fun q hq => hleaf q (mem_pagePaths_succ.mpr (Or.inr hq)), givesBack,
        givesBack, hleaf _ (mem_pagePaths_succ.mpr (Or.inl rfl))]

/-- The pages of a range have different places. -/
def Apart4k (count addr : ℕ) : Prop :=
  ∀ i < count, ∀ j < count, pathTo (addr + i * pageSize) 4 = pathTo (addr + j * pageSize) 4 → i = j

/-- Unmapping a range takes its pages out of the tree and no other. -/
theorem unmapPages_spec {vm : Vmem} {pt : PageTable} {claimed : Set Path} {k : Kernel} {count addr : ℕ}
    (h : pt.Valid vm.pml4 claimed k) (hapart : TablesApart pt k)
    (hlarge : ∀ i < count, ∀ n < 4, pt.leaf (pathTo (addr + i * pageSize) n) = none)
    (hdistinct : Apart4k count addr) :
    ∃ pt' : PageTable, pt'.Valid vm.pml4 claimed (unmapPages vm count addr k) ∧
      TablesApart pt' (unmapPages vm count addr k) ∧ pt'.table = pt.table ∧
      (∀ q ∈ pagePaths count addr, pt'.leaf q = none) ∧
      (∀ q, q ∉ pagePaths count addr → pt'.leaf q = pt.leaf q) ∧
      (unmapPages vm count addr k).trace = k.trace ++ (freesIn pt count addr).map .free ∧
      (∀ g ∈ (unmapPages vm count addr k).freed, g ∈ freesIn pt count addr ∨ g ∈ k.freed) ∧
      (unmapPages vm count addr k).frames = k.frames := by
  induction count generalizing pt k addr with
  | zero =>
      refine ⟨pt, h, hapart, rfl, ?_, fun _ _ => rfl, by simp [unmapPages, freesIn], fun g hg => Or.inr hg, rfl⟩
      rintro q ⟨i, hi, -⟩
      omega
  | succ count ih =>
      have hfirst : ∀ n < 4, pt.leaf (pathTo addr n) = none := by
        have := hlarge 0 (by omega)
        rwa [Nat.zero_mul, Nat.add_zero] at this
      obtain ⟨hvalid, hapart', htrace, hfreed, hframes⟩ := vmemUnmapPage_spec h hfirst hapart
      have hshift (i : ℕ) : addr + pageSize + i * pageSize = addr + (i + 1) * pageSize := by
        rw [Nat.succ_mul, Nat.add_assoc, Nat.add_comm pageSize]
      -- the page just unmapped is none of those still to come
      have hnew : pathTo addr 4 ∉ pagePaths count (addr + pageSize) := by
        rintro ⟨i, hi, heq⟩
        rw [hshift] at heq
        have := hdistinct 0 (by omega) (i + 1) (by omega) (by rwa [Nat.zero_mul, Nat.add_zero])
        omega
      have hlarge' : ∀ i < count, ∀ n < 4,
          (pt.dropLeaf (pathTo addr 4)).leaf (pathTo (addr + pageSize + i * pageSize) n) = none := by
        intro i hi n hn
        have hne : pathTo (addr + pageSize + i * pageSize) n ≠ pathTo addr 4 := fun heq => by
          have := congrArg List.length heq
          rw [pathTo_length, pathTo_length] at this
          omega
        rw [dropLeaf_leaf, Function.update_of_ne hne, hshift]
        exact hlarge (i + 1) (by omega) n hn
      have hdistinct' : Apart4k count (addr + pageSize) := by
        intro i hi j hj heq
        rw [hshift, hshift] at heq
        have := hdistinct (i + 1) (by omega) (j + 1) (by omega) heq
        omega
      obtain ⟨pt', hvalid', hapart'', htable, hin, hout, htrace', hfreed', hframes'⟩ :=
        ih hvalid hapart' hlarge' hdistinct'
      have hfrees : freesIn (pt.dropLeaf (pathTo addr 4)) count (addr + pageSize) =
          freesIn pt count (addr + pageSize) := by
        refine freesIn_congr fun q hq => ?_
        have hne : q ≠ pathTo addr 4 := fun heq => hnew (heq ▸ hq)
        rw [dropLeaf_leaf, Function.update_of_ne hne]
      rw [hfrees] at htrace' hfreed'
      refine ⟨pt', hvalid', hapart'', htable, fun q hq => ?_, fun q hq => ?_, ?_, fun g hg => ?_, ?_⟩
      · by_cases hmem : q ∈ pagePaths count (addr + pageSize)
        · exact hin q hmem
        · rw [hout q hmem, (mem_pagePaths_succ.mp hq).resolve_right hmem, dropLeaf_leaf, Function.update_self]
      · have hq' := mt mem_pagePaths_succ.mpr hq
        rw [hout q fun hmem => hq' (Or.inr hmem), dropLeaf_leaf,
          Function.update_of_ne fun heq => hq' (Or.inl heq)]
      · rw [unmapPages, htrace', htrace, freesIn, List.map_append, List.append_assoc]
      · rw [freesIn, List.mem_append, or_assoc]
        rcases hfreed' g hg with hg | hg
        · exact Or.inr (Or.inl hg)
        · rw [hfreed] at hg
          rcases List.mem_append.mp hg with hg | hg
          · exact Or.inl hg
          · exact Or.inr (Or.inr hg)
      · rw [unmapPages, hframes', hframes]

/-! ## The area -/

namespace VmemArea

/-- At least one page, aligned, in one half of the canonical addresses. -/
structure Legal (area : VmemArea) : Prop where
  dvd : pageSize ∣ area.start
  pages : 1 ≤ area.size
  canonical : area.stop ≤ 2 ^ 47 ∨ 2 ^ 64 - 2 ^ 47 ≤ area.start ∧ area.stop < 2 ^ 64

variable {area : VmemArea} (h : area.Legal)

include h

theorem Legal.stop_lt : area.stop < 2 ^ 64 := by
  have := h.canonical
  omega

theorem Legal.canonical_of_covers {addr : ℕ} (hcov : area.Covers addr) : Canonical addr := by
  have hcan := h.canonical
  obtain ⟨hlo, hhi⟩ := hcov
  unfold Canonical
  omega

omit h in
theorem covers_page {i : ℕ} (hi : i < area.size) : area.Covers (area.start + i * pageSize) := by
  refine ⟨Nat.le_add_right _ _, ?_⟩
  unfold stop
  exact Nat.add_lt_add_left (Nat.mul_lt_mul_of_pos_right hi (by decide)) _

/-- The pages of an area have different places. -/
theorem Legal.apart4k : Apart4k area.size area.start := by
  intro i hi j hj heq
  have hdiv := div_eq_of_pathTo_eq (by decide) (h.canonical_of_covers (covers_page hi))
    (h.canonical_of_covers (covers_page hj)) heq
  have hdvd := h.dvd
  unfold pageSize at hdiv hdvd
  norm_num at hdiv
  omega

/-- A canonical address is in an area exactly when its page is. -/
theorem Legal.covers_iff {addr : ℕ} (haddr : Canonical addr) :
    area.Covers addr ↔ pathTo addr 4 ∈ pagePaths area.size area.start := by
  have hdvd := h.dvd
  constructor
  · rintro ⟨hlo, hhi⟩
    unfold stop at hhi
    refine ⟨(addr - area.start) / pageSize, ?_, pathTo_eq_of_div_eq (by decide) ?_⟩
    · unfold pageSize at *
      omega
    · unfold pageSize at *
      norm_num
      omega
  · rintro ⟨i, hi, heq⟩
    have hpage := covers_page hi
    have hdiv := div_eq_of_pathTo_eq (by decide) haddr (h.canonical_of_covers hpage) heq
    obtain ⟨hlo, hhi⟩ := hpage
    unfold Covers stop at *
    unfold pageSize at *
    norm_num at hdiv
    omega

end VmemArea

/-- The areas of an address space, no two of which begin at the same address. -/
structure AreasLegal (areas : List VmemArea) : Prop where
  legal : ∀ area ∈ areas, area.Legal
  starts : areas.Pairwise fun area other => area.start ≠ other.start

theorem eraseP_eq_erase {α : Type} [DecidableEq α] {p : α → Bool} {a : α} {l : List α}
    (hp : ∀ x ∈ l, p x = true ↔ x = a) : l.eraseP p = l.erase a := by
  induction l with
  | nil => rfl
  | cons x l ih =>
      have hx := hp x List.mem_cons_self
      have hrest := ih fun y hy => hp y (List.mem_cons_of_mem _ hy)
      by_cases hxa : x = a
      · rw [List.eraseP_cons_of_pos (hx.mpr hxa), hxa, List.erase_cons_head]
      · rw [List.eraseP_cons_of_neg fun htrue => hxa (hx.mp htrue), List.erase_cons_tail (by simpa using hxa),
          hrest]

/-- On an area of the list, `vmem_free_pages` finds that area and unmaps its pages. -/
theorem vmemFreePages_eq {vm : Vmem} {area : VmemArea} {k : Kernel} (hareas : AreasLegal vm.areas)
    (harea : area ∈ vm.areas) :
    vmemFreePages vm area.start area.size k =
      .ok (⟨vm.areas.erase area, vm.pml4⟩,
        unmapPages ⟨vm.areas.erase area, vm.pml4⟩ area.size area.start k) := by
  have hlegal := hareas.legal area harea
  have hstop := hlegal.stop_lt
  have hstart : area.start < 2 ^ 64 := lt_of_le_of_lt (Nat.le_add_right _ _) hstop
  have hmask : maskDown area.start pageSize = area.start :=
    (maskDown_two_pow_eq_self_iff (k := 12) hstart).mpr hlegal.dvd
  have hend : (area.start + pageSize * area.size) % 2 ^ 64 = area.stop := by
    rw [Nat.mul_comm]
    exact Nat.mod_eq_of_lt hstop
  have hmine : ∀ other ∈ vm.areas,
      decide (area.start = other.start ∧ (other.start + other.size * pageSize) % 2 ^ 64 = area.stop) = true ↔
        other = area := by
    intro other hother
    rw [decide_eq_true_iff]
    constructor
    · rintro ⟨heq, -⟩
      by_contra hne
      have hsymm : Std.Symm fun area other : VmemArea => area.start ≠ other.start := ⟨fun _ _ hx => hx.symm⟩
      exact hareas.starts.forall harea hother (Ne.symm hne) heq
    · rintro rfl
      exact ⟨rfl, Nat.mod_eq_of_lt hstop⟩
  have hcount : (area.stop - area.start + pageSize - 1) / pageSize = area.size := by
    unfold VmemArea.stop pageSize
    omega
  unfold vmemFreePages
  rw [kassert_of_true hmask, ok_bind]
  simp only [hend, hcount, eraseP_eq_erase hmine]
  rw [if_neg]
  · rfl
  · rw [not_not, List.any_eq_true]
    exact ⟨area, harea, (hmine area harea).mpr rfl⟩

/-! ## What freeing an area is to do -/

/-- The area, and no other, is off the list; its pages, and no others, are unmapped; and
the frames given back, each once, are those of its pages that are marked as allocated. -/
structure Undone (vm : Vmem) (k : Kernel) (area : VmemArea) (vm' : Vmem) (k' : Kernel) : Prop where
  areas : vm'.areas = vm.areas.erase area
  unmapped : ∀ addr, area.Covers addr → walk k'.mem vm'.pml4 addr = none
  kept : ∀ addr, Canonical addr → ¬area.Covers addr →
    walk k'.mem vm'.pml4 addr = walk k.mem vm.pml4 addr
  freed : ∃ frees : List ℕ, k'.trace = k.trace ++ frees.map .free ∧ frees.Nodup ∧
    ∀ f, f ∈ frees ↔ ∃ addr tr, pageSize ∣ addr ∧ area.Covers addr ∧
      walk k.mem vm.pml4 addr = some tr ∧ tr.rights.alloc = true ∧ physToVirt tr.phys = f

/-- The pages mapped in the area have 4 KiB. -/
def SmallIn (vm : Vmem) (k : Kernel) (area : VmemArea) : Prop :=
  ∀ addr tr, area.Covers addr → walk k.mem vm.pml4 addr = some tr → tr.level = 0

/-- User mode may access the pages of the area that are marked as allocated, and no others
of its pages. -/
def UserIffAlloc (vm : Vmem) (k : Kernel) (area : VmemArea) : Prop :=
  ∀ addr tr, area.Covers addr → walk k.mem vm.pml4 addr = some tr → tr.rights.user = tr.rights.alloc

theorem mem_freesIn {pt : PageTable} {count addr f : ℕ} :
    f ∈ freesIn pt count addr ↔
      ∃ q ∈ pagePaths count addr, ∃ l, pt.leaf q = some l ∧ l.rights.user = true ∧ physToVirt l.frame = f := by
  have hgive {q : Path} : f ∈ givesBack pt q ↔
      ∃ l, pt.leaf q = some l ∧ l.rights.user = true ∧ physToVirt l.frame = f := by
    unfold givesBack
    cases hleaf : pt.leaf q with
    | none => simp
    | some l =>
        simp only [Option.some.injEq, exists_eq_left']
        split_ifs with huser
        · simp only [List.mem_singleton, huser, true_and]
          exact eq_comm
        · exact ⟨fun hf => (List.not_mem_nil hf).elim, fun hf => absurd hf.1 huser⟩
  induction count generalizing addr with
  | zero =>
      refine ⟨fun hf => (List.not_mem_nil hf).elim, ?_⟩
      rintro ⟨q, ⟨i, hi, -⟩, -⟩
      omega
  | succ count ih =>
      rw [freesIn, List.mem_append, hgive]
      constructor
      · rintro (hf | hf)
        · exact ⟨_, mem_pagePaths_succ.mpr (Or.inl rfl), hf⟩
        · obtain ⟨q, hq, hf⟩ := ih.mp hf
          exact ⟨q, mem_pagePaths_succ.mpr (Or.inr hq), hf⟩
      · rintro ⟨q, hq, hf⟩
        rcases mem_pagePaths_succ.mp hq with rfl | hq
        · exact Or.inl hf
        · exact Or.inr (ih.mpr ⟨q, hq, hf⟩)

/-- Different pages give back different frames as long as they own them. -/
theorem nodup_freesIn {pt : PageTable} {count addr : ℕ} (hdistinct : Apart4k count addr)
    (hinj : ∀ q ∈ pagePaths count addr, ∀ q' ∈ pagePaths count addr, ∀ l l', pt.leaf q = some l →
      pt.leaf q' = some l' → l.rights.user = true → l'.rights.user = true →
      physToVirt l.frame = physToVirt l'.frame → q = q') :
    (freesIn pt count addr).Nodup := by
  induction count generalizing addr with
  | zero => exact List.nodup_nil
  | succ count ih =>
      have hshift (i : ℕ) : addr + pageSize + i * pageSize = addr + (i + 1) * pageSize := by
        rw [Nat.succ_mul, Nat.add_assoc, Nat.add_comm pageSize]
      have hrest : Apart4k count (addr + pageSize) := by
        intro i hi j hj heq
        rw [hshift, hshift] at heq
        have := hdistinct (i + 1) (by omega) (j + 1) (by omega) heq
        omega
      have hmore {q : Path} (hq : q ∈ pagePaths count (addr + pageSize)) : q ∈ pagePaths (count + 1) addr :=
        mem_pagePaths_succ.mpr (Or.inr hq)
      rw [freesIn, List.nodup_append]
      refine ⟨?_, ih hrest fun q hq q' hq' => hinj q (hmore hq) q' (hmore hq'), fun f hf g hg heq => ?_⟩
      · unfold givesBack
        cases pt.leaf (pathTo addr 4) with
        | none => exact List.nodup_nil
        | some l => by_cases huser : l.rights.user = true <;> simp [huser]
      · have hfirst : f ∈ freesIn pt 1 addr := by rw [freesIn, List.mem_append]; exact Or.inl hf
        obtain ⟨q, hq, l, hl, huser, hfl⟩ := mem_freesIn.mp hfirst
        obtain ⟨q', ⟨i, hi, rfl⟩, l', hl', huser', hgl⟩ := mem_freesIn.mp hg
        obtain ⟨j, hj, rfl⟩ := hq
        obtain rfl : j = 0 := by omega
        have hsame := hinj _ ⟨0, by omega, rfl⟩ _ (hmore ⟨i, hi, rfl⟩) l l' hl hl' huser huser'
          (by rw [hfl, hgl, heq])
        rw [hshift] at hsame
        have := hdistinct 0 (by omega) (i + 1) (by omega) hsame
        omega

theorem Owned.tablesApart {s : Space} {pt : PageTable} {claimed : Set Path} (h : Owned s pt)
    (hinv : SpaceInv s pt claimed) (hfreed : ∀ g ∈ s.k.freed, pageSize ∣ g) : TablesApart pt s.k := by
  have htable {p : Path} {t : ℕ} {r : Rights} (hp : pt.table p = some (t, r)) : t ∈ s.allocated :=
    (h.ledger.mem_iff t).mpr ⟨p, held_of_table hp⟩
  refine ⟨fun {q l p t r} hl hq hp heq => ?_, fun g hg => ⟨hfreed g hg, fun p t r hp heq => ?_⟩⟩
  · cases halloc : l.rights.alloc with
    | false => exact h.foreign hl hq halloc (heq ▸ htable hp)
    | true =>
        have hnone := hinv.valid.wf.table_of_leaf hl
        have hheld : pt.held q = some t := by
          rw [held_of_leaf hnone hl, if_pos ⟨halloc, hq⟩, heq]
        obtain rfl := h.ledger.inj hheld (held_of_table hp)
        rw [hnone] at hp
        cases hp
  · exact h.freed g hg (heq ▸ htable hp)

section Free

variable {s : Space} {pt : PageTable} {claimed : Set Path} {area : VmemArea} (hinv : SpaceInv s pt claimed)
  (hlegal : area.Legal) (hsmall : SmallIn s.vm s.k area)

include hinv hlegal hsmall

omit hlegal in
theorem no_large_in {i : ℕ} (hi : i < area.size) :
    ∀ n < 4, pt.leaf (pathTo (area.start + i * pageSize) n) = none := by
  intro n hn
  by_contra hne
  obtain ⟨l, hl⟩ := Option.ne_none_iff_exists'.mp hne
  have hlen := hinv.valid.wf.claimed_length (hinv.valid.wf.leaf_claimed (q := pathTo _ n) (by rw [hl]; rfl))
  rw [pathTo_length] at hlen
  have hlevel := hsmall _ _ (VmemArea.covers_page hi) (walk_of_leaf hinv.valid.wf hinv.valid.rep hl)
  simp only at hlevel
  omega

/-- The pages that the walk finds in an area are those of the tree. -/
theorem exists_page_iff {P : Rights → ℕ → Prop} :
    (∃ addr tr, pageSize ∣ addr ∧ area.Covers addr ∧ walk s.k.mem s.vm.pml4 addr = some tr ∧
      P tr.rights (physToVirt tr.phys)) ↔
    ∃ q ∈ pagePaths area.size area.start, ∃ l, pt.leaf q = some l ∧ P l.rights (physToVirt l.frame) := by
  have hphys {addr : ℕ} {l : Leaf} (hdvd : pageSize ∣ addr) :
      l.frame + addr % 2 ^ (12 + 9 * (4 - 4)) = l.frame := by
    show l.frame + addr % pageSize = l.frame
    rw [Nat.mod_eq_zero_of_dvd hdvd, Nat.add_zero]
  constructor
  · rintro ⟨addr, tr, hdvd, hcov, hwalk, hP⟩
    have hlevel := hsmall addr tr hcov hwalk
    obtain ⟨n, hsome, hn, hle⟩ := exists_leaf_of_walk hinv.valid.wf hinv.valid.rep hwalk
    obtain rfl : n = 4 := by omega
    obtain ⟨l, hl⟩ := Option.isSome_iff_exists.mp hsome
    rw [walk_of_leaf hinv.valid.wf hinv.valid.rep hl, hphys hdvd] at hwalk
    obtain rfl := Option.some.inj hwalk
    exact ⟨_, (hlegal.covers_iff (hlegal.canonical_of_covers hcov)).mp hcov, l, hl, hP⟩
  · rintro ⟨q, ⟨i, hi, rfl⟩, l, hl, hP⟩
    have hdvd : pageSize ∣ area.start + i * pageSize := Nat.dvd_add hlegal.dvd (Nat.dvd_mul_left _ _)
    refine ⟨_, _, hdvd, VmemArea.covers_page hi, walk_of_leaf hinv.valid.wf hinv.valid.rep hl, ?_⟩
    simpa only [hphys hdvd] using hP

theorem userIffAlloc_iff : UserIffAlloc s.vm s.k area ↔
    ∀ q ∈ pagePaths area.size area.start, ∀ l, pt.leaf q = some l → l.rights.user = l.rights.alloc := by
  constructor
  · rintro hmatch q ⟨i, hi, rfl⟩ l hl
    exact hmatch _ _ (VmemArea.covers_page hi) (walk_of_leaf hinv.valid.wf hinv.valid.rep hl)
  · intro hmatch addr tr hcov hwalk
    have hlevel := hsmall addr tr hcov hwalk
    obtain ⟨n, hsome, hn, hle⟩ := exists_leaf_of_walk hinv.valid.wf hinv.valid.rep hwalk
    obtain rfl : n = 4 := by omega
    obtain ⟨l, hl⟩ := Option.isSome_iff_exists.mp hsome
    rw [walk_of_leaf hinv.valid.wf hinv.valid.rep hl] at hwalk
    rw [← Option.some.inj hwalk]
    exact hmatch _ ((hlegal.covers_iff (hlegal.canonical_of_covers hcov)).mp hcov) l hl

variable (hown : Owned s pt) (hfreed : ∀ g ∈ s.k.freed, pageSize ∣ g)

include hown hfreed

/-- What unmapping the pages of an area leaves behind, whatever frames it gave back. -/
theorem unmap_area (vm : Vmem) (hpml4 : vm.pml4 = s.vm.pml4) :
    ∃ pt' : PageTable, pt'.Valid vm.pml4 claimed (unmapPages vm area.size area.start s.k) ∧
      pt'.table = pt.table ∧ (∀ q ∈ pagePaths area.size area.start, pt'.leaf q = none) ∧
      (∀ q, q ∉ pagePaths area.size area.start → pt'.leaf q = pt.leaf q) ∧
      (unmapPages vm area.size area.start s.k).trace =
        s.k.trace ++ (freesIn pt area.size area.start).map .free ∧
      (∀ g ∈ (unmapPages vm area.size area.start s.k).freed,
        g ∈ freesIn pt area.size area.start ∨ g ∈ s.k.freed) ∧
      (unmapPages vm area.size area.start s.k).frames = s.k.frames := by
  have hvalid := hinv.valid
  rw [← hpml4] at hvalid
  obtain ⟨pt', hvalid', -, hrest⟩ := unmapPages_spec hvalid (hown.tablesApart hinv hfreed)
    (fun i hi => no_large_in hinv hsmall hi) hlegal.apart4k
  exact ⟨pt', hvalid', hrest⟩

omit hlegal hsmall hfreed in
/-- A page that user mode may access exactly if it is the address space's own: pages with the
same frame are the same page. -/
theorem same_page {q q' : Path} {l l' : Leaf} (hl : pt.leaf q = some l) (hl' : pt.leaf q' = some l')
    (hq : q.length = 4) (hq' : q'.length = 4) (halloc : l.rights.alloc = true)
    (hframe : physToVirt l'.frame = physToVirt l.frame) : q' = q := by
  have hheld : pt.held q = some (physToVirt l.frame) := by
    rw [held_of_leaf (hinv.valid.wf.table_of_leaf hl) hl, if_pos ⟨halloc, hq⟩]
  cases halloc' : l'.rights.alloc with
  | false =>
      have := hown.foreign hl' hq' halloc'
      rw [hframe] at this
      exact absurd ((hown.ledger.mem_iff _).mpr ⟨q, hheld⟩) this
  | true =>
      have hheld' : pt.held q' = some (physToVirt l.frame) := by
        rw [held_of_leaf (hinv.valid.wf.table_of_leaf hl') hl', if_pos ⟨halloc', hq'⟩, hframe]
      exact hown.ledger.inj hheld' hheld

/-- Freeing an area undoes its allocation exactly when user mode may access the allocated
pages of the area and no others. -/
theorem undone_iff (hareas : AreasLegal s.vm.areas) (harea : area ∈ s.vm.areas) :
    (∃ vm k, vmemFreePages s.vm area.start area.size s.k = .ok (vm, k) ∧ Undone s.vm s.k area vm k) ↔
      UserIffAlloc s.vm s.k area := by
  obtain ⟨pt', hvalid, htable, hin, hout, htrace, -, -⟩ := unmap_area hinv hlegal hsmall hown hfreed
    ⟨s.vm.areas.erase area, s.vm.pml4⟩ rfl
  have hlen {q : Path} (hq : q ∈ pagePaths area.size area.start) : q.length = 4 := by
    obtain ⟨i, -, rfl⟩ := hq
    exact pathTo_length _ _
  have hpages (f : ℕ) := exists_page_iff hinv hlegal hsmall
    (P := fun r g => r.alloc = true ∧ g = f)
  rw [vmemFreePages_eq hareas harea, userIffAlloc_iff hinv hlegal hsmall]
  generalize unmapPages ⟨s.vm.areas.erase area, s.vm.pml4⟩ area.size area.start s.k = k' at *
  constructor
  · rintro ⟨vm, k, hcall, hundone⟩ q hq l hl
    obtain ⟨rfl, rfl⟩ := Prod.mk.inj (Except.ok.inj hcall)
    obtain ⟨frees, htrace', -, hfrees⟩ := hundone.freed
    have heq : frees = freesIn pt area.size area.start := by
      rw [htrace] at htrace'
      exact (List.map_injective_iff.mpr fun _ _ h => VmemEvent.free.inj h)
        (List.append_cancel_left htrace').symm
    cases huser : l.rights.user <;> cases halloc : l.rights.alloc
    · rfl
    · -- an allocated page that is not given back
      have hmem : physToVirt l.frame ∈ frees :=
        (hfrees _).mpr ((hpages _).mpr ⟨q, hq, l, hl, halloc, rfl⟩)
      obtain ⟨q', hq', l', hl', huser', hframe⟩ := mem_freesIn.mp (heq ▸ hmem)
      obtain rfl := same_page hinv hown hl hl' (hlen hq) (hlen hq') halloc hframe
      obtain rfl := Option.some.inj (hl.symm.trans hl')
      rw [huser] at huser'
      exact huser'
    · -- a foreign page that is given back
      have hmem : physToVirt l.frame ∈ frees :=
        heq ▸ mem_freesIn.mpr ⟨q, hq, l, hl, huser, rfl⟩
      obtain ⟨q', hq', l', hl', halloc', hframe⟩ := (hpages _).mp ((hfrees _).mp hmem)
      obtain rfl := same_page hinv hown hl' hl (hlen hq') (hlen hq) halloc' hframe.symm
      obtain rfl := Option.some.inj (hl.symm.trans hl')
      rw [halloc] at halloc'
      exact halloc'.symm
    · rfl
  · intro hmatch
    refine ⟨_, _, rfl, rfl, fun addr hcov => ?_, fun addr haddr hcov => ?_,
      freesIn pt area.size area.start, htrace, ?_, fun f => ?_⟩
    · have hpath := (hlegal.covers_iff (hlegal.canonical_of_covers hcov)).mp hcov
      refine walk_of_no_leaf hvalid.wf hvalid.rep fun n hn => ?_
      rcases Nat.lt_or_ge n 4 with hlt | hge
      · obtain ⟨i, hi, heq⟩ := hpath
        have hne : pathTo addr n ∉ pagePaths area.size area.start := fun hmem => by
          have := hlen hmem
          rw [pathTo_length] at this
          omega
        rw [hout _ hne, pathTo_congr heq (le_of_lt hlt)]
        exact no_large_in hinv hsmall hi n hlt
      · obtain rfl : n = 4 := by omega
        exact hin _ hpath
    · have hpath := mt (hlegal.covers_iff haddr).mpr hcov
      refine walk_congr_at hinv.valid hvalid fun n hn => hout _ fun hmem => hpath ?_
      obtain rfl : n = 4 := by
        have := hlen hmem
        rwa [pathTo_length] at this
      exact hmem
    · refine nodup_freesIn hlegal.apart4k fun q hq q' hq' l l' hl hl' huser _ hframe => ?_
      exact (same_page hinv hown hl hl' (hlen hq) (hlen hq') (hmatch q hq l hl ▸ huser) hframe.symm).symm
    · rw [mem_freesIn, hpages f]
      refine exists_congr fun q => and_congr_right fun hq => exists_congr fun l => and_congr_right fun hl => ?_
      rw [hmatch q hq l hl]

end Free

/-! ## Reachable address spaces -/

/-- The frames given back between two states. -/
def givenBack (k k' : Kernel) : List ℕ :=
  (k'.trace.drop k.trace.length).filterMap fun
    | .free f => some f
    | .read _ => none

/-- An area is requested for a legal range. -/
def SpaceLabel.LegalArea : SpaceLabel → Prop
  | .allocPages start pgcnt flags => (⟨start, pgcnt, flags⟩ : VmemArea).Legal
  | _ => True

/-- The steps of an address space that maps foreign frames only. An area is freed where
user mode may access exactly the allocated pages in it. -/
inductive OwnStep : Space → SpaceLabel → Space → Prop
  | grow {s t : Space} {label : SpaceLabel} (hstep : SpaceStep s label t) (hforeign : label.Foreign s)
      (hlegal : label.LegalArea) : OwnStep s label t
  | freePages {s : Space} {area : VmemArea} {vm : Vmem} {k : Kernel} (harea : area ∈ s.vm.areas)
      (hsmall : SmallIn s.vm s.k area) (hmatch : UserIffAlloc s.vm s.k area)
      (hcall : vmemFreePages s.vm area.start area.size s.k = .ok (vm, k)) :
      OwnStep s (.freePages area.start area.size)
        ⟨vm, k, s.allocated.filter (· ∉ givenBack s.k k)⟩

/-- The address spaces that are made by `vmem_init` or as copies, and their lives. -/
inductive Reachable : Space → Prop
  | init {vm : Vmem} {k k' : Kernel} (hfresh : FreshFrames k.frames)
      (hfreed : ∀ g ∈ k.freed, pageSize ∣ g) (hinit : vmemInit k = (0, vm, k')) :
      Reachable ⟨vm, k', [vm.pml4]⟩
  | step {s t : Space} {label : SpaceLabel} (hs : Reachable s) (hstep : OwnStep s label t) : Reachable t
  | clone {s : Space} {dst : Vmem} {k : Kernel} (hs : Reachable s)
      (hcall : vmemClone s.vm s.k = .ok (0, dst, k)) : Reachable ⟨dst, k, taken s.k k⟩

/-- What holds of every reachable address space. -/
structure SpaceOk (s : Space) (pt : PageTable) (claimed : Set Path) : Prop where
  inv : SpaceInv s pt claimed
  own : Owned s pt
  freed : ∀ g ∈ s.k.freed, pageSize ∣ g
  areas : AreasLegal s.vm.areas

/-- A legal request never begins where an area begins. -/
theorem AreasLegal.alloc {vm vm' : Vmem} {start pgcnt : ℕ} {flags : BitVec 64} {k k' : Kernel}
    {res : Int} (h : AreasLegal vm.areas) (hlegal : (⟨start, pgcnt, flags⟩ : VmemArea).Legal)
    (hcall : vmemAllocPages vm start pgcnt flags k = .ok (res, vm', k')) : AreasLegal vm'.areas := by
  rcases vmemAllocPages_cases hcall with ⟨-, heq⟩ | ⟨hinter, heq⟩
  · rwa [heq]
  · rw [heq]
    refine ⟨List.forall_mem_cons.mpr ⟨hlegal, h.legal⟩, List.pairwise_cons.mpr ⟨fun area harea hsame => ?_, h.starts⟩⟩
    have hstop := (h.legal area harea).stop_lt
    have hnew := hlegal.stop_lt
    have hpages := (h.legal area harea).pages
    have hpages' := hlegal.pages
    have hle := pages_le_bytes pgcnt
    have hle' := pages_le_bytes area.size
    simp only [VmemArea.stop] at *
    unfold vmemIntersects at hinter
    rw [List.any_eq_false] at hinter
    refine hinter area harea (decide_eq_true ?_)
    rw [Nat.mod_eq_of_lt hstop, Nat.mod_eq_of_lt (a := start + pgcnt) (by omega)]
    omega

theorem AreasLegal.sublist {areas areas' : List VmemArea} (h : AreasLegal areas)
    (hsub : areas'.Sublist areas) : AreasLegal areas' :=
  ⟨fun area harea => h.legal area (hsub.subset harea), h.starts.sublist hsub⟩

theorem AreasLegal.reverse {areas : List VmemArea} (h : AreasLegal areas) : AreasLegal areas.reverse :=
  ⟨fun area harea => h.legal area (List.mem_reverse.mp harea),
    List.pairwise_reverse.mpr (h.starts.imp Ne.symm)⟩

/-- Only `vmem_alloc_pages` adds areas. -/
theorem SpaceStep.areas {s t : Space} {label : SpaceLabel} (h : AreasLegal s.vm.areas)
    (hstep : SpaceStep s label t) (hlegal : label.LegalArea) : AreasLegal t.vm.areas := by
  cases hstep with
  | map => exact h
  | allocPages hcall => exact h.alloc hlegal hcall
  | fault => exact h
  | other => exact h

theorem givenBack_eq {k k' : Kernel} {frees : List ℕ} (htrace : k'.trace = k.trace ++ frees.map .free) :
    givenBack k k' = frees := by
  rw [givenBack, htrace, List.drop_left, List.filterMap_map]
  exact List.filterMap_some

/-- Freeing an area keeps the books. -/
theorem SpaceOk.freePages {s : Space} {pt : PageTable} {claimed : Set Path} {area : VmemArea}
    {vm : Vmem} {k : Kernel} (h : SpaceOk s pt claimed) (harea : area ∈ s.vm.areas)
    (hsmall : SmallIn s.vm s.k area) (hmatch : UserIffAlloc s.vm s.k area)
    (hcall : vmemFreePages s.vm area.start area.size s.k = .ok (vm, k)) :
    ∃ pt', SpaceOk ⟨vm, k, s.allocated.filter (· ∉ givenBack s.k k)⟩ pt' claimed := by
  have hlegal := h.areas.legal area harea
  obtain ⟨pt', hvalid, htable, hin, hout, htrace, hfreed, hframes⟩ :=
    unmap_area h.inv hlegal hsmall h.own h.freed ⟨s.vm.areas.erase area, s.vm.pml4⟩ rfl
  rw [vmemFreePages_eq h.areas harea] at hcall
  obtain ⟨rfl, hk⟩ := Prod.mk.inj (Except.ok.inj hcall)
  rw [hk] at hvalid htrace hfreed hframes
  have hmatch' := (userIffAlloc_iff h.inv hlegal hsmall).mp hmatch
  rw [givenBack_eq htrace]
  have hlen {q : Path} (hq : q ∈ pagePaths area.size area.start) : q.length = 4 := by
    obtain ⟨i, -, rfl⟩ := hq
    exact pathTo_length _ _
  have hleaf {q : Path} {l : Leaf} (hl : pt'.leaf q = some l) :
      q ∉ pagePaths area.size area.start ∧ pt.leaf q = some l := by
    have hq : q ∉ pagePaths area.size area.start := fun hq => by
      rw [hin q hq] at hl
      cases hl
    exact ⟨hq, hout q hq ▸ hl⟩
  -- the frames given back are the frames held by the pages of the area
  have hfrees (f : ℕ) : f ∈ freesIn pt area.size area.start ↔
      ∃ q ∈ pagePaths area.size area.start, pt.held q = some f := by
    rw [mem_freesIn]
    refine exists_congr fun q => and_congr_right fun hq => ?_
    have hnone : pt.table q = none := by
      by_contra hne
      have := h.inv.valid.wf.table_length (Option.isSome_iff_ne_none.mpr hne)
      rw [hlen hq] at this
      omega
    constructor
    · rintro ⟨l, hl, huser, rfl⟩
      rw [held_of_leaf hnone hl, if_pos ⟨hmatch' q hq l hl ▸ huser, hlen hq⟩]
    · intro hheld
      cases hl : pt.leaf q with
      | none =>
          rw [held_of_none hnone hl] at hheld
          cases hheld
      | some l =>
          rw [held_of_leaf hnone hl] at hheld
          split_ifs at hheld with hcond
          exact ⟨l, rfl, (hmatch' q hq l hl).trans hcond.1, Option.some.inj hheld⟩
  have hheld {q : Path} {f : ℕ} : pt'.held q = some f ↔
      q ∉ pagePaths area.size area.start ∧ pt.held q = some f := by
    by_cases hq : q ∈ pagePaths area.size area.start
    · have hnone : pt'.table q = none := by
        by_contra hne
        have := hvalid.wf.table_length (Option.isSome_iff_ne_none.mpr hne)
        rw [hlen hq] at this
        omega
      rw [held_of_none hnone (hin q hq)]
      exact ⟨fun hf => (by cases hf), fun hf => absurd hq hf.1⟩
    · have hsame : pt'.held q = pt.held q := by rw [held, held, htable, hout q hq]
      rw [hsame]
      exact ⟨fun hf => ⟨hq, hf⟩, And.right⟩
  have hkeep {f : ℕ} (hf : f ∈ s.allocated.filter (· ∉ freesIn pt area.size area.start)) :
      f ∈ s.allocated ∧ f ∉ freesIn pt area.size area.start := by
    simpa using hf
  refine ⟨pt', ⟨⟨hvalid, fun hl => h.inv.small (hleaf hl).2, fun hl hq => ?_⟩,
    ⟨⟨fun f => ?_, fun hq hq' => h.own.ledger.inj (hheld.mp hq).2 (hheld.mp hq').2,
      h.own.ledger.nodup.filter _, fun f hf => ?_⟩, fun f hf => h.own.isFrame f (hkeep hf).1,
      fun hl hq halloc hf => h.own.foreign (hleaf hl).2 hq halloc (hkeep hf).1, fun g hg hf => ?_⟩,
    fun g hg => ?_, h.areas.sublist List.erase_sublist⟩⟩
  · show _ ∉ k.frames
    rw [hframes]
    exact h.inv.unused (hleaf hl).2 hq
  · rw [List.mem_filter, decide_eq_true_iff, h.own.ledger.mem_iff, hfrees]
    constructor
    · rintro ⟨⟨q, hq⟩, hnot⟩
      exact ⟨q, hheld.mpr ⟨fun hmem => hnot ⟨q, hmem, hq⟩, hq⟩⟩
    · rintro ⟨q, hq⟩
      obtain ⟨hout', hq'⟩ := hheld.mp hq
      refine ⟨⟨q, hq'⟩, ?_⟩
      rintro ⟨p, hp, hp'⟩
      exact hout' (h.own.ledger.inj hq' hp' ▸ hp)
  · show _ ∉ k.frames
    rw [hframes]
    exact h.own.ledger.notMem f (hkeep hf).1
  · rcases hfreed g hg with hg | hg
    · exact (hkeep hf).2 hg
    · exact h.own.freed g hg (hkeep hf).1
  · rcases hfreed g hg with hg | hg
    · obtain ⟨q, -, hq⟩ := (hfrees g).mp hg
      exact (h.own.isFrame g ((h.own.ledger.mem_iff g).mpr ⟨q, hq⟩)).1
    · exact h.freed g hg

theorem SpaceOk.clone {s : Space} {pt : PageTable} {claimed : Set Path} {dst : Vmem} {k : Kernel}
    (h : SpaceOk s pt claimed) (hcall : vmemClone s.vm s.k = .ok (0, dst, k)) :
    ∃ pt' claimed', SpaceOk ⟨dst, k, taken s.k k⟩ pt' claimed' := by
  obtain ⟨res, dst', k', hcall', hcopy⟩ := vmemClone_spec h.inv
  obtain ⟨rfl, rfl, rfl⟩ : 0 = res ∧ dst = dst' ∧ k = k' := by
    obtain ⟨hres, hrest⟩ := Prod.mk.inj (Except.ok.inj (hcall.symm.trans hcall'))
    exact ⟨hres, Prod.mk.inj hrest⟩
  obtain ⟨pt', hcopying⟩ := hcopy rfl
  obtain ⟨_, -, hareas⟩ := vmemClone_areas hcall
  refine ⟨pt', _, hcopying.inv, hcopying.own, fun g hg => h.freed g (hcopying.freed g hg), ?_⟩
  show AreasLegal dst.areas
  rw [hareas rfl]
  exact h.areas.reverse

theorem Reachable.ok {s : Space} (h : Reachable s) : ∃ pt claimed, SpaceOk s pt claimed := by
  induction h with
  | init hfresh hfreed hinit =>
      obtain ⟨-, hareas, -, -, -, -, hfreed'⟩ := vmemInit_spec hfresh hinit
      refine ⟨_, _, SpaceInv.init hfresh hinit, Owned.init hfresh hinit, fun g hg => hfreed g (hfreed' g hg).1, ?_⟩
      rw [hareas]
      exact ⟨fun area harea => (List.not_mem_nil harea).elim, List.Pairwise.nil⟩
  | step _ hstep ih =>
      obtain ⟨pt, claimed, hok⟩ := ih
      cases hstep with
      | grow hstep hforeign hlegal =>
          obtain ⟨pt', claimed', hinv, hown, hfreed⟩ := hstep.inv hok.inv
          exact ⟨pt', claimed', hinv, hown hforeign hok.own, hfreed hok.freed, hstep.areas hok.areas hlegal⟩
      | freePages harea hsmall hmatch hcall =>
          obtain ⟨pt', hok'⟩ := hok.freePages harea hsmall hmatch hcall
          exact ⟨pt', claimed, hok'⟩
  | clone _ hcall ih =>
      obtain ⟨pt, claimed, hok⟩ := ih
      exact hok.clone hcall

/-- In every reachable address space and for every area of it with pages of 4 KiB, freeing
the area undoes its allocation exactly when user mode may access the allocated pages of the
area and no others. -/
theorem reachable_undone_iff {s : Space} {area : VmemArea} (hs : Reachable s) (harea : area ∈ s.vm.areas)
    (hsmall : SmallIn s.vm s.k area) :
    (∃ vm k, vmemFreePages s.vm area.start area.size s.k = .ok (vm, k) ∧ Undone s.vm s.k area vm k) ↔
      UserIffAlloc s.vm s.k area := by
  obtain ⟨pt, claimed, hok⟩ := hs.ok
  exact undone_iff hok.inv (hok.areas.legal area harea) hsmall hok.own hok.freed hok.areas harea

/-! The area of the populated address space, with a page of its own that user mode may access
and a shared page that it may not. -/

theorem populatedArea_legal : populatedArea.Legal :=
  ⟨by decide, by decide, Or.inl (by simp only [VmemArea.stop, populatedArea]; decide)⟩

/-- Steps that map foreign frames and request legal ranges. -/
theorem Reachable.run {s t : Space} {labels : List SpaceLabel} (hs : Reachable s)
    (hrun : Run (fun s label t => SpaceStep s label t ∧ label.Foreign s) s labels t)
    (hlegal : ∀ label ∈ labels, label.LegalArea) : Reachable t := by
  induction hrun with
  | nil => exact hs
  | snoc _ hlast ih =>
      exact (ih fun label hmem => hlegal label (List.mem_append_left _ hmem)).step
        (.grow hlast.1 hlast.2 (hlegal _ (List.mem_append_right _ (List.mem_singleton.mpr rfl))))

/-- The pages in the area: the large page is behind it. -/
theorem Populated.leaf_of_covers {s : Space} {claimed : Set Path} {f n : ℕ} {areas : List VmemArea} {objects : List Bool}
    (h : Populated s claimed (populatedLeaf f) areas objects n) {addr : ℕ} {tr : Translation}
    (hcov : populatedArea.Covers addr) (hwalk : walk s.k.mem s.vm.pml4 addr = some tr) :
    tr.level = 0 ∧ tr.rights.user = tr.rights.alloc := by
  obtain ⟨pt, hinv, hleaf⟩ := h.inv
  obtain ⟨m, hsome, hlevel, hm⟩ := exists_leaf_of_walk hinv.valid.wf hinv.valid.rep hwalk
  obtain ⟨l, hl⟩ := Option.isSome_iff_exists.mp hsome
  rw [walk_of_leaf hinv.valid.wf hinv.valid.rep hl] at hwalk
  obtain rfl := Option.some.inj hwalk
  rcases populatedLeaf_cases (hleaf ▸ hl) with ⟨hpath, -⟩ | ⟨hpath, rfl⟩ | ⟨hpath, rfl⟩
  · exfalso
    have hlen : m = 3 := (pathTo_length addr m).symm.trans (congrArg List.length hpath)
    subst hlen
    have hdiv := div_eq_of_pathTo_eq hm (populatedArea_legal.canonical_of_covers hcov) (Or.inl (by decide)) hpath
    obtain ⟨hlo, hhi⟩ := hcov
    simp only [VmemArea.stop, populatedArea, largePage, pageSize] at hlo hhi hdiv
    omega
  · have hlen : m = 4 := (pathTo_length addr m).symm.trans (congrArg List.length hpath)
    exact ⟨by rw [hlen], rfl⟩
  · have hlen : m = 4 := (pathTo_length addr m).symm.trans (congrArg List.length hpath)
    exact ⟨by rw [hlen], rfl⟩

theorem reachable_undone_iff_populated :
    ∃ s : Space, Reachable s ∧ populatedArea ∈ s.vm.areas ∧
      (∃ tr, walk s.k.mem s.vm.pml4 0x400123 = some tr ∧ tr.rights = ⟨true, false, true⟩) ∧
      walk s.k.mem s.vm.pml4 0x401000 = some ⟨0x1000, 0, ⟨false, false, false⟩⟩ ∧
      ∃ vm k, vmemFreePages s.vm 0x400000 2 s.k = .ok (vm, k) ∧ Undone s.vm s.k populatedArea vm k := by
  obtain ⟨vm, k, s, f, claimed, hinit, hrun, h⟩ := exists_populated
  have hnew : Reachable ⟨vm, k, [vm.pml4]⟩ :=
    .init (@manyFrames_fresh 64 (by decide)) (by simp [populatedKernel, kernelWith, bootKernel]) hinit
  have hlegal : ∀ label ∈ populatedLabels, label.LegalArea := by
    simp only [populatedLabels, List.forall_mem_cons]
    exact ⟨trivial, trivial, populatedArea_legal, trivial, fun _ hmem => absurd hmem List.not_mem_nil⟩
  have harea : populatedArea ∈ s.vm.areas := by
    rw [h.areas]
    exact List.mem_singleton.mpr rfl
  have hs := hnew.run hrun hlegal
  refine ⟨s, hs, harea, ⟨_, h.walk_eq (m := 4) (Function.update_self _ _ _), rfl⟩, h.walk_eq (populatedLeaf_shared f), ?_⟩
  exact (reachable_undone_iff hs harea fun addr tr hcov hwalk => (h.leaf_of_covers hcov hwalk).1).mpr
    fun addr tr hcov hwalk => (h.leaf_of_covers hcov hwalk).2

/-! One page at `0x400000`. -/

def oneArea : VmemArea := ⟨0x400000, 1, vmemUser⟩

theorem oneArea_legal : oneArea.Legal :=
  ⟨by decide, by decide, Or.inl (by simp only [VmemArea.stop, oneArea]; decide)⟩

/-- The request for the area, in a state where nothing was requested before. -/
theorem oneArea_step {vm : Vmem} {k : Kernel} {allocated : List ℕ} (hareas : vm.areas = [])
    (hobjects : k.objects = [true]) :
    OwnStep ⟨vm, k, allocated⟩ (.allocPages 0x400000 1 vmemUser)
      ⟨⟨[oneArea], vm.pml4⟩, { k with objects := [] }, allocated⟩ := by
  refine .grow (@SpaceStep.allocPages ⟨vm, k, allocated⟩ _ _ _ 0 _ _ ?_) trivial oneArea_legal
  have hobj : objectAlloc k = (true, { k with objects := [] }) := by rw [objectAlloc, hobjects]
  unfold vmemAllocPages vmemIntersects
  rw [kassert_of_true (by decide), ok_bind]
  simp only [hareas, hobj, List.any_nil]
  rfl

/-- A foreign page is mapped into a new address space. -/
theorem onePage_step {vm : Vmem} {k1 k : Kernel} (hinit : vmemInit cloneKernel = (0, vm, k1))
    (hcall : onePage.run vm k1 = .ok (0, k)) :
    SpaceStep ⟨vm, k1, [vm.pml4]⟩ (.map onePage) ⟨vm, k, taken k1 k ++ [vm.pml4]⟩ ∧
      (SpaceLabel.map onePage).Foreign ⟨vm, k1, [vm.pml4]⟩ := by
  obtain ⟨hvalid, -, hframes, -⟩ := vmemInit_spec fourFrames_fresh hinit
  have hsplit : fourFrames = some vm.pml4 :: k1.frames := hframes
  have hnot : some (physToVirt 0x1000) ∉ fourFrames := by decide
  refine ⟨.map onePage_legal ?_ (fun _ => rfl) (fun _ hmem => ?_) hcall, by decide, fun _ hmem => ?_⟩
  · rintro ⟨addr, -, hsome⟩
    rw [walk_of_no_leaf hvalid.wf hvalid.rep fun _ _ => rfl] at hsome
    cases hsome
  · refine hnot ?_
    rw [hsplit]
    exact List.mem_cons_of_mem _ hmem
  · refine hnot ?_
    rw [hsplit, ← List.mem_singleton.mp hmem]
    exact List.mem_cons_self

/-- A foreign page that user mode may access is given back with the area around it. -/
theorem undone_foreign_given_back :
    ∃ s : Space, Reachable s ∧ oneArea ∈ s.vm.areas ∧ SmallIn s.vm s.k oneArea ∧
      ¬∃ vm k, vmemFreePages s.vm 0x400000 1 s.k = .ok (vm, k) ∧ Undone s.vm s.k oneArea vm k := by
  obtain ⟨vm, k1, k, pt, hinit, hcall, hvalid, hgrows, hleaf⟩ := @fourFrames_map cloneKernel rfl rfl _ onePage_legal
  obtain ⟨-, hareas, -⟩ := vmemInit_spec fourFrames_fresh hinit
  have hobjects : k1.objects = [true] := by
    have : (vmemInit cloneKernel).2.2.objects = [true] := rfl
    rwa [hinit] at this
  have hnew : Reachable ⟨vm, k1, [vm.pml4]⟩ := .init fourFrames_fresh (by simp [cloneKernel, bootKernel]) hinit
  obtain ⟨hstep, hforeign⟩ := onePage_step hinit hcall
  have hmap : OwnStep ⟨vm, k1, [vm.pml4]⟩ (.map onePage) ⟨vm, k, taken k1 k ++ [vm.pml4]⟩ :=
    .grow hstep hforeign trivial
  have hs := (hnew.step hmap).step (oneArea_step hareas (hgrows.objects.trans hobjects))
  have hself : pt.leaf onePage.path = some onePage.leaf := by rw [hleaf, Function.update_self]
  have hsmall : SmallIn vm k oneArea := by
    intro addr tr _ hwalk
    obtain ⟨n, hn, hlevel, -, -⟩ := exists_leaf_of_walk hvalid.wf hvalid.rep hwalk
    have hlen := congrArg List.length (Set.mem_singleton_iff.mp (hvalid.wf.leaf_claimed hn))
    rw [pathTo_length, PageSpan.path, pathTo_length] at hlen
    rw [hlevel, hlen]
    rfl
  refine ⟨_, hs, List.mem_singleton.mpr rfl, hsmall, fun hundone => ?_⟩
  obtain ⟨pt', claimed', hok⟩ := hs.ok
  have hmatch := (undone_iff hok.inv oneArea_legal hsmall hok.own hok.freed hok.areas
    (List.mem_singleton.mpr rfl)).mp hundone
  have hcov : oneArea.Covers 0x400000 := ⟨le_refl _, by simp only [VmemArea.stop, oneArea]; decide⟩
  exact absurd (hmatch 0x400000 _ hcov (walk_of_leaf (n := 4) hvalid.wf hvalid.rep hself)) (by decide)

end HeavenOS
