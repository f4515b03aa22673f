/-
# The mapping functions

The three mapping functions put pages of three sizes into one tree, and the walk of
the processor reads the tree back. The functions differ in the depth of the page and
in the assertion they make before they write it; for calls whose ranges do not overlap
all three are `mapAt`.
-/

import Mathlib.Tactic.NormNum
import HeavenOS.Lib.Runs
import HeavenOS.Mm.PageTable

namespace HeavenOS

open Lib PageTable

/-- The first `n` indices of an address. -/
def pathTo (addr : ℕ) : ℕ → Path
  | 0 => []
  | n + 1 => tableIndex (3 - n) addr :: pathTo addr n

@[simp]
theorem pathTo_length (addr n : ℕ) : (pathTo addr n).length = n := by
  induction n with
  | zero => rfl
  | succ n ih => rw [pathTo, List.length_cons, ih]

theorem pathTo_lt {addr n i : ℕ} (hi : i ∈ pathTo addr n) : i < 512 := by
  induction n with
  | zero => cases hi
  | succ n ih =>
      rcases List.mem_cons.mp hi with rfl | hi
      · exact tableIndex_lt _ _
      · exact ih hi

/-- The ancestors of a path of an address are the shorter paths of that address. -/
theorem suffix_pathTo_iff {addr n : ℕ} {q : Path} :
    q <:+ pathTo addr n ↔ ∃ m ≤ n, q = pathTo addr m := by
  induction n with
  | zero =>
      rw [pathTo, List.suffix_nil]
      exact ⟨fun h => ⟨0, le_refl 0, h⟩, fun ⟨m, hm, h⟩ => by rw [h, Nat.le_zero.mp hm, pathTo]⟩
  | succ n ih =>
      rw [pathTo, List.suffix_cons_iff, ih, ← pathTo]
      constructor
      · rintro (h | ⟨m, hm, h⟩)
        · exact ⟨n + 1, le_refl _, h⟩
        · exact ⟨m, by omega, h⟩
      · rintro ⟨m, hm, h⟩
        rcases Nat.le_succ_iff.mp hm with hm | rfl
        · exact Or.inr ⟨m, hm, h⟩
        · exact Or.inl h

theorem pathTo_congr {addr addr' m n : ℕ} (hpath : pathTo addr n = pathTo addr' n) (hm : m ≤ n) :
    pathTo addr m = pathTo addr' m := by
  have hsuf : pathTo addr m <:+ pathTo addr' n := hpath ▸ suffix_pathTo_iff.mpr ⟨m, hm, rfl⟩
  obtain ⟨m', -, heq⟩ := suffix_pathTo_iff.mp hsuf
  obtain rfl : m = m' := by simpa using congrArg List.length heq
  exact heq

/-- Canonical addresses with the same path lie in the same page of that depth. -/
theorem div_eq_of_pathTo_eq {addr addr' n : ℕ} (hn : 2 ≤ n ∧ n ≤ 4) (haddr : Canonical addr)
    (haddr' : Canonical addr') (hpath : pathTo addr n = pathTo addr' n) :
    addr / 2 ^ (48 - 9 * n) = addr' / 2 ^ (48 - 9 * n) := by
  unfold Canonical at haddr haddr'
  obtain rfl | rfl | rfl : n = 2 ∨ n = 3 ∨ n = 4 := by omega
  all_goals
    simp only [pathTo, tableIndex_eq, List.cons.injEq, and_true] at hpath
    norm_num at hpath ⊢
    omega

theorem pathTo_eq_of_div_eq {addr addr' n : ℕ} (hn : 2 ≤ n ∧ n ≤ 4)
    (hdiv : addr / 2 ^ (48 - 9 * n) = addr' / 2 ^ (48 - 9 * n)) : pathTo addr n = pathTo addr' n := by
  obtain rfl | rfl | rfl : n = 2 ∨ n = 3 ∨ n = 4 := by omega
  all_goals
    simp only [pathTo, tableIndex_eq, List.cons.injEq, and_true]
    norm_num at hdiv ⊢
    omega

section MakeAddr

variable {m p d t : ℕ} (hm : m < 512) (hp : p < 512) (hd : d < 512) (ht : t < 512)

include hm hp hd ht

/-- `MAKE_ADDR` undoes the splitting into indices. -/
theorem pathTo_makeAddr : pathTo (makeAddr m p d t 0) 4 = [t, d, p, m] := by
  rw [makeAddr_eq hm hp hd ht]
  simp only [pathTo, tableIndex_eq, List.cons.injEq, and_true]
  norm_num
  split_ifs <;> omega

theorem canonical_makeAddr : Canonical (makeAddr m p d t 0) := by
  rw [makeAddr_eq hm hp hd ht]
  unfold Canonical
  split_ifs <;> omega

end MakeAddr

/-- Every path in range is the path of a canonical address. -/
theorem exists_pathTo {q : Path} (hlen : q.length ≤ 4) (hlt : ∀ i ∈ q, i < 512) :
    ∃ addr, Canonical addr ∧ pathTo addr q.length = q := by
  obtain ⟨full, hfull, hsuf, hall⟩ :
      ∃ full : Path, full.length = 4 ∧ q <:+ full ∧ ∀ i ∈ full, i < 512 := by
    refine ⟨List.replicate (4 - q.length) 0 ++ q, by simp; omega, List.suffix_append _ _, fun i hi => ?_⟩
    rcases List.mem_append.mp hi with hi | hi
    · rw [List.eq_of_mem_replicate hi]
      decide
    · exact hlt i hi
  match full, hfull with
  | [t, d, p, m], _ =>
      have ht := hall t (by simp)
      have hd := hall d (by simp)
      have hp := hall p (by simp)
      have hm := hall m (by simp)
      refine ⟨makeAddr m p d t 0, canonical_makeAddr hm hp hd ht, ?_⟩
      rw [← pathTo_makeAddr hm hp hd ht] at hsuf
      obtain ⟨n, -, hq⟩ := suffix_pathTo_iff.mp hsuf
      have hn : q.length = n := by rw [hq, pathTo_length]
      rw [hn, hq]

/-! ## Calls -/

/-- The mapping functions. -/
inductive MapSize
  | page
  | page2mb
  | page1gb
  deriving DecidableEq

/-- Number of index levels that a page of this size leaves out. -/
def MapSize.level : MapSize → ℕ
  | .page => 0
  | .page2mb => 1
  | .page1gb => 2

/-- Bytes of a page. -/
def MapSize.bytes (size : MapSize) : ℕ := 2 ^ (12 + 9 * size.level)

/-- The rights that the flags of a call ask for. -/
def rightsOf (flags : BitVec 64) : Rights :=
  ⟨decide (flags &&& vmemUser ≠ 0), decide (flags &&& vmemWrite ≠ 0), decide (flags &&& vmemAlloc ≠ 0)⟩

theorem vmemConvertFlags_eq (flags : BitVec 64) : vmemConvertFlags flags = (rightsOf flags).pte := by
  simp only [vmemConvertFlags, rightsOf, Rights.pte, decide_eq_true_eq]
  split_ifs <;> simp

/-- One page of the address space. -/
structure PageSpan where
  size : MapSize
  virtAddr : ℕ

namespace PageSpan

/-- The page begins at a canonical address that is aligned to its size. -/
structure Aligned (span : PageSpan) : Prop where
  canonical : Canonical span.virtAddr
  dvd : span.size.bytes ∣ span.virtAddr

/-- The address is in the page. -/
def Covers (span : PageSpan) (addr : ℕ) : Prop :=
  span.virtAddr ≤ addr ∧ addr < span.virtAddr + span.size.bytes

/-- The two pages do not overlap. -/
def Disjoint (span other : PageSpan) : Prop := ∀ addr, ¬(span.Covers addr ∧ other.Covers addr)

/-- Where the page is in the tree. -/
def path (span : PageSpan) : Path := pathTo span.virtAddr (4 - span.size.level)

theorem level_le (size : MapSize) : size.level ≤ 2 := by
  cases size <;> decide

theorem path_length (span : PageSpan) : 2 ≤ span.path.length ∧ span.path.length ≤ 4 := by
  have := level_le span.size
  rw [path, pathTo_length]
  omega

theorem Covers.canonical {span : PageSpan} (halign : span.Aligned) {addr : ℕ}
    (hcov : span.Covers addr) : Canonical addr := by
  have hdvd := halign.dvd
  have hcan := halign.canonical
  unfold Canonical at *
  unfold Covers MapSize.bytes at *
  cases hsize : span.size with
  | page => simp only [hsize, MapSize.level] at *; norm_num at *; omega
  | page2mb => simp only [hsize, MapSize.level] at *; norm_num at *; omega
  | page1gb => simp only [hsize, MapSize.level] at *; norm_num at *; omega

/-- A canonical address is in a page exactly when its path leads there. -/
theorem covers_iff {span : PageSpan} (halign : span.Aligned) {addr : ℕ} (haddr : Canonical addr) :
    span.Covers addr ↔ pathTo addr (4 - span.size.level) = span.path := by
  have hlevel := level_le span.size
  have hexp : 48 - 9 * (4 - span.size.level) = 12 + 9 * span.size.level := by omega
  have hpos : 0 < span.size.bytes := Nat.two_pow_pos _
  obtain ⟨b, hb⟩ := halign.dvd
  constructor
  · rintro ⟨hlo, hhi⟩
    refine pathTo_eq_of_div_eq (by omega) ?_
    rw [hexp, ← MapSize.bytes]
    rw [hb, Nat.mul_div_cancel_left _ hpos]
    exact Nat.div_eq_of_lt_le (by rw [Nat.mul_comm]; omega) (by rw [Nat.add_mul, Nat.mul_comm]; omega)
  · intro hpath
    have hdiv := div_eq_of_pathTo_eq (by omega) haddr halign.canonical hpath
    rw [hexp, ← MapSize.bytes, hb, Nat.mul_div_cancel_left _ hpos] at hdiv
    have hmod := Nat.div_add_mod addr span.size.bytes
    have hlt := Nat.mod_lt addr hpos
    unfold Covers
    rw [hdiv, ← hb] at hmod
    omega

/-- Of two pages that do not overlap none is on the way to the other. -/
theorem Disjoint.not_suffix {span other : PageSpan} (hdisjoint : span.Disjoint other)
    (halign : span.Aligned) (hother : other.Aligned) : ¬span.path <:+ other.path := by
  intro hsuf
  obtain ⟨m, hm, hpath⟩ := suffix_pathTo_iff.mp hsuf
  have hlen : 4 - span.size.level = m := by
    simpa [path] using congrArg List.length hpath
  have hcov : span.Covers other.virtAddr :=
    (covers_iff halign hother.canonical).mpr (by rw [hlen, hpath])
  refine hdisjoint other.virtAddr ⟨hcov, le_refl _, ?_⟩
  have : 0 < other.size.bytes := Nat.two_pow_pos _
  omega

theorem Disjoint.symm {span other : PageSpan} (h : span.Disjoint other) : other.Disjoint span :=
  fun addr ha => h addr ha.symm

end PageSpan

/-- A call of a mapping function. -/
structure MapCall extends PageSpan where
  frame : ℕ
  flags : BitVec 64

namespace MapCall

def run (vm : Vmem) (call : MapCall) (k : Kernel) : Except Panic (Int × Kernel) :=
  match call.size with
  | .page => vmemMapPage vm call.virtAddr call.frame call.flags k
  | .page2mb => vmemMapPage2mb vm call.virtAddr call.frame call.flags k
  | .page1gb => vmemMapPage1gb vm call.virtAddr call.frame call.flags k

/-- A canonical address and a physical address, both aligned. -/
structure Legal (call : MapCall) : Prop where
  aligned : call.toPageSpan.Aligned
  frame_dvd : call.size.bytes ∣ call.frame
  frame_lt : call.frame < 2 ^ 48

def leaf (call : MapCall) : Leaf := ⟨call.frame, rightsOf call.flags⟩

end MapCall

/-! ## The functions are one -/

/-- The common frame of the mapping functions: make the tables down to `q`, then go on
with the last one. -/
def ensureThen (pml4 : ℕ) (flags : BitVec 64) (q : Path) (k : Kernel)
    (next : ℕ → Kernel → Except Panic (Int × Kernel)) : Except Panic (Int × Kernel) :=
  if (ensureTo pml4 flags q k).1 = 0 then .ok (-enomem, (ensureTo pml4 flags q k).2)
  else next (ensureTo pml4 flags q k).1 (ensureTo pml4 flags q k).2

theorem ensureThen_nil {pml4 : ℕ} (hpml4 : pml4 ≠ 0) (flags : BitVec 64) (k : Kernel)
    (next : ℕ → Kernel → Except Panic (Int × Kernel)) :
    ensureThen pml4 flags [] k next = next pml4 k := by
  rw [ensureThen, ensureTo, if_neg hpml4]

theorem ensureThen_cons (pml4 i : ℕ) (flags : BitVec 64) (q : Path) (k : Kernel)
    (next : ℕ → Kernel → Except Panic (Int × Kernel)) :
    ensureThen pml4 flags (i :: q) k next = ensureThen pml4 flags q k fun t k =>
      if (vmemEnsureNextTable k t i flags).1 = 0 then
        .ok (-enomem, (vmemEnsureNextTable k t i flags).2)
      else next (vmemEnsureNextTable k t i flags).1 (vmemEnsureNextTable k t i flags).2 := by
  rw [ensureThen, ensureThen, ensureTo]
  by_cases hzero : (ensureTo pml4 flags q k).1 = 0
  · simp [hzero]
  · simp [hzero]

section Equations

variable {vm : Vmem} {virtAddr frame : ℕ} (hpml4 : vm.pml4 ≠ 0)

include hpml4

theorem vmemMapPage_eq (hvirt : maskDown virtAddr pageSize = virtAddr)
    (hframe : maskDown frame pageSize = frame) (flags : BitVec 64) (k : Kernel) :
    vmemMapPage vm virtAddr frame flags k =
      ensureThen vm.pml4 (rightsOf flags).pte (pathTo virtAddr 3) k fun pgtbl k => do
        kassert (entry k.mem pgtbl (tableIndex 0 virtAddr) &&& ptePresent = 0)
          "!(pgtbl->entries[PTE_FROM_ADDR(virt_addr)] & PTE_PRESENT)"
        return (0, setEntry k pgtbl (tableIndex 0 virtAddr)
          (BitVec.ofNat 64 frame ||| ptePresent ||| (rightsOf flags).pte)) := by
  rw [pathTo, pathTo, pathTo, pathTo, ensureThen_cons, ensureThen_cons, ensureThen_cons,
    ensureThen_nil hpml4, vmemMapPage, kassert_of_true hvirt, ok_bind, kassert_of_true hframe,
    ok_bind, vmemConvertFlags_eq]
  rfl

theorem vmemMapPage2mb_eq (hvirt : maskDown virtAddr (2 ^ 21) = virtAddr)
    (hframe : maskDown frame (2 ^ 21) = frame) (flags : BitVec 64) (k : Kernel) :
    vmemMapPage2mb vm virtAddr frame flags k =
      ensureThen vm.pml4 (rightsOf flags).pte (pathTo virtAddr 2) k fun pgdir k => do
        kassert (entry k.mem pgdir (tableIndex 1 virtAddr) &&& ptePresent = 0 ∧
            entry k.mem pgdir (tableIndex 1 virtAddr) &&& ptePageSize = 0)
          "!(pde & PTE_PRESENT) && !(pde & PTE_PAGE_SIZE)"
        return (0, setEntry k pgdir (tableIndex 1 virtAddr)
          (BitVec.ofNat 64 frame ||| ptePresent ||| ptePageSize ||| (rightsOf flags).pte)) := by
  rw [pathTo, pathTo, pathTo, ensureThen_cons, ensureThen_cons, ensureThen_nil hpml4,
    vmemMapPage2mb, kassert_of_true hvirt, ok_bind, kassert_of_true hframe, ok_bind,
    vmemConvertFlags_eq]
  rfl

theorem vmemMapPage1gb_eq (hvirt : maskDown virtAddr (2 ^ 30) = virtAddr)
    (hframe : maskDown frame (2 ^ 30) = frame) (flags : BitVec 64) (k : Kernel) :
    vmemMapPage1gb vm virtAddr frame flags k =
      ensureThen vm.pml4 (rightsOf flags).pte (pathTo virtAddr 1) k fun pdpt k => do
        kassert (¬(entry k.mem pdpt (tableIndex 2 virtAddr) &&& ptePresent ≠ 0 ∧
            entry k.mem pdpt (tableIndex 2 virtAddr) &&& ptePageSize = 0))
          "!((pdpe & PTE_PRESENT) && !(pdpe & PTE_PAGE_SIZE))"
        return (0, setEntry k pdpt (tableIndex 2 virtAddr)
          (BitVec.ofNat 64 frame ||| ptePresent ||| ptePageSize ||| (rightsOf flags).pte)) := by
  rw [pathTo, pathTo, ensureThen_cons, ensureThen_nil hpml4, vmemMapPage1gb, kassert_of_true hvirt,
    ok_bind, kassert_of_true hframe, ok_bind, vmemConvertFlags_eq]
  rfl

end Equations

namespace MapCall

/-- Where the entry of the page is still empty, every assertion about it holds, and the
three functions are one. -/
theorem run_eq_mapAt {vm : Vmem} {call : MapCall} {k : Kernel} (hpml4 : vm.pml4 ≠ 0)
    (hlegal : call.Legal)
    (hempty : (ensureTo vm.pml4 (rightsOf call.flags).pte call.path.tail k).1 = 0 ∨
      entry (ensureTo vm.pml4 (rightsOf call.flags).pte call.path.tail k).2.mem
        (ensureTo vm.pml4 (rightsOf call.flags).pte call.path.tail k).1
        (tableIndex call.size.level call.virtAddr) = 0) :
    call.run vm k = .ok (mapAt vm.pml4 call.path call.leaf k) := by
  have hvirt : call.virtAddr < 2 ^ 64 := by
    have := hlegal.aligned.canonical
    unfold Canonical at this
    omega
  have hframe : call.frame < 2 ^ 64 := lt_of_lt_of_le hlegal.frame_lt (by decide)
  have hvmask := (maskDown_two_pow_eq_self_iff hvirt).mpr hlegal.aligned.dvd
  have hfmask := (maskDown_two_pow_eq_self_iff hframe).mpr hlegal.frame_dvd
  obtain ⟨⟨size, virtAddr⟩, frame, flags⟩ := call
  unfold PageSpan.path leaf run at *
  cases size with
  | page =>
      have hpath : pathTo virtAddr (4 - 0) = tableIndex 0 virtAddr :: pathTo virtAddr 3 := rfl
      simp only [MapSize.level, hpath, List.tail_cons] at *
      rw [vmemMapPage_eq hpml4 hvmask hfmask, ensureThen, mapAt]
      simp only
      split_ifs with hzero
      · rfl
      · rw [kassert_of_true (by rw [hempty.resolve_left hzero]; rfl), ok_bind]
        simp [pteWord, pure, Except.pure]
  | page2mb =>
      have hpath : pathTo virtAddr (4 - 1) = tableIndex 1 virtAddr :: pathTo virtAddr 2 := rfl
      simp only [MapSize.level, hpath, List.tail_cons] at *
      rw [vmemMapPage2mb_eq hpml4 hvmask hfmask, ensureThen, mapAt]
      simp only
      split_ifs with hzero
      · rfl
      · rw [kassert_of_true (by rw [hempty.resolve_left hzero]; exact ⟨rfl, rfl⟩), ok_bind]
        simp [pteWord, pure, Except.pure]
  | page1gb =>
      have hpath : pathTo virtAddr (4 - 2) = tableIndex 2 virtAddr :: pathTo virtAddr 1 := rfl
      simp only [MapSize.level, hpath, List.tail_cons] at *
      rw [vmemMapPage1gb_eq hpml4 hvmask hfmask, ensureThen, mapAt]
      simp only
      split_ifs with hzero
      · rfl
      · rw [kassert_of_true (by rw [hempty.resolve_left hzero]; exact fun h => h.1 rfl), ok_bind]
        simp [pteWord, pure, Except.pure]

theorem path_eq_cons (call : MapCall) : call.path = tableIndex call.size.level call.virtAddr ::
    pathTo call.virtAddr (3 - call.size.level) := by
  have hlevel := PageSpan.level_le call.size
  rw [PageSpan.path, show 4 - call.size.level = 3 - call.size.level + 1 by omega, pathTo,
    show 3 - (3 - call.size.level) = call.size.level by omega]

/-- A legal call for a claimed path puts its page into the tree, or runs out of memory and
leaves every page as it was; with three frames at hand it is the former. -/
theorem run_claimed {vm : Vmem} {pt : PageTable} {claimed : Set Path} {call : MapCall} {k : Kernel}
    (h : pt.Valid vm.pml4 claimed k) (hlegal : call.Legal) (hmem : call.path ∈ claimed)
    (hnone : pt.leaf call.path = none) :
    ∃ res k' pt', call.run vm k = .ok (res, k') ∧ pt'.Valid vm.pml4 claimed k' ∧
      Grows pt k pt' k' ∧
      (res = 0 ∧ pt'.leaf = Function.update pt.leaf call.path (some call.leaf) ∨
        res = -enomem ∧ pt'.leaf = pt.leaf) ∧ (Plenty 3 k.frames → res = 0) := by
  obtain ⟨r, hroot⟩ := h.wf.root
  have hlevel := PageSpan.level_le call.size
  have hdvd : 2 ^ (12 + 9 * (4 - call.path.length)) ∣ call.leaf.frame ∧ call.leaf.frame < 2 ^ 48 := by
    rw [PageSpan.path, pathTo_length, show 4 - (4 - call.size.level) = call.size.level by omega]
    exact ⟨hlegal.frame_dvd, hlegal.frame_lt⟩
  have hrun := run_eq_mapAt (h.wf.isFrame hroot).ne_zero (k := k) hlegal
  rw [call.path_eq_cons] at hmem hnone hdvd hrun ⊢
  obtain ⟨_, -, -, -, hempty⟩ := ensureTo_new h hmem hnone (rightsOf call.flags)
  obtain ⟨pt', hvalid, hgrows, hres⟩ := mapAt_spec h hmem hnone hdvd
  exact ⟨_, _, pt', hrun (hempty.imp_right fun hmem => hmem.2.2), hvalid, hgrows, hres,
    fun hplenty => (mapAt_plenty (n := 0) h hmem hplenty).1⟩

/-- The same for a call on a new part of the address space. -/
theorem run_spec {vm : Vmem} {pt : PageTable} {claimed : Set Path} {call : MapCall} {k : Kernel}
    (h : pt.Valid vm.pml4 claimed k) (hlegal : call.Legal)
    (hnew : ∀ c ∈ claimed, ¬call.path <:+ c ∧ ¬c <:+ call.path) :
    ∃ res k' pt', call.run vm k = .ok (res, k') ∧ pt'.Valid vm.pml4 (insert call.path claimed) k' ∧
      Grows pt k pt' k' ∧
      (res = 0 ∧ pt'.leaf = Function.update pt.leaf call.path (some call.leaf) ∨
        res = -enomem ∧ pt'.leaf = pt.leaf) ∧ (Plenty 3 k.frames → res = 0) := by
  have hclaim : pt.Valid vm.pml4 (insert call.path claimed) k :=
    ⟨h.wf.claim call.path_length (fun j hj => pathTo_lt hj) hnew, h.rep, h.fresh⟩
  have hnone : pt.leaf call.path = none := by
    by_contra hsome
    exact (hnew _ (h.wf.leaf_claimed (Option.isSome_iff_ne_none.mpr hsome))).1 (List.suffix_refl _)
  exact run_claimed hclaim hlegal (Set.mem_insert _ _) hnone

/-- Each call takes three frames at most. -/
theorem run_claimed_plenty {vm : Vmem} {pt : PageTable} {claimed : Set Path} {call : MapCall} {k : Kernel}
    (h : pt.Valid vm.pml4 claimed k) (hlegal : call.Legal) (hmem : call.path ∈ claimed)
    (hnone : pt.leaf call.path = none) {n : ℕ} (hplenty : Plenty (n + 3) k.frames) :
    ∃ k', call.run vm k = .ok (0, k') ∧ Plenty n k'.frames := by
  obtain ⟨r, hroot⟩ := h.wf.root
  have hrun := run_eq_mapAt (h.wf.isFrame hroot).ne_zero (k := k) hlegal
  rw [call.path_eq_cons] at hmem hnone hrun
  obtain ⟨_, -, -, -, hempty⟩ := ensureTo_new h hmem hnone (rightsOf call.flags)
  obtain ⟨hzero, hrest⟩ := mapAt_plenty h hmem (l := call.leaf) hplenty
  refine ⟨_, (hrun (hempty.imp_right fun hmem => hmem.2.2)).trans ?_, hrest⟩
  rw [← hzero]

/-- The same on a new part of the address space. -/
theorem run_plenty {vm : Vmem} {pt : PageTable} {claimed : Set Path} {call : MapCall} {k : Kernel}
    (h : pt.Valid vm.pml4 claimed k) (hlegal : call.Legal)
    (hnew : ∀ c ∈ claimed, ¬call.path <:+ c ∧ ¬c <:+ call.path) {n : ℕ} (hplenty : Plenty (n + 3) k.frames) :
    ∃ k', call.run vm k = .ok (0, k') ∧ Plenty n k'.frames := by
  have hclaim : pt.Valid vm.pml4 (insert call.path claimed) k :=
    ⟨h.wf.claim call.path_length (fun j hj => pathTo_lt hj) hnew, h.rep, h.fresh⟩
  have hnone : pt.leaf call.path = none := by
    by_contra hsome
    exact (hnew _ (h.wf.leaf_claimed (Option.isSome_iff_ne_none.mpr hsome))).1 (List.suffix_refl _)
  exact run_claimed_plenty hclaim hlegal (Set.mem_insert _ _) hnone hplenty

theorem run_enough {vm : Vmem} {pt : PageTable} {claimed : Set Path} {call : MapCall} {k k' : Kernel} {res : Int}
    (h : pt.Valid vm.pml4 claimed k) (hlegal : call.Legal)
    (hnew : ∀ c ∈ claimed, ¬call.path <:+ c ∧ ¬c <:+ call.path) (hcall : call.run vm k = .ok (res, k')) {n : ℕ}
    (hplenty : Plenty (n + 3) k.frames) : res = 0 ∧ Plenty n k'.frames := by
  obtain ⟨k1, hrun, hrest⟩ := run_plenty h hlegal hnew hplenty
  obtain ⟨rfl, rfl⟩ := Prod.mk.inj (Except.ok.inj (hcall.symm.trans hrun))
  exact ⟨rfl, hrest⟩

end MapCall

/-! ## The walk -/

theorem decide_flag {x : BitVec 64} {b : Bool} (h : x = 0 ↔ b = false) : decide (x ≠ 0) = b := by
  cases b with
  | false => simpa using h.mpr rfl
  | true => simpa using h.not.mpr Bool.noConfusion

section Walk

variable {pt : PageTable} {pml4 : ℕ} {claimed : Set Path} {m : Mem}
  (hwf : pt.WellFormed pml4 claimed) (hrep : pt.Represents m)

include hwf

/-- The entry of a page, as the walk reads it. -/
theorem leaf_word_reads {q : Path} {l : Leaf} (hleaf : pt.leaf q = some l) :
    pt.word q &&& ptePresent ≠ 0 ∧ (pt.word q &&& ptePageSize = 0 ↔ ¬q.length < 4) ∧
      pteAddr (pt.word q) = l.frame ∧ decide (pt.word q &&& pteUser ≠ 0) = l.rights.user ∧
      decide (pt.word q &&& pteWriteable ≠ 0) = l.rights.write ∧
      decide (pt.word q &&& pteAlloc ≠ 0) = l.rights.alloc := by
  have hdvd := hwf.leaf_dvd hleaf
  have hlt := (hwf.leaf_frame hleaf).2
  rw [hwf.word_of_leaf hleaf]
  refine ⟨pteWord_and_present _ _ _, ?_, pteAddr_pteWord hdvd hlt _ _, ?_, ?_, ?_⟩
  · rw [pteWord_and_pageSize hdvd hlt, decide_eq_false_iff_not]
  · exact decide_flag (pteWord_and_user hdvd hlt _ _)
  · exact decide_flag (pteWord_and_write hdvd hlt _ _)
  · exact decide_flag (pteWord_and_alloc hdvd hlt _ _)

/-- The entry of a table, as the walk reads it. -/
theorem table_word_reads {q : Path} {t : ℕ} {r : Rights} (htable : pt.table q = some (t, r)) :
    pt.word q &&& ptePresent ≠ 0 ∧ pt.word q &&& ptePageSize = 0 ∧
      physToVirt (pteAddr (pt.word q)) = t ∧ decide (pt.word q &&& pteUser ≠ 0) = r.user ∧
      decide (pt.word q &&& pteWriteable ≠ 0) = r.write := by
  have hframe := hwf.isFrame htable
  have hdvd := hframe.dvd_virtToPhys
  have hlt := hframe.virtToPhys_lt
  rw [WellFormed.word_of_table htable]
  refine ⟨pteWord_and_present _ _ _, (pteWord_and_pageSize hdvd hlt _ _).mpr rfl, ?_, ?_, ?_⟩
  · rw [pteAddr_pteWord hdvd hlt, hframe.physToVirt_virtToPhys]
  · exact decide_flag (pteWord_and_user hdvd hlt _ _)
  · exact decide_flag (pteWord_and_write hdvd hlt _ _)

include hrep

/-- From a table on the way to a page, the walk ends at the page. -/
theorem walkFrom_of_leaf {addr n : ℕ} {l : Leaf} (hleaf : pt.leaf (pathTo addr n) = some l)
    {level t : ℕ} {r : Rights} (user write : Bool) (hlevel : level ≤ 3) (hn : 3 - level < n)
    (htable : pt.table (pathTo addr (3 - level)) = some (t, r)) :
    walkFrom m addr level t user write =
      some ⟨l.frame + addr % 2 ^ (12 + 9 * (4 - n)), 4 - n,
        ⟨user && l.rights.user, write && l.rights.write, l.rights.alloc⟩⟩ := by
  have hlen := hwf.claimed_length (hwf.leaf_claimed (q := pathTo addr n) (by rw [hleaf]; rfl))
  rw [pathTo_length] at hlen
  have hdvd := (hwf.leaf_frame hleaf).1
  rw [pathTo_length] at hdvd
  induction level generalizing t r user write with
  | zero =>
      obtain rfl : n = 4 := by omega
      have hentry := hrep _ t r htable _ (tableIndex_lt 0 addr)
      obtain ⟨hpresent, -, haddr, huser, hwrite, halloc⟩ := leaf_word_reads hwf hleaf
      rw [show tableIndex 0 addr :: pathTo addr (3 - 0) = pathTo addr 4 from rfl] at hentry
      rw [walkFrom]
      simp only [hentry, hpresent, haddr, huser, hwrite, halloc, if_false]
      rw [Nat.div_mul_cancel hdvd]
  | succ level ih =>
      have hentry := hrep _ t r htable _ (tableIndex_lt (level + 1) addr)
      have hpath : tableIndex (level + 1) addr :: pathTo addr (3 - (level + 1)) =
          pathTo addr (3 - level) := by
        rw [show 3 - level = 3 - (level + 1) + 1 by omega, pathTo,
          show 3 - (3 - (level + 1)) = level + 1 by omega]
      rw [hpath] at hentry
      by_cases hhere : 3 - level = n
      · obtain ⟨hpresent, hsize, haddr, huser, hwrite, halloc⟩ := leaf_word_reads hwf hleaf
        rw [pathTo_length] at hsize
        have hlarge : pt.word (pathTo addr n) &&& ptePageSize ≠ 0 ∧ level < 2 :=
          ⟨fun hzero => hsize.mp hzero (by omega), by omega⟩
        have hln : 4 - n = level + 1 := by omega
        rw [hhere] at hentry
        rw [hln] at hdvd ⊢
        rw [walkFrom]
        simp only [hentry, haddr, huser, hwrite, halloc]
        rw [if_neg hpresent, if_pos hlarge, Nat.div_mul_cancel hdvd]
      · have hsuf : pathTo addr (3 - level) <:+ pathTo addr n :=
          suffix_pathTo_iff.mpr ⟨_, by omega, rfl⟩
        have hne : pathTo addr (3 - level) ≠ pathTo addr n := fun heq =>
          hhere (by simpa using congrArg List.length heq)
        obtain ⟨⟨t', r'⟩, hnext⟩ :=
          Option.isSome_iff_exists.mp (hwf.table_of_suffix_leaf hleaf hsuf hne)
        have hle := hwf.rights hnext (by
          rw [← List.length_pos_iff, pathTo_length]
          omega) hleaf hsuf
        obtain ⟨hpresent, hsize, haddr, huser, hwrite⟩ := table_word_reads hwf hnext
        have huserle : (r'.user && l.rights.user) = l.rights.user := by
          have := hle.1
          cases hu : l.rights.user <;> simp_all
        have hwritele : (r'.write && l.rights.write) = l.rights.write := by
          have := hle.2.1
          cases hw : l.rights.write <;> simp_all
        rw [walkFrom]
        simp only [hentry, haddr, huser, hwrite]
        rw [if_neg hpresent, if_neg (fun hlarge => hlarge.1 hsize), ih _ _ (by omega) (by omega) hnext,
          Bool.and_assoc, Bool.and_assoc, huserle, hwritele]

/-- Where no page is on the way, the walk ends without one. -/
theorem walkFrom_of_no_leaf {addr level t : ℕ} {r : Rights} (user write : Bool) (hlevel : level ≤ 3)
    (hnone : ∀ n, 3 - level < n → n ≤ 4 → pt.leaf (pathTo addr n) = none)
    (htable : pt.table (pathTo addr (3 - level)) = some (t, r)) :
    walkFrom m addr level t user write = none := by
  induction level generalizing t r user write with
  | zero =>
      have hentry := hrep _ t r htable _ (tableIndex_lt 0 addr)
      rw [show tableIndex 0 addr :: pathTo addr (3 - 0) = pathTo addr 4 from rfl] at hentry
      have hnotable : pt.table (pathTo addr 4) = none := by
        by_contra htable
        have := hwf.table_length (Option.isSome_iff_ne_none.mpr htable)
        simp at this
      rw [WellFormed.word_of_none hnotable (hnone 4 (by omega) (by omega))] at hentry
      rw [walkFrom]
      simp only [hentry]
      rw [if_pos (by simp)]
  | succ level ih =>
      have hentry := hrep _ t r htable _ (tableIndex_lt (level + 1) addr)
      have hpath : tableIndex (level + 1) addr :: pathTo addr (3 - (level + 1)) =
          pathTo addr (3 - level) := by
        rw [show 3 - level = 3 - (level + 1) + 1 by omega, pathTo,
          show 3 - (3 - (level + 1)) = level + 1 by omega]
      rw [hpath] at hentry
      cases hnext : pt.table (pathTo addr (3 - level)) with
      | none =>
          rw [WellFormed.word_of_none hnext (hnone _ (by omega) (by omega))] at hentry
          rw [walkFrom]
          simp only [hentry]
          rw [if_pos (by simp)]
      | some next =>
          obtain ⟨t', r'⟩ := next
          obtain ⟨hpresent, hsize, haddr, -, -⟩ := table_word_reads hwf hnext
          rw [walkFrom]
          simp only [hentry, haddr]
          rw [if_neg hpresent, if_neg (fun hlarge => hlarge.1 hsize)]
          exact ih _ _ (by omega) (fun n hn => hnone n (by omega)) hnext

/-- The walk of an address whose way meets a page. -/
theorem walk_of_leaf {addr n : ℕ} {l : Leaf} (hleaf : pt.leaf (pathTo addr n) = some l) :
    walk m pml4 addr = some ⟨l.frame + addr % 2 ^ (12 + 9 * (4 - n)), 4 - n, l.rights⟩ := by
  obtain ⟨r, hroot⟩ := hwf.root
  have hlen := hwf.claimed_length (hwf.leaf_claimed (q := pathTo addr n) (by rw [hleaf]; rfl))
  rw [pathTo_length] at hlen
  rw [walk, walkFrom_of_leaf hwf hrep hleaf true true (le_refl 3) (by omega) hroot]
  rfl

/-- The walk of any other address. -/
theorem walk_of_no_leaf {addr : ℕ} (hnone : ∀ n ≤ 4, pt.leaf (pathTo addr n) = none) :
    walk m pml4 addr = none := by
  obtain ⟨r, hroot⟩ := hwf.root
  exact walkFrom_of_no_leaf hwf hrep true true (le_refl 3) (fun n _ hn => hnone n hn) hroot

/-- An address that is mapped meets a page on its way. -/
theorem exists_leaf_of_walk {addr : ℕ} {tr : Translation} (hwalk : walk m pml4 addr = some tr) :
    ∃ n, (pt.leaf (pathTo addr n)).isSome ∧ tr.level = 4 - n ∧ 2 ≤ n ∧ n ≤ 4 := by
  by_cases hnone : ∀ n ≤ 4, pt.leaf (pathTo addr n) = none
  · rw [walk_of_no_leaf hwf hrep hnone] at hwalk
    cases hwalk
  · obtain ⟨n, hn⟩ := not_forall.mp hnone
    obtain ⟨-, hsome⟩ := Classical.not_imp.mp hn
    obtain ⟨l, hl⟩ := Option.ne_none_iff_exists'.mp hsome
    have hleaf : (pt.leaf (pathTo addr n)).isSome := by rw [hl]; rfl
    have hlen := hwf.claimed_length (hwf.leaf_claimed hleaf)
    rw [pathTo_length] at hlen
    rw [walk_of_leaf hwf hrep hl] at hwalk
    exact ⟨n, hleaf, by rw [← Option.some.inj hwalk], hlen⟩

end Walk

/-! ## Runs -/

/-- The answers of `frame_alloc`: different frames of the direct mapping, or `NULL`. -/
def FreshFrames (frames : List (Option ℕ)) : Prop :=
  (frames.filterMap id).Nodup ∧ ∀ f, some f ∈ frames → IsFrame f

theorem PageTable.Valid.freshFrames {pt : PageTable} {pml4 : ℕ} {claimed : Set Path} {k : Kernel}
    (h : pt.Valid pml4 claimed k) : FreshFrames k.frames := ⟨h.fresh.1, fun f hf => (h.fresh.2 f hf).1⟩

/-- The tree of a new address space. -/
def emptyTable (pml4 : ℕ) : PageTable where
  table q := if q = [] then some (pml4, ⟨false, false, false⟩) else none
  leaf _ := none

theorem emptyTable_cases {pml4 : ℕ} {q : Path} {t : ℕ} {r : Rights}
    (h : (emptyTable pml4).table q = some (t, r)) : q = [] ∧ t = pml4 := by
  simp only [emptyTable] at h
  split_ifs at h with hq
  exact ⟨hq, (Prod.mk.inj (Option.some.inj h)).1.symm⟩

theorem emptyTable_wellFormed {pml4 : ℕ} (hframe : IsFrame pml4) :
    (emptyTable pml4).WellFormed pml4 ∅ where
  root := ⟨_, rfl⟩
  isFrame h := (emptyTable_cases h).2 ▸ hframe
  inj h h' := (emptyTable_cases h).1.trans (emptyTable_cases h').1.symm
  table_suffix := by
    intro p q hq hsuf
    obtain ⟨⟨t, r⟩, hq⟩ := Option.isSome_iff_exists.mp hq
    obtain rfl := (emptyTable_cases hq).1
    rw [List.eq_nil_of_suffix_nil hsuf]
    rfl
  table_claimed := by
    intro q hq
    obtain ⟨⟨t, r⟩, hq⟩ := Option.isSome_iff_exists.mp hq
    exact Or.inl (emptyTable_cases hq).1
  leaf_claimed h := by cases h
  leaf_parent h := by cases h
  leaf_frame h := by cases h
  rights _ _ h := by cases h
  claimed_length h := absurd h (Set.notMem_empty _)
  claimed_lt h := absurd h (Set.notMem_empty _)
  antichain := Set.pairwise_empty _

theorem objectAlloc_eq (k : Kernel) :
    (objectAlloc k).2 = { k with objects := (objectAlloc k).2.objects } := by
  unfold objectAlloc
  split <;> rfl

/-- What `vmem_init` leaves behind when it succeeds. -/
theorem vmemInit_spec {k k' : Kernel} {vm : Vmem} (hfresh : FreshFrames k.frames)
    (hinit : vmemInit k = (0, vm, k')) :
    (emptyTable vm.pml4).Valid vm.pml4 ∅ k' ∧ vm.areas = [] ∧
      k.frames = some vm.pml4 :: k'.frames ∧
      (∀ a, ¬InFrame vm.pml4 a → k'.mem a = k.mem a) ∧
      k'.litter = k.litter ∧ k'.trace = k.trace ∧ ∀ g ∈ k'.freed, g ∈ k.freed ∧ g ≠ vm.pml4 := by
  obtain ⟨hnodup, hframe⟩ := hfresh
  unfold vmemInit at hinit
  match hframes : k.frames with
  | [] =>
      rw [show frameAlloc k = (0, k) by rw [frameAlloc, hframes]] at hinit
      cases hinit
  | none :: frames =>
      rw [show frameAlloc k = (0, { k with frames := frames }) by rw [frameAlloc, hframes]] at hinit
      cases hinit
  | some f :: frames =>
      have hf : IsFrame f := hframe f (by rw [hframes]; exact List.mem_cons_self)
      rw [show frameAlloc k = (f, { k with
          mem := k.mem.memset f 0 pageSize, frames := frames, freed := k.freed.filter (· ≠ f) }) by
        rw [frameAlloc, hframes]] at hinit
      simp only [if_neg hf.ne_zero] at hinit
      split_ifs at hinit with hobj
      swap
      · exact absurd (Prod.mk.inj hinit).1 (by decide)
      obtain ⟨-, hinit⟩ := Prod.mk.inj hinit
      obtain ⟨rfl, hk⟩ := Prod.mk.inj hinit
      rw [objectAlloc_eq] at hk
      subst hk
      rw [hframes] at hnodup hframe
      obtain ⟨hnew, hnodup⟩ := List.nodup_cons.mp hnodup
      refine ⟨⟨emptyTable_wellFormed hf, fun q t r hq i hi => ?_, hnodup, fun g hg => ?_⟩, rfl, rfl,
        fun a ha => ?_, rfl, rfl, fun g hg => ?_⟩
      · obtain ⟨rfl, rfl⟩ := emptyTable_cases hq
        have hpage : t + 8 * i + 8 ≤ t + pageSize := by
          unfold pageSize
          omega
        rw [WellFormed.word_of_none rfl rfl]
        exact Mem.loadWord_memset_zero _ (Nat.le_add_right _ _) hpage
      · refine ⟨hframe g (List.mem_cons_of_mem _ hg), fun q r hq => ?_⟩
        obtain ⟨-, rfl⟩ := emptyTable_cases hq
        exact hnew (List.mem_filterMap.mpr ⟨some g, hg, rfl⟩)
      · have hout : a < f ∨ f + pageSize ≤ a := by
          by_contra hin
          exact ha (show f ≤ a ∧ a < f + pageSize by omega)
        exact Mem.memset_of_outside _ _ hout
      · simpa using hg

/-- A mapping call and what it returned. -/
abbrev MapLabel := MapCall × Int

def MapStep (vm : Vmem) (k : Kernel) (label : MapLabel) (k' : Kernel) : Prop :=
  label.1.run vm k = .ok (label.2, k')

/-- The paths of the calls made so far. -/
def claims (labels : List MapLabel) : Set Path := {c | ∃ x ∈ labels, x.1.path = c}

theorem claims_append (labels : List MapLabel) (label : MapLabel) :
    claims (labels ++ [label]) = insert label.1.path (claims labels) := by
  ext c
  simp only [claims, Set.mem_ofPred_eq, List.mem_append, List.mem_singleton, Set.mem_insert_iff]
  constructor
  · rintro ⟨x, hx | rfl, rfl⟩
    · exact Or.inr ⟨x, hx, rfl⟩
    · exact Or.inl rfl
  · rintro (rfl | ⟨x, hx, rfl⟩)
    · exact ⟨label, Or.inr rfl, rfl⟩
    · exact ⟨x, Or.inl hx, rfl⟩

/-- A call apart from all earlier ones leads to a path apart from theirs. -/
theorem claims_not_suffix {labels : List MapLabel} {call : MapCall}
    (hlegals : ∀ x ∈ labels, x.1.Legal) (hlegal : call.Legal)
    (hdisjoint : ∀ x ∈ labels, x.1.toPageSpan.Disjoint call.toPageSpan) :
    ∀ c ∈ claims labels, ¬call.path <:+ c ∧ ¬c <:+ call.path := by
  rintro c ⟨x, hx, rfl⟩
  exact ⟨(hdisjoint x hx).symm.not_suffix hlegal.aligned (hlegals x hx).aligned,
    (hdisjoint x hx).not_suffix (hlegals x hx).aligned hlegal.aligned⟩

/-- After any sequence of calls the tree holds the pages of those that returned 0. -/
theorem map_run_tree {vm : Vmem} {k k' : Kernel} {labels : List MapLabel}
    (hstart : (emptyTable vm.pml4).Valid vm.pml4 ∅ k) (hrun : Run (MapStep vm) k labels k')
    (hlegal : ∀ x ∈ labels, x.1.Legal)
    (hdisjoint : labels.Pairwise fun x y => x.1.toPageSpan.Disjoint y.1.toPageSpan) :
    ∃ pt : PageTable, pt.Valid vm.pml4 (claims labels) k' ∧
      (∀ x ∈ labels, x.2 = 0 → pt.leaf x.1.path = some x.1.leaf) ∧
      ∀ q, (pt.leaf q).isSome → ∃ x ∈ labels, x.2 = 0 ∧ x.1.path = q := by
  induction hrun with
  | nil =>
      have hnone : claims [] = ∅ := by simp [claims]
      exact ⟨emptyTable vm.pml4, hnone ▸ hstart, by simp, fun q hq => by cases hq⟩
  | @snoc labels k1 k2 label hrun hstep ih =>
      obtain ⟨hpair, -, hlast⟩ := List.pairwise_append.mp hdisjoint
      have hlegals : ∀ x ∈ labels, x.1.Legal := fun x hx => hlegal x (List.mem_append_left _ hx)
      have hlabel : label.1.Legal := hlegal label (by simp)
      obtain ⟨pt, hvalid, hleaf, honly⟩ := ih hlegals hpair
      have hnew := claims_not_suffix hlegals hlabel fun x hx => hlast x hx label (by simp)
      obtain ⟨res, k3, pt', hcall, hvalid', -, hres, -⟩ := MapCall.run_spec hvalid hlabel hnew
      obtain ⟨hres2, rfl⟩ := Prod.mk.inj (Except.ok.inj (hstep.symm.trans hcall))
      rw [← claims_append] at hvalid'
      have hold {x : MapLabel} (hx : x ∈ labels) : x.1.path ≠ label.1.path := fun heq =>
        (hnew _ ⟨x, hx, rfl⟩).1 (heq ▸ List.suffix_refl _)
      refine ⟨pt', hvalid', fun x hx hzero => ?_, fun q hq => ?_⟩
      · rcases List.mem_append.mp hx with hx | hx
        · rcases hres with ⟨-, hpt⟩ | ⟨-, hpt⟩
          · rw [hpt, Function.update_of_ne (hold hx), hleaf x hx hzero]
          · rw [hpt, hleaf x hx hzero]
        · obtain rfl := List.mem_singleton.mp hx
          rcases hres with ⟨-, hpt⟩ | ⟨henomem, -⟩
          · rw [hpt, Function.update_self]
          · rw [← hres2, hzero] at henomem
            exact absurd henomem (by decide)
      · rcases hres with ⟨hzero, hpt⟩ | ⟨-, hpt⟩
        · by_cases hq' : q = label.1.path
          · exact ⟨label, by simp, hres2.trans hzero, hq'.symm⟩
          · rw [hpt, Function.update_of_ne hq'] at hq
            obtain ⟨x, hx, hx0⟩ := honly q hq
            exact ⟨x, List.mem_append_left _ hx, hx0⟩
        · rw [hpt] at hq
          obtain ⟨x, hx, hx0⟩ := honly q hq
          exact ⟨x, List.mem_append_left _ hx, hx0⟩

/-- The walk of an address depends on the pages on its way only. -/
theorem walk_congr_at {pt pt' : PageTable} {pml4 : ℕ} {claimed claimed' : Set Path} {k k' : Kernel}
    (h : pt.Valid pml4 claimed k) (h' : pt'.Valid pml4 claimed' k') {addr : ℕ}
    (hleaf : ∀ n ≤ 4, pt'.leaf (pathTo addr n) = pt.leaf (pathTo addr n)) :
    walk k'.mem pml4 addr = walk k.mem pml4 addr := by
  by_cases hnone : ∀ n ≤ 4, pt.leaf (pathTo addr n) = none
  · rw [walk_of_no_leaf h.wf h.rep hnone,
      walk_of_no_leaf h'.wf h'.rep fun n hn => (hleaf n hn).trans (hnone n hn)]
  · obtain ⟨n, hn⟩ := not_forall.mp hnone
    obtain ⟨hle, hsome⟩ := Classical.not_imp.mp hn
    obtain ⟨l, hl⟩ := Option.ne_none_iff_exists'.mp hsome
    rw [walk_of_leaf h.wf h.rep hl, walk_of_leaf h'.wf h'.rep ((hleaf n hle).trans hl)]

theorem walk_congr {pt pt' : PageTable} {pml4 : ℕ} {claimed claimed' : Set Path} {k k' : Kernel}
    (h : pt.Valid pml4 claimed k) (h' : pt'.Valid pml4 claimed' k') (hleaf : pt'.leaf = pt.leaf)
    (addr : ℕ) : walk k'.mem pml4 addr = walk k.mem pml4 addr :=
  walk_congr_at h h' fun _ _ => by rw [hleaf]

section MapRun

variable {vm : Vmem} {k k' : Kernel} {labels : List MapLabel} (hstart : (emptyTable vm.pml4).Valid vm.pml4 ∅ k)
  (hrun : Run (MapStep vm) k labels k') (hlegal : ∀ x ∈ labels, x.1.Legal)
  (hdisjoint : labels.Pairwise fun x y => x.1.toPageSpan.Disjoint y.1.toPageSpan)

include hstart hrun hlegal hdisjoint

/-- The walk of an address in the page of a call that returned 0. -/
theorem map_run_covered {x : MapLabel} (hx : x ∈ labels) (hzero : x.2 = 0) {addr : ℕ} (hcov : x.1.Covers addr) :
    walk k'.mem vm.pml4 addr =
      some ⟨x.1.frame + (addr - x.1.virtAddr), x.1.size.level, rightsOf x.1.flags⟩ := by
  obtain ⟨pt, hvalid, hleaf, -⟩ := map_run_tree hstart hrun hlegal hdisjoint
  have hpath := (PageSpan.covers_iff (hlegal x hx).aligned (hcov.canonical (hlegal x hx).aligned)).mp hcov
  have hlevel := PageSpan.level_le x.1.size
  have hmod : addr % x.1.size.bytes = addr - x.1.virtAddr := by
    obtain ⟨b, hb⟩ := (hlegal x hx).aligned.dvd
    obtain ⟨hlo, hhi⟩ := hcov
    rw [show addr = addr - x.1.virtAddr + x.1.size.bytes * b by omega, Nat.add_mul_mod_self_left,
      Nat.mod_eq_of_lt (by omega)]
    omega
  rw [walk_of_leaf hvalid.wf hvalid.rep (hpath ▸ hleaf x hx hzero),
    show 4 - (4 - x.1.size.level) = x.1.size.level by omega, ← MapSize.bytes, hmod]
  rfl

/-- The walk of an address in no such page. -/
theorem map_run_uncovered {addr : ℕ} (haddr : Canonical addr) (hnone : ∀ x ∈ labels, x.2 = 0 → ¬x.1.Covers addr) :
    walk k'.mem vm.pml4 addr = none := by
  obtain ⟨pt, hvalid, -, honly⟩ := map_run_tree hstart hrun hlegal hdisjoint
  refine walk_of_no_leaf hvalid.wf hvalid.rep fun n hn => ?_
  by_contra hsome
  obtain ⟨x, hx, hzero, hpath⟩ := honly _ (Option.isSome_iff_ne_none.mpr hsome)
  have hlen : 4 - x.1.size.level = n := by
    simpa [PageSpan.path] using congrArg List.length hpath
  exact hnone x hx hzero ((PageSpan.covers_iff (hlegal x hx).aligned haddr).mpr (hlen ▸ hpath.symm))

end MapRun

/-- From a new address space on, after any sequence of calls whose pages do not overlap,
the walk of an address in the page of a call that returned 0 gives the frame of that call
with the rights of that call, and every other address is unmapped. The next call neither
panics nor, where it runs out of memory, changes the walk of any address. -/
theorem map_run_walk {vm : Vmem} {k0 k1 k : Kernel} {labels : List MapLabel}
    (hfresh : FreshFrames k0.frames) (hinit : vmemInit k0 = (0, vm, k1))
    (hrun : Run (MapStep vm) k1 labels k) (hlegal : ∀ x ∈ labels, x.1.Legal)
    (hdisjoint : labels.Pairwise fun x y => x.1.toPageSpan.Disjoint y.1.toPageSpan) :
    (∀ x ∈ labels, x.2 = 0 → ∀ addr, x.1.Covers addr →
      walk k.mem vm.pml4 addr =
        some ⟨x.1.frame + (addr - x.1.virtAddr), x.1.size.level, rightsOf x.1.flags⟩) ∧
    (∀ addr, Canonical addr → (∀ x ∈ labels, x.2 = 0 → ¬x.1.Covers addr) →
      walk k.mem vm.pml4 addr = none) ∧
    ∀ call : MapCall, call.Legal → (∀ x ∈ labels, x.1.toPageSpan.Disjoint call.toPageSpan) →
      ∃ res k', call.run vm k = .ok (res, k') ∧ (res = 0 ∨ res = -enomem) ∧
        (res = -enomem → ∀ addr, walk k'.mem vm.pml4 addr = walk k.mem vm.pml4 addr) := by
  have hstart := (vmemInit_spec hfresh hinit).1
  obtain ⟨pt, hvalid, -, -⟩ := map_run_tree hstart hrun hlegal hdisjoint
  refine ⟨fun x hx hzero addr hcov => ?_, fun addr haddr hnone => ?_, fun call hcall hnew => ?_⟩
  · exact map_run_covered hstart hrun hlegal hdisjoint hx hzero hcov
  · exact map_run_uncovered hstart hrun hlegal hdisjoint haddr hnone
  · obtain ⟨res, k', pt', hrun', hvalid', -, hres, -⟩ :=
      MapCall.run_spec hvalid hcall (claims_not_suffix hlegal hcall hnew)
    refine ⟨res, k', hrun', hres.imp And.left And.left, fun henomem => ?_⟩
    rcases hres with ⟨hzero, -⟩ | ⟨-, hpt⟩
    · rw [hzero] at henomem
      exact absurd henomem (by decide)
    · exact walk_congr hvalid hvalid' hpt

/-! One user page in a new address space. -/

/-- Four frames from the first megabyte of the direct mapping on. -/
def fourFrames : List (Option ℕ) :=
  [some 0xffff888000100000, some 0xffff888000101000, some 0xffff888000102000, some 0xffff888000103000]

theorem fourFrames_fresh : FreshFrames fourFrames := by
  refine ⟨by decide, fun f hf => ?_⟩
  simp only [fourFrames, List.mem_cons, Option.some.injEq, List.not_mem_nil, or_false] at hf
  rcases hf with rfl | rfl | rfl | rfl <;>
  · unfold IsFrame
    decide

def bootKernel : Kernel := ⟨fun _ => 0, fourFrames, [true], [], fun _ _ => 0, []⟩

/-- The first `n` frames from 1 GiB on. -/
def manyFrames (n : ℕ) : List (Option ℕ) := (List.range n).map fun i => some (physToVirt gb + pageSize * i)

theorem manyFrames_fresh {n : ℕ} (hn : n ≤ 2 ^ 32) : FreshFrames (manyFrames n) := by
  have hgb : physToVirt gb = directMapStart + gb := by decide
  constructor
  · have hsome : (manyFrames n).filterMap id = (List.range n).map fun i => physToVirt gb + pageSize * i := by
      simp [manyFrames, List.filterMap_map]
    rw [hsome]
    refine List.Nodup.map (fun i j hij => ?_) List.nodup_range
    simp only [pageSize] at hij
    omega
  · intro f hf
    obtain ⟨i, hi, hif⟩ := List.mem_map.mp hf
    have hlt := List.mem_range.mp hi
    obtain rfl := Option.some.inj hif
    rw [hgb]
    unfold IsFrame directMapStart gb pageSize
    omega

theorem manyFrames_plenty (n : ℕ) : Plenty n (manyFrames n) := by
  intro i hi
  exact ⟨physToVirt gb + pageSize * i, by simp [manyFrames, hi]⟩

/-- They lie above the first GiB. -/
theorem not_mem_manyFrames {phys n : ℕ} (hphys : phys < gb) : some (physToVirt phys) ∉ manyFrames n := by
  intro hmem
  obtain ⟨i, -, hi⟩ := List.mem_map.mp hmem
  have hlow : physToVirt phys < physToVirt gb := by
    unfold gb at hphys
    rw [physToVirt_of_lt (by unfold directMapStart; omega), physToVirt_of_lt (by decide)]
    unfold gb
    omega
  have heq := Option.some.inj hi
  omega

theorem manyFrames_succ (n : ℕ) : ∃ f rest, manyFrames (n + 1) = some f :: rest :=
  ⟨_, _, by rw [manyFrames, List.range_succ_eq_map, List.map_cons]⟩

/-- A kernel with these frames. -/
def kernelWith (frames : List (Option ℕ)) : Kernel := { bootKernel with frames := frames }

/-- With a frame and an object at hand `vmem_init` succeeds. -/
theorem vmemInit_of_available {k : Kernel} {f : ℕ} {frames : List (Option ℕ)} {objects : List Bool} (hf : IsFrame f)
    (hframes : k.frames = some f :: frames) (hobjects : k.objects = true :: objects) :
    ∃ k', vmemInit k = (0, ⟨[], f⟩, k') ∧ k'.frames = frames ∧ k'.objects = objects := by
  refine ⟨{ k with
    mem := k.mem.memset f 0 pageSize, frames := frames, freed := k.freed.filter (· ≠ f), objects := objects }, ?_, rfl, rfl⟩
  simp only [vmemInit, frameAlloc, hframes, if_neg hf.ne_zero, objectAlloc, hobjects]
  rfl

/-- A new address space with one page in it. -/
theorem fourFrames_map {k0 : Kernel} (hk0 : k0.frames = fourFrames) (hinit : (vmemInit k0).1 = 0)
    {call : MapCall} (hlegal : call.Legal) :
    ∃ (vm : Vmem) (k1 k : Kernel) (pt : PageTable), vmemInit k0 = (0, vm, k1) ∧
      call.run vm k1 = .ok (0, k) ∧ pt.Valid vm.pml4 {call.path} k ∧ Grows (emptyTable vm.pml4) k1 pt k ∧
      pt.leaf = Function.update (fun _ => none) call.path (some call.leaf) := by
  obtain ⟨vm, k1, hvm⟩ : ∃ vm k1, vmemInit k0 = (0, vm, k1) := by
    generalize vmemInit k0 = out at hinit
    obtain ⟨res, vm, k1⟩ := out
    exact ⟨vm, k1, by rw [← hinit]⟩
  obtain ⟨hvalid, -, hframes, -⟩ := vmemInit_spec (hk0 ▸ fourFrames_fresh) hvm
  have hplenty : Plenty 3 k1.frames := by
    obtain ⟨-, hrest⟩ := List.cons.inj (hframes.symm.trans hk0)
    rw [hrest]
    intro i hi
    obtain rfl | rfl | rfl : i = 0 ∨ i = 1 ∨ i = 2 := by omega
    · exact ⟨_, rfl⟩
    · exact ⟨_, rfl⟩
    · exact ⟨_, rfl⟩
  obtain ⟨res, k, pt, hcall, hvalid', hgrows, hleaf, hres⟩ := MapCall.run_spec hvalid hlegal (by simp)
  rw [hres hplenty] at hcall hleaf
  refine ⟨vm, k1, k, pt, hvm, hcall, by simpa using hvalid', hgrows, ?_⟩
  rcases hleaf with ⟨-, hleaf⟩ | ⟨henomem, -⟩
  · exact hleaf
  · exact absurd henomem (by decide)

def onePage : MapCall := ⟨⟨.page, 0x400000⟩, 0x1000, vmemUser⟩

theorem onePage_legal : onePage.Legal where
  aligned := ⟨by decide, by decide⟩
  frame_dvd := by decide
  frame_lt := by decide

theorem map_run_walk_onePage :
    ∃ vm k1 k, vmemInit bootKernel = (0, vm, k1) ∧ Run (MapStep vm) k1 [(onePage, 0)] k ∧
      walk k.mem vm.pml4 0x400123 = some ⟨0x1123, 0, ⟨true, false, false⟩⟩ := by
  obtain ⟨vm, k1, k, pt, hinit, hcall, -, -⟩ := @fourFrames_map bootKernel rfl rfl _ onePage_legal
  have hrun : Run (MapStep vm) k1 [(onePage, 0)] k := Run.single _ hcall
  refine ⟨vm, k1, k, hinit, hrun, ?_⟩
  have hwalk := (map_run_walk fourFrames_fresh hinit hrun (by simpa using onePage_legal)
    (List.pairwise_singleton _ _)).1 (onePage, 0) (by simp) rfl 0x400123
  exact hwalk (by unfold PageSpan.Covers; decide)

end HeavenOS
