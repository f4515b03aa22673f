/-
# No object is lost

The free objects and the objects in use are to be all that was carved from the pages of the
object allocator. Allocating keeps it so. `object_free` does not: it begins a new list, so what
was free before is neither free nor in use any more, and pages are requested that are not needed.
All is well in the runs in which objects are freed only while no other one is free.
-/

import HeavenOS.Mm.Obj

namespace HeavenOS

open Lib

/-! ## The objects of a page -/

/-- How many objects are carved from a page. -/
def perPage (objSize : ℕ) : ℕ := pageSize / stride objSize

/-- The objects carved from a page. -/
def slots (objSize page : ℕ) : List ℕ := (List.range (perPage objSize)).map fun i => page + i * stride objSize

/-- The objects carved from pages. -/
def carved (objSize : ℕ) (pages : List ℕ) : List ℕ := pages.flatMap (slots objSize)

theorem carved_cons (objSize page : ℕ) (pages : List ℕ) :
    carved objSize (page :: pages) = slots objSize page ++ carved objSize pages := List.flatMap_cons

theorem carved_length (objSize : ℕ) (pages : List ℕ) : (carved objSize pages).length = pages.length * perPage objSize := by
  induction pages with
  | nil => simp [carved]
  | cons page pages ih =>
      rw [carved_cons, List.length_append, ih, slots, List.length_map, List.length_range, List.length_cons, Nat.succ_mul,
        Nat.add_comm]

section Slots

variable {objSize : ℕ} (hpos : 1 ≤ objSize) (hmax : objSize ≤ pageSize)

include hpos hmax

theorem mem_slots {page a : ℕ} : a ∈ slots objSize page ↔ Slot objSize page a := by
  have hstride : 0 < stride objSize := by
    have := (stride_spec hpos hmax).2.2.1
    omega
  have hlt {i : ℕ} : i < perPage objSize ↔ i * stride objSize + stride objSize ≤ pageSize := by
    rw [perPage, Nat.lt_iff_add_one_le, Nat.le_div_iff_mul_le hstride, Nat.succ_mul]
  rw [slots, List.mem_map]
  constructor
  · rintro ⟨i, hi, rfl⟩
    have hroom := hlt.mp (List.mem_range.mp hi)
    refine ⟨Nat.le_add_right _ _, ?_, by omega⟩
    rw [Nat.add_sub_cancel_left]
    exact Nat.dvd_mul_left _ _
  · rintro ⟨hlo, ⟨i, hi⟩, hhi⟩
    rw [Nat.mul_comm] at hi
    exact ⟨i, List.mem_range.mpr (hlt.mpr (by omega)), by omega⟩

theorem slots_nodup (page : ℕ) : (slots objSize page).Nodup := by
  have hstride : 0 < stride objSize := by
    have := (stride_spec hpos hmax).2.2.1
    omega
  refine List.nodup_range.map fun i j hij => ?_
  exact Nat.eq_of_mul_eq_mul_right hstride (Nat.add_left_cancel hij)

theorem perPage_pos : 0 < perPage objSize := by
  obtain ⟨hline, -, hlink, hless⟩ := stride_spec hpos hmax
  have hpage : pageSize = 4096 := rfl
  have hlineSize : cacheLineSizeBytes = 64 := rfl
  refine Nat.div_pos ?_ (by omega)
  obtain ⟨w, hw⟩ := hline
  rw [hlineSize] at hw
  omega

end Slots

/-! ## Runs -/

/-- What may happen: a call, what happens between calls, and a call that needs a page and gets
none. -/
inductive OpStep (fuel : ℕ) : ObjState → ObjLabel → ObjState → Prop
  | step {s t : ObjState} {label : ObjLabel} (hstep : ObjStep fuel s label t) : OpStep fuel s label t
  | starve {s : ObjState} {obj : ℕ} {alloc : ObjAlloc} {k : Kernel} (hempty : s.alloc.nextFree = 0)
      (hnull : (frameAlloc s.k).1 = 0) (hcall : s.alloc.objectAlloc fuel s.k = .ok (some (obj, alloc, k))) :
      OpStep fuel s (.alloc obj) ⟨alloc, k, s.pages, if obj = 0 then s.live else obj :: s.live⟩

/-- A state, and the largest number of objects that have been in use at once. -/
structure Counted where
  s : ObjState
  peak : ℕ

def Counted.start (objSize : ℕ) (k : Kernel) : Counted := ⟨.start objSize k, 0⟩

def CountedStep (fuel : ℕ) (c : Counted) (label : ObjLabel) (d : Counted) : Prop :=
  OpStep fuel c.s label d.s ∧ d.peak = max c.peak d.s.live.length

theorem CountedStep.next {fuel : ℕ} {c : Counted} {label : ObjLabel} {t : ObjState} (h : OpStep fuel c.s label t) :
    CountedStep fuel c label ⟨t, max c.peak t.live.length⟩ := ⟨h, rfl⟩

/-- An object is freed while no other one is free, and a page that is needed is there. -/
def Careful (s : ObjState) : ObjLabel → Prop
  | .alloc _ => s.alloc.nextFree = 0 → (frameAlloc s.k).1 ≠ 0
  | .free _ => s.alloc.nextFree = 0
  | .other => True

def CarefulStep (fuel : ℕ) (c : Counted) (label : ObjLabel) (d : Counted) : Prop :=
  CountedStep fuel c label d ∧ Careful c.s label

/-- All that was carved is free or in use. -/
def Accounted (objSize : ℕ) (s : ObjState) : Prop :=
  ∃ nodes, FreeList s.k.mem s.alloc.nextFree nodes ∧ (s.live ++ nodes).Perm (carved objSize s.pages)

/-- All that was carved is free or in use, a page is requested only while all of it is in use,
and there are no more pages than the largest number of objects in use needs. -/
structure NothingLost (objSize : ℕ) (c : Counted) : Prop where
  accounted : Accounted objSize c.s
  requests : c.s.alloc.nextFree = 0 → c.s.live.Perm (carved objSize c.s.pages)
  pages : c.s.pages.length ≤ (c.peak + perPage objSize - 1) / perPage objSize

/-! ## The invariant -/

/-- The invariant of the allocator, for the list of the free objects, none of which is missing. -/
structure Complete (objSize : ℕ) (s : ObjState) (nodes : List ℕ) : Prop where
  inv : ObjInv objSize s nodes
  all : (s.live ++ nodes).Perm (carved objSize s.pages)

theorem Complete.start (objSize : ℕ) (k : Kernel) : Complete objSize (.start objSize k) [] :=
  ⟨⟨rfl, fun _ hp => (List.not_mem_nil hp).elim, FreeList.nil _, List.nodup_nil, fun _ ha => (List.not_mem_nil ha).elim⟩,
    List.Perm.refl _⟩

theorem Complete.accounted {objSize : ℕ} {s : ObjState} {nodes : List ℕ} (h : Complete objSize s nodes) :
    Accounted objSize s := ⟨nodes, h.inv.list, h.all⟩

/-- Without a free object, all that was carved is in use. -/
theorem Complete.all_live {objSize : ℕ} {s : ObjState} {nodes : List ℕ} (h : Complete objSize s nodes)
    (hempty : s.alloc.nextFree = 0) : s.live.Perm (carved objSize s.pages) := by
  have hlist := h.inv.list
  rw [hempty] at hlist
  have hall := h.all
  rwa [hlist.eq_nil_of_zero, List.append_nil] at hall

theorem freeList_objectFree {alloc alloc' : ObjAlloc} {obj : ℕ} {k k' : Kernel}
    (hcall : alloc.objectFree obj k = .ok (alloc', k')) : FreeList k'.mem alloc'.nextFree [obj] := by
  obtain ⟨_, hne, hret⟩ := bind_eq_ok.mp hcall
  have hobj := kassert_eq_ok_iff.mp hne
  cases hret
  exact (FreeList.nil _).push (by decide) hobj fun c hc => (List.not_mem_nil hc).elim

section Invariant

variable {objSize : ℕ} (hpos : 1 ≤ objSize) (hmax : objSize ≤ pageSize) {fuel : ℕ}
  (hfuel : pageSize < fuel * cacheLineSizeBytes)

include hpos hmax hfuel

/-- A careful step keeps the invariant. -/
theorem Complete.step {s t : ObjState} {label : ObjLabel} {nodes : List ℕ} (h : Complete objSize s nodes)
    (hcareful : Careful s label) (hstep : ObjStep fuel s label t) : ∃ nodes', Complete objSize t nodes' := by
  cases hstep with
  | other hmem => exact ⟨nodes, h.inv.other hpos hmax hmem, h.all⟩
  | reuse hfree hcall =>
      obtain ⟨nodes', hinv⟩ := (ObjStep.reuse hfree hcall).inv hpos hmax hfuel h.inv
      rw [h.inv.objectAlloc_reuse hmax hfree fuel] at hcall
      cases hcall
      obtain ⟨rest, rfl, hrest⟩ := h.inv.list.exists_cons hfree
      obtain rfl := hinv.list.unique hrest
      exact ⟨nodes', hinv, List.perm_middle.symm.trans h.all⟩
  | @refill obj page frames alloc k hempty hframes hframe hnew hcall =>
      obtain ⟨nodes', hinv⟩ := (ObjStep.refill hempty hframes hframe hnew hcall).inv hpos hmax hfuel h.inv
      obtain ⟨obj', rest, alloc', k', hcall', -, hlist, hnodup, hslots, -⟩ :=
        h.inv.objectAlloc_carves hpos hmax hempty hfuel hframes hframe
      rw [hcall'] at hcall
      cases hcall
      obtain rfl := hinv.list.unique hlist
      have hpage : (obj :: nodes').Perm (slots objSize page) := by
        refine (List.perm_ext_iff_of_nodup hnodup (slots_nodup hpos hmax page)).mpr fun a => ?_
        rw [hslots, mem_slots hpos hmax]
      refine ⟨nodes', hinv, ?_⟩
      show (obj :: (s.live ++ nodes')).Perm (carved objSize (page :: s.pages))
      rw [carved_cons]
      exact (List.perm_middle.symm.trans List.perm_append_comm).trans (hpage.append (h.all_live hempty))
  | @free obj alloc k hlive hcall =>
      obtain ⟨nodes', hinv⟩ := (ObjStep.free hlive hcall).inv hpos hmax hfuel h.inv
      obtain rfl := hinv.list.unique (freeList_objectFree hcall)
      exact ⟨[obj], hinv, (List.perm_append_comm.trans (List.perm_cons_erase hlive).symm).trans (h.all_live hcareful)⟩

/-- After an object was freed, the accounts are in order exactly if no other one was free. -/
theorem Complete.free_iff {s : ObjState} {nodes : List ℕ} (h : Complete objSize s nodes) {obj : ℕ} {alloc : ObjAlloc}
    {k : Kernel} (hlive : obj ∈ s.live) (hcall : s.alloc.objectFree obj s.k = .ok (alloc, k)) :
    Accounted objSize ⟨alloc, k, s.pages, s.live.erase obj⟩ ↔ s.alloc.nextFree = 0 := by
  constructor
  · rintro ⟨nodes', hlist, hperm⟩
    obtain rfl := hlist.unique (freeList_objectFree hcall)
    have hlength := hperm.length_eq.trans h.all.length_eq.symm
    rw [List.length_append, List.length_append, List.length_erase_of_mem hlive, List.length_singleton] at hlength
    have hsome := List.length_pos_of_mem hlive
    have hnil : nodes = [] := List.eq_nil_of_length_eq_zero (by omega)
    have hnext := h.inv.list
    rwa [hnil] at hnext
  · intro hempty
    have hcareful : Careful s (.free obj) := hempty
    obtain ⟨nodes', hdone⟩ := h.step hpos hmax hfuel hcareful (.free hlive hcall)
    exact hdone.accounted

omit hfuel in
/-- The number of pages is bounded by the number of objects in use when the last one was
requested. -/
theorem pages_bound {pages peak : ℕ} (h : pages * perPage objSize < peak + perPage objSize) :
    pages ≤ (peak + perPage objSize - 1) / perPage objSize := by
  rw [Nat.le_div_iff_mul_le (perPage_pos hpos hmax)]
  omega

/-- The objects in use have been counted, and each page was needed when it was requested. -/
structure PeakInv (objSize : ℕ) (c : Counted) : Prop where
  live : c.s.live.length ≤ c.peak
  pages : c.s.pages.length * perPage objSize < c.peak + perPage objSize

omit hpos hmax hfuel in
theorem PeakInv.mono {c d : Counted} (h : PeakInv objSize c) (hpages : d.s.pages = c.s.pages)
    (hpeak : d.peak = max c.peak d.s.live.length) : PeakInv objSize d := by
  refine ⟨by omega, ?_⟩
  have := h.pages
  rw [hpages]
  omega

theorem CarefulStep.inv {c d : Counted} {label : ObjLabel} {nodes : List ℕ} (hc : Complete objSize c.s nodes)
    (hpeak : PeakInv objSize c) (hstep : CarefulStep fuel c label d) :
    (∃ nodes', Complete objSize d.s nodes') ∧ PeakInv objSize d := by
  obtain ⟨⟨hop, hmax'⟩, hcareful⟩ := hstep
  obtain ⟨s, peak⟩ := c
  obtain ⟨t, peak'⟩ := d
  simp only at hc hop hmax' hcareful
  cases hop with
  | starve hempty hnull hcall => exact absurd hnull (hcareful hempty)
  | step hstep =>
      obtain ⟨nodes', hdone⟩ := hc.step hpos hmax hfuel hcareful hstep
      refine ⟨⟨nodes', hdone⟩, ?_⟩
      cases hstep with
      | reuse | free | other => exact hpeak.mono rfl hmax'
      | @refill obj page frames alloc k hempty hframes hframe hnew hcall =>
          -- the page is requested when all objects are in use
          have hall := (hc.all_live hempty).length_eq
          rw [carved_length] at hall
          have hone := perPage_pos hpos hmax
          simp only [List.length_cons] at hmax'
          refine ⟨by simp only [List.length_cons]; omega, ?_⟩
          show (page :: s.pages).length * perPage objSize < peak' + perPage objSize
          rw [List.length_cons, Nat.succ_mul, ← hall]
          omega

/-- In every run in which objects are freed only while no other one is free, and in which there
is a page where one is needed, no object is lost. -/
theorem objects_accounted {k : Kernel} {labels : List ObjLabel} {c : Counted}
    (hrun : Run (CarefulStep fuel) (Counted.start objSize k) labels c) : NothingLost objSize c := by
  have hstart : PeakInv objSize (Counted.start objSize k) := by
    have := perPage_pos hpos hmax
    exact ⟨le_refl _, by simp only [Counted.start, ObjState.start, List.length_nil]; omega⟩
  obtain ⟨⟨nodes, hc⟩, hpeak⟩ := hrun.invariant
    (fun c => (∃ nodes, Complete objSize c.s nodes) ∧ PeakInv objSize c) ⟨⟨[], .start objSize k⟩, hstart⟩
    fun _ _ _ ⟨⟨_, hc⟩, hpeak⟩ hstep => hstep.inv hpos hmax hfuel hc hpeak
  exact ⟨hc.accounted, hc.all_live, pages_bound hpos hmax hpeak.pages⟩

end Invariant

/-! The first object is allocated, and freed at once. -/

theorem exists_alloc_free {objSize : ℕ} (hpos : 1 ≤ objSize) (hmax : objSize ≤ pageSize) :
    ∃ obj s nodes alloc k, ObjStep 65 (.start objSize objKernel) (.alloc obj) s ∧ Complete objSize s nodes ∧
      nodes.length + 1 = perPage objSize ∧ s.live = [obj] ∧ s.alloc.objectFree obj s.k = .ok (alloc, k) := by
  have hframe : IsFrame (directMapStart + 0x1000) := ⟨by decide, by decide, by decide⟩
  have hfuel : pageSize < 65 * cacheLineSizeBytes := by decide
  have hstart := Complete.start objSize objKernel
  obtain ⟨obj, _, alloc, k, hcall, -⟩ := hstart.inv.objectAlloc_carves hpos hmax rfl hfuel rfl hframe
  have hstep : ObjStep 65 (.start objSize objKernel) (.alloc obj) _ :=
    .refill rfl rfl hframe (fun h => (List.not_mem_nil h).elim) hcall
  have hcareful : Careful (.start objSize objKernel) (.alloc obj) := fun _ => hframe.ne_zero
  obtain ⟨nodes, hc⟩ := hstart.step hpos hmax hfuel hcareful hstep
  have hlength := hc.all.length_eq
  rw [carved_length] at hlength
  have hobj : obj ≠ 0 := by
    obtain ⟨page, hpage, hslot⟩ := hc.inv.slot obj (List.mem_append_left _ List.mem_cons_self)
    have := (hc.inv.isFrame page hpage).ne_zero
    have := hslot.page_le
    omega
  refine ⟨obj, _, nodes, { alloc with nextFree := obj }, { k with mem := k.mem.storePtr obj 0 }, hstep, hc, ?_, rfl, ?_⟩
  · simpa [ObjState.start, Nat.add_comm] using hlength
  · rw [ObjAlloc.objectFree, kassert_of_true hobj]
    rfl

/-- A page holds one object of its own size. -/
theorem objects_accounted_page :
    ∃ obj c, Run (CarefulStep 65) (Counted.start pageSize objKernel) [.alloc obj, .free obj] c ∧ NothingLost pageSize c := by
  obtain ⟨obj, s, nodes, alloc, k, hstep, hc, hlength, hlive, hfree⟩ :=
    exists_alloc_free (show 1 ≤ pageSize by decide) (le_refl _)
  have hnil : nodes = [] := List.eq_nil_of_length_eq_zero (by
    rw [show perPage pageSize = 1 by decide] at hlength
    omega)
  have hempty : s.alloc.nextFree = 0 := by
    have hlist := hc.inv.list
    rwa [hnil] at hlist
  have hmem : obj ∈ s.live := by
    rw [hlive]
    exact List.mem_cons_self
  have halloc : CountedStep 65 (Counted.start pageSize objKernel) (.alloc obj) _ := .next (.step hstep)
  have hdone : CountedStep 65 ⟨s, max 0 s.live.length⟩ (.free obj) _ := .next (.step (.free hmem hfree))
  have hframe : directMapStart + 0x1000 ≠ 0 := by decide
  have hfirst : CarefulStep 65 (Counted.start pageSize objKernel) (.alloc obj) _ := ⟨halloc, fun _ => hframe⟩
  have hrun := (Run.single _ hfirst).snoc ⟨hdone, hempty⟩
  exact ⟨obj, _, hrun, objects_accounted (by decide) (le_refl _) (by decide) hrun⟩

/-- An area of an address space is allocated and freed: the rest of its page is lost. -/
theorem objects_lost :
    ∃ obj c, Run (CountedStep 65) (Counted.start 40 objKernel) [.alloc obj, .free obj] c ∧ ¬NothingLost 40 c := by
  obtain ⟨obj, s, nodes, alloc, k, hstep, hc, hlength, hlive, hfree⟩ :=
    exists_alloc_free (show 1 ≤ 40 by decide) (by decide)
  have hfull : s.alloc.nextFree ≠ 0 := by
    intro hempty
    have hlist := hc.inv.list
    rw [hempty] at hlist
    rw [hlist.eq_nil_of_zero, show perPage 40 = 64 by decide] at hlength
    cases hlength
  have hmem : obj ∈ s.live := by
    rw [hlive]
    exact List.mem_cons_self
  have halloc : CountedStep 65 (Counted.start 40 objKernel) (.alloc obj) _ := .next (.step hstep)
  have hdone : CountedStep 65 ⟨s, max 0 s.live.length⟩ (.free obj) _ := .next (.step (.free hmem hfree))
  have hrun := (Run.single _ halloc).snoc hdone
  have hfuel : pageSize < 65 * cacheLineSizeBytes := by decide
  exact ⟨obj, _, hrun, fun h =>
    hfull ((hc.free_iff (by decide) (by decide) hfuel hmem hfree).mp h.accounted)⟩

end HeavenOS
