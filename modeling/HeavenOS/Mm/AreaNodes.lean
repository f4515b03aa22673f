/-
# Areas in memory

The list of areas of `mm/vmem.c` as it lies in memory: objects of one allocator that all
address spaces share, linked into a ring behind the object that is the head. Every function of
`vmem.c` is here with the part of it that works on this list; what it does to page tables is
in `Mm.Vmem`, where the areas are a sequence. The rings hold those sequences, the objects in
use are exactly their cells, and every change of one list leaves the others alone.
-/

import HeavenOS.Lib.RingSearch
import HeavenOS.Mm.Obj
import HeavenOS.Utils.ListFamily

namespace HeavenOS

open Lib Lib.Ring

/-- `sizeof(vmem_area_t)` -/
def vmemAreaSize : ℕ := 40

/-- What a `vmem_area_t` holds behind its node. -/
def areaAt (m : Mem) (a : ℕ) : VmemArea := ⟨m.loadPtr (a + 16), m.loadPtr (a + 24), m.loadWord (a + 32)⟩

/-! ## The allocator with its books -/

namespace ObjState

/-- `object_alloc`; the books are of the pages that the allocator got and of the objects in
use. -/
def take (fuel : ℕ) (s : ObjState) : Except Panic (Option (ℕ × ObjState)) := do
  match ← s.alloc.objectAlloc fuel s.k with
  | none => return none
  | some (obj, alloc, k) =>
      let pages := if s.alloc.nextFree = 0 then (frameAlloc s.k).1 :: s.pages else s.pages
      return some (obj, ⟨alloc, k, pages, obj :: s.live⟩)

/-- `object_free` -/
def give (obj : ℕ) (s : ObjState) : Except Panic ObjState := do
  let (alloc, k) ← s.alloc.objectFree obj s.k
  return ⟨alloc, k, s.pages, s.live.erase obj⟩

/-- The state with another memory. -/
def withMem (s : ObjState) (m : Mem) : ObjState := { s with k := { s.k with mem := m } }

@[simp]
theorem withMem_mem (s : ObjState) (m : Mem) : (s.withMem m).k.mem = m := rfl

@[simp]
theorem withMem_live (s : ObjState) (m : Mem) : (s.withMem m).live = s.live := rfl

@[simp]
theorem withMem_pages (s : ObjState) (m : Mem) : (s.withMem m).pages = s.pages := rfl

@[simp]
theorem withMem_frames (s : ObjState) (m : Mem) : (s.withMem m).k.frames = s.k.frames := rfl

end ObjState

/-! ## The functions -/

namespace AreaNodes

/-- `vmem_is_mapped`: the address of the area, or nothing for `NULL`. -/
def vmemIsMapped (fuel : ℕ) (m : Mem) (areasList addr : ℕ) : Option (Option ℕ) :=
  search (fun area => (areaAt m area).Holds addr) m areasList fuel (next m areasList)

def vmemIntersects (fuel : ℕ) (m : Mem) (areasList otherStartAddr otherSize : ℕ) : Option Bool :=
  let otherEndAddr := (otherStartAddr + otherSize) % 2 ^ 64
  let meets (area : ℕ) : Bool :=
    ¬(otherEndAddr ≤ (areaAt m area).start ∨
      ((areaAt m area).start + (areaAt m area).size * pageSize) % 2 ^ 64 ≤ otherStartAddr)
  (search meets m areasList fuel (next m areasList)).map Option.isSome

def vmemAllocPages (fuel areasList virtAddr pgcnt : ℕ) (flags : BitVec 64) (s : ObjState) :
    Except Panic (Option (Int × ObjState)) := do
  kassert (maskDown virtAddr pageSize = virtAddr)
    "((uint64_t)virt_addr & (~(4096 - 1))) == (uint64_t)virt_addr"
  match vmemIntersects fuel s.k.mem areasList virtAddr pgcnt with
  | none => return none
  | some true => .error "intersection of virtual regions has occured in vmem at %p"
  | some false =>
      match ← s.take fuel with
      | none => return none
      | some (newArea, s) =>
          if newArea = 0 then return some (-enomem, s) else
          let m := s.k.mem.storePtr (newArea + 16) virtAddr
          let m := m.storePtr (newArea + 24) pgcnt
          let m := m.storeWord (newArea + 32) flags
          let m ← listInit m newArea
          let m ← listInsertAfter m areasList newArea
          return some (0, s.withMem m)

/-- `vmem_free_pages` up to where it unmaps the pages. -/
def vmemFreePages (fuel areasList virtAddr pgcnt : ℕ) (s : ObjState) : Except Panic (Option ObjState) := do
  kassert (maskDown virtAddr pageSize = virtAddr)
    "((uint64_t)virt_addr & (~(4096 - 1))) == (uint64_t)virt_addr"
  let startAddr := virtAddr
  let endAddr := (startAddr + pageSize * pgcnt) % 2 ^ 64
  let mine (area : ℕ) : Bool :=
    startAddr = (areaAt s.k.mem area).start ∧
      ((areaAt s.k.mem area).start + (areaAt s.k.mem area).size * pageSize) % 2 ^ 64 = endAddr
  match search mine s.k.mem areasList fuel (next s.k.mem areasList) with
  | none => return none
  | some none => .error "alloc-free mismatch in vmem at %p"
  | some (some areaNode) =>
      let m ← listExtract s.k.mem areaNode
      let s ← (s.withMem m).give areaNode
      return some s

/-- `vmem_init` behind the allocation of the PML4: the head of the list as well. -/
def vmemInit (fuel : ℕ) (s : ObjState) : Except Panic (Option (Int × ℕ × ObjState)) := do
  match ← s.take fuel with
  | none => return none
  | some (areasList, s) =>
      if areasList = 0 then return some (-enomem, areasList, s) else
      let m ← listInit s.k.mem areasList
      return some (0, areasList, s.withMem m)

/-- The loop of `vmem_clone` over the areas, from the node at `areaNode` on. -/
def cloneAreas (fuel dst src : ℕ) : (count areaNode : ℕ) → ObjState → Except Panic (Option (Int × ObjState))
  | 0, _, _ => return none
  | count + 1, areaNode, s =>
      if areaNode = src then return some (0, s) else do
      match ← s.take fuel with
      | none => return none
      | some (copy, s) =>
          if copy = 0 then return some (-enomem, s) else
          let m := s.k.mem.storePtr (copy + 16) (s.k.mem.loadPtr (areaNode + 16))
          let m := m.storePtr (copy + 24) (m.loadPtr (areaNode + 24))
          let m := m.storeWord (copy + 32) (m.loadWord (areaNode + 32))
          let m ← listInit m copy
          let m ← listInsertAfter m dst copy
          cloneAreas fuel dst src count (next m areaNode) (s.withMem m)

/-- `vmem_init` and the loop over the areas, in `vmem_clone`. -/
def vmemClone (fuel count src : ℕ) (s : ObjState) : Except Panic (Option (Int × ℕ × ObjState)) := do
  match ← vmemInit fuel s with
  | none => return none
  | some (res, dst, s) =>
      if res < 0 then return some (res, dst, s) else
      match ← cloneAreas fuel dst src count (next s.k.mem src) s with
      | none => return none
      | some (res, s) => return some (res, dst, s)

/-- The loop of `vmem_destroy` over the list of areas. -/
def popAreas (areasList : ℕ) : (fuel : ℕ) → ObjState → Except Panic (Option ObjState)
  | 0, _ => return none
  | fuel + 1, s => do
      if ← listEmpty s.k.mem areasList then return some s else
      let toPop := next s.k.mem areasList
      let m ← listExtract s.k.mem toPop
      let s ← (s.withMem m).give toPop
      popAreas areasList fuel s

/-- `vmem_destroy` up to where it frees the page table; whether the address space is current
is tested first. -/
def vmemDestroy (fuel areasList : ℕ) (current : Bool) (s : ObjState) : Except Panic (Option ObjState) := do
  kassert (¬ current) "curr_vmem != vm"
  match ← popAreas areasList fuel s with
  | none => return none
  | some s =>
      let s ← s.give areasList
      return some s

end AreaNodes

/-! ## Calls of the allocator -/

/-- The next `n` frames are there, and none of them is one of the pages. -/
def ObjSupply (pages : List ℕ) (frames : List (Option ℕ)) (n : ℕ) : Prop :=
  ∃ (supply : List ℕ) (rest : List (Option ℕ)), frames = supply.map some ++ rest ∧ n ≤ supply.length ∧ supply.Nodup ∧
    ∀ f ∈ supply, IsFrame f ∧ f ∉ pages

theorem ObjSupply.mono {pages : List ℕ} {frames : List (Option ℕ)} {m n : ℕ} (h : ObjSupply pages frames n) (hle : m ≤ n) :
    ObjSupply pages frames m := by
  obtain ⟨supply, rest, hframes, hlen, hfresh⟩ := h
  exact ⟨supply, rest, hframes, hle.trans hlen, hfresh⟩

/-- The first of them can become a page. -/
theorem ObjSupply.page {pages : List ℕ} {frames : List (Option ℕ)} {n : ℕ} (h : ObjSupply pages frames (n + 1)) :
    ∃ page rest, frames = some page :: rest ∧ IsFrame page ∧ page ∉ pages ∧ ObjSupply (page :: pages) rest n := by
  obtain ⟨supply, rest, rfl, hlen, hnodup, hfresh⟩ := h
  obtain ⟨page, supply, rfl⟩ := List.exists_cons_of_length_pos (by omega : 0 < supply.length)
  obtain ⟨hout, hnodup⟩ := List.nodup_cons.mp hnodup
  obtain ⟨⟨hframe, hnew⟩, hfresh⟩ := List.forall_mem_cons.mp hfresh
  refine ⟨page, supply.map some ++ rest, rfl, hframe, hnew, supply, rest, rfl, by simpa using hlen, hnodup, fun f hf => ?_⟩
  exact ⟨(hfresh f hf).1, fun hmem => (List.mem_cons.mp hmem).elim (fun heq => hout (heq ▸ hf)) (hfresh f hf).2⟩

/-- A call that needs a page takes one frame. -/
theorem ObjAlloc.objectAlloc_frames {fuel : ℕ} {alloc alloc' : ObjAlloc} {k k' : Kernel} {obj : ℕ}
    (hempty : alloc.nextFree = 0) (hcall : alloc.objectAlloc fuel k = .ok (some (obj, alloc', k'))) :
    k'.frames = (frameAlloc k).2.frames := by
  obtain ⟨_, -, hcall⟩ := bind_eq_ok.mp hcall
  simp only [if_pos hempty] at hcall
  cases hcarve : carve alloc.objSize (((frameAlloc k).1 + pageSize) % 2 ^ 64) fuel (frameAlloc k).1 0 (frameAlloc k).2.mem with
  | none =>
      rw [hcarve] at hcall
      cases hcall
  | some cut =>
      rw [hcarve] at hcall
      cases hcall
      rfl

section Objects

variable {s : ObjState} {free : List ℕ} (h : ObjInv vmemAreaSize s free)

include h

/-- Two objects in use have no byte in common. -/
theorem ObjInv.objects_apart {a b : ℕ} (ha : a ∈ s.live) (hb : b ∈ s.live) (hne : a ≠ b) :
    a + vmemAreaSize ≤ b ∨ b + vmemAreaSize ≤ a := by
  have hroom := (@stride_spec vmemAreaSize (by decide) (by decide)).2.1
  have hapart := h.apart (List.mem_append_left _ ha) (List.mem_append_left _ hb) hne
  omega

theorem ObjInv.object_bounds {a : ℕ} (ha : a ∈ s.live) : a ≠ 0 ∧ a + vmemAreaSize < 2 ^ 64 := by
  obtain ⟨page, hpage, hslot⟩ := h.slot a (List.mem_append_left _ ha)
  have hroom := (@stride_spec vmemAreaSize (by decide) (by decide)).2.1
  have hframe := h.isFrame page hpage
  have hne := hframe.ne_zero
  have hbound := hframe.2.2
  have hlo := hslot.page_le
  have hhi := hslot.le_stop
  have hpageSize : pageSize = 4096 := rfl
  unfold directMapStart at hbound
  omega

/-- Writing to objects in use. -/
theorem ObjInv.withMem {m : Mem}
    (hmem : ∀ x, (∀ obj ∈ s.live, ¬(obj ≤ x ∧ x < obj + vmemAreaSize)) → m x = s.k.mem x) :
    ObjInv vmemAreaSize (s.withMem m) free :=
  h.other (by decide) (by decide) fun _ _ x _ hout => hmem x (h.size ▸ hout)

/-- An allocation returns a new object and writes to no other one. -/
theorem ObjInv.take {fuel n : ℕ} (hfuel : pageSize < fuel * cacheLineSizeBytes) (hsupply : ObjSupply s.pages s.k.frames (n + 1)) :
    ∃ obj s' free', s.take fuel = .ok (some (obj, s')) ∧ ObjInv vmemAreaSize s' free' ∧ s'.live = obj :: s.live ∧
      ObjSupply s'.pages s'.k.frames n ∧
      ∀ a ∈ s.live, ∀ x, a ≤ x → x < a + vmemAreaSize → s'.k.mem x = s.k.mem x := by
  have hstep {obj : ℕ} {s' : ObjState} (hs : ObjStep fuel s (.alloc obj) s') (hlive : s'.live = obj :: s.live) :
      (∃ free', ObjInv vmemAreaSize s' free') ∧ ∀ a ∈ s.live, ∀ x, a ≤ x → x < a + vmemAreaSize → s'.k.mem x = s.k.mem x :=
    ⟨hs.inv (by decide) (by decide) hfuel h, fun a ha x hlo hhi =>
      hs.mem (by decide) (by decide) hfuel h (by simp) ha (hlive ▸ List.mem_cons_of_mem _ ha) hlo hhi⟩
  by_cases hempty : s.alloc.nextFree = 0
  · obtain ⟨page, rest, hframes, hframe, hnew, hrest⟩ := hsupply.page
    obtain ⟨obj, _, alloc, k, hcall, -⟩ := h.objectAlloc_refill (by decide) (by decide) hempty hfuel hframes hframe
    have hanswer : frameAlloc s.k = (page, { s.k with
        mem := s.k.mem.memset page 0 pageSize, frames := rest, freed := s.k.freed.filter (· ≠ page) }) := by
      rw [frameAlloc, hframes]
    have hleft := ObjAlloc.objectAlloc_frames hempty hcall
    rw [hanswer] at hleft
    obtain ⟨⟨free', hinv⟩, hmem⟩ := hstep (.refill hempty hframes hframe hnew hcall) rfl
    refine ⟨obj, _, free', ?_, hinv, rfl, by rwa [hleft], hmem⟩
    rw [ObjState.take, hcall, ok_bind]
    simp only [if_pos hempty, hanswer]
    rfl
  · have hcall := h.objectAlloc_reuse (by decide) hempty fuel
    obtain ⟨⟨free', hinv⟩, hmem⟩ := hstep (.reuse hempty hcall) rfl
    refine ⟨_, _, free', ?_, hinv, rfl, hsupply.mono (Nat.le_succ n), hmem⟩
    rw [ObjState.take, hcall, ok_bind]
    simp only [if_neg hempty]
    rfl

/-- Giving an object back writes to its first word only. -/
theorem ObjInv.give {obj : ℕ} (hobj : obj ∈ s.live) :
    ∃ s', s.give obj = .ok s' ∧ ObjInv vmemAreaSize s' [obj] ∧ s'.live = s.live.erase obj ∧ s'.pages = s.pages ∧
      s'.k.frames = s.k.frames ∧ ∀ x, (x < obj ∨ obj + 8 ≤ x) → s'.k.mem x = s.k.mem x := by
  have hcall : s.alloc.objectFree obj s.k = .ok ({ s.alloc with nextFree := obj }, { s.k with mem := s.k.mem.storePtr obj 0 }) := by
    rw [ObjAlloc.objectFree, kassert_of_true (h.object_bounds hobj).1]
    rfl
  have hnodup := (List.nodup_append.mp h.nodup).1
  refine ⟨⟨{ s.alloc with nextFree := obj }, { s.k with mem := s.k.mem.storePtr obj 0 }, s.pages, s.live.erase obj⟩, ?_, ?_, rfl,
    rfl, rfl, fun x hx => Mem.storePtr_of_outside _ _ hx⟩
  · rw [ObjState.give, hcall]
    rfl
  · refine ⟨h.size, h.isFrame, (FreeList.nil _).push (by decide) (h.object_bounds hobj).1 (fun c hc => (List.not_mem_nil hc).elim),
      ?_, fun a ha => h.slot a ?_⟩
    · refine List.nodup_append.mpr ⟨hnodup.erase obj, List.nodup_singleton obj, fun a ha b hb hab => ?_⟩
      rw [List.mem_singleton.mp hb] at hab
      exact hnodup.not_mem_erase (hab ▸ ha)
    · rcases List.mem_append.mp ha with ha | ha
      · exact List.mem_append_left _ (List.mem_of_mem_erase ha)
      · exact List.mem_append_left _ (List.mem_singleton.mp ha ▸ hobj)

end Objects

/-! ## The lists of all address spaces -/

/-- The allocator of the areas and, for every address space that is set up, the head of its
list. -/
structure AreasState (ι : Type) where
  obj : ObjState
  areasList : ι → Option ℕ

namespace AreasState

variable {ι : Type} (s : AreasState ι)

/-- The head of a list and the other nodes. -/
def cells (nodes : ι → List ℕ) (i : ι) : List ℕ := (s.areasList i).toList ++ nodes i

/-- The areas that memory holds. -/
def spaces (nodes : ι → List ℕ) (i : ι) : Option (List VmemArea) :=
  (s.areasList i).map fun _ => (nodes i).map (areaAt s.obj.k.mem)

variable [DecidableEq ι]

/-- The state in which one list has another head. -/
def set (obj : ObjState) (i : ι) (head : Option ℕ) : AreasState ι := ⟨obj, Function.update s.areasList i head⟩

@[simp]
theorem set_obj (obj : ObjState) (i : ι) (head : Option ℕ) : (s.set obj i head).obj = obj := rfl

@[simp]
theorem set_self (obj : ObjState) (i : ι) (head : Option ℕ) : (s.set obj i head).areasList i = head := by simp [set]

theorem set_of_ne (obj : ObjState) {i j : ι} (head : Option ℕ) (hne : j ≠ i) :
    (s.set obj i head).areasList j = s.areasList j := by
  simp [set, hne]

@[simp]
theorem set_set (obj obj' : ObjState) (i : ι) (head head' : Option ℕ) :
    (s.set obj i head).set obj' i head' = s.set obj' i head' := by
  simp [set]

theorem set_eq_self {i : ι} {head : Option ℕ} (hi : s.areasList i = head) : s.set s.obj i head = s := by
  rw [set, ← hi, Function.update_eq_self]

end AreasState

/-- The lists are rings, and the objects in use are their cells, each in one list. -/
structure AreaRings {ι : Type} (s : AreasState ι) (nodes : ι → List ℕ) : Prop where
  books : ∃ free, ObjInv vmemAreaSize s.obj free
  ring : ∀ i head, s.areasList i = some head → IsRing s.obj.k.mem head (nodes i)
  absent : ∀ i, s.areasList i = none → nodes i = []
  live : ∀ a, a ∈ s.obj.live ↔ ∃ i, a ∈ s.cells nodes i
  apart : ∀ i j, i ≠ j → List.Disjoint (s.cells nodes i) (s.cells nodes j)

theorem areaAt_congr {m m' : Mem} {a : ℕ} (hsame : ∀ x, a + 16 ≤ x → x < a + vmemAreaSize → m' x = m x) :
    areaAt m' a = areaAt m a := by
  unfold vmemAreaSize at hsame
  rw [areaAt, areaAt, Mem.loadPtr_congr fun x hlo hhi => hsame x (by omega) (by omega),
    Mem.loadPtr_congr (a := a + 24) fun x hlo hhi => hsame x (by omega) (by omega),
    Mem.loadWord_congr (a := a + 32) fun x hlo hhi => hsame x (by omega) (by omega)]

namespace AreaRings

variable {ι : Type} [DecidableEq ι] {s : AreasState ι} {nodes : ι → List ℕ} (h : AreaRings s nodes)

include h

/-- One list changes, and memory at the cells of the others does not. -/
theorem change {i : ι} {head : Option ℕ} {l : List ℕ} {obj : ObjState} (hbooks : ∃ free, ObjInv vmemAreaSize obj free)
    (hring : ∀ a, head = some a → IsRing obj.k.mem a l) (habsent : head = none → l = [])
    (hlive : ∀ a, a ∈ obj.live ↔ a ∈ head.toList ++ l ∨ a ∈ s.obj.live ∧ a ∉ s.cells nodes i)
    (hnew : ∀ a ∈ head.toList ++ l, a ∈ s.cells nodes i ∨ a ∉ s.obj.live)
    (hsame : ∀ a ∈ s.obj.live, a ∉ s.cells nodes i → ∀ x, a ≤ x → x < a + vmemAreaSize → obj.k.mem x = s.obj.k.mem x) :
    AreaRings (s.set obj i head) (Function.update nodes i l) ∧
      (s.set obj i head).spaces (Function.update nodes i l) =
        Function.update (s.spaces nodes) i (head.map fun _ => l.map (areaAt obj.k.mem)) := by
  have hself : (s.set obj i head).cells (Function.update nodes i l) i = head.toList ++ l := by
    simp [AreasState.cells, AreasState.set]
  have hother {j : ι} (hj : j ≠ i) :
      (s.set obj i head).cells (Function.update nodes i l) j = s.cells nodes j := by
    simp [AreasState.cells, AreasState.set, hj]
  have hout {j : ι} (hj : j ≠ i) {a : ℕ} (ha : a ∈ s.cells nodes j) : a ∈ s.obj.live ∧ a ∉ s.cells nodes i :=
    ⟨(h.live a).mpr ⟨j, ha⟩, fun hin => h.apart j i hj ha hin⟩
  have hkeep {j : ι} (hj : j ≠ i) {a : ℕ} (ha : a ∈ s.cells nodes j) :=
    hsame a (hout hj ha).1 (hout hj ha).2
  refine ⟨⟨hbooks, fun j a (hj : Function.update s.areasList i head j = some a) => ?_,
    fun j (hj : Function.update s.areasList i head j = none) => ?_, fun a => ?_, fun j j' hne a ha ha' => ?_⟩, funext fun j => ?_⟩
  · by_cases hji : j = i
    · subst hji
      rw [Function.update_self] at hj ⊢
      exact hring a hj
    · rw [Function.update_of_ne hji] at hj ⊢
      refine (h.ring j a hj).congr fun c hc x hlo hhi => hkeep hji ?_ x hlo (by unfold vmemAreaSize; omega)
      rw [AreasState.cells, hj]
      exact hc
  · by_cases hji : j = i
    · subst hji
      rw [Function.update_self] at hj ⊢
      exact habsent hj
    · rw [Function.update_of_ne hji] at hj ⊢
      exact h.absent j hj
  · refine (hlive a).trans ⟨?_, ?_⟩
    · rintro (ha | ⟨ha, hnot⟩)
      · exact ⟨i, hself ▸ ha⟩
      · obtain ⟨j, hj⟩ := (h.live a).mp ha
        have hji : j ≠ i := fun heq => hnot (heq ▸ hj)
        exact ⟨j, (hother hji).symm ▸ hj⟩
    · rintro ⟨j, hj⟩
      by_cases hji : j = i
      · subst hji
        exact Or.inl (hself ▸ hj)
      · exact Or.inr (hout hji ((hother hji) ▸ hj))
  · have hcross {k : ι} (hk : k ≠ i) (hin : a ∈ head.toList ++ l) (hin' : a ∈ s.cells nodes k) : False := by
      rcases hnew a hin with hold | hnot
      · exact (hout hk hin').2 hold
      · exact hnot (hout hk hin').1
    by_cases hji : j = i
    · subst hji
      rw [hself] at ha
      rw [hother hne.symm] at ha'
      exact hcross hne.symm ha ha'
    · rw [hother hji] at ha
      by_cases hj' : j' = i
      · subst hj'
        rw [hself] at ha'
        exact hcross hji ha' ha
      · rw [hother hj'] at ha'
        exact h.apart j j' hne ha ha'
  · by_cases hji : j = i
    · subst hji
      simp [AreasState.spaces, AreasState.set]
    · simp only [AreasState.spaces, AreasState.set, Function.update_of_ne hji]
      cases hj : s.areasList j with
      | none => rfl
      | some a =>
          refine congrArg some (List.map_congr_left fun c hc => areaAt_congr fun x hlo hhi => ?_)
          exact hkeep hji (List.mem_append_right _ hc) x (by omega) hhi

/-- The same for a list that is there afterwards. -/
theorem relist {i : ι} {head : ℕ} {l : List ℕ} {obj : ObjState} (hbooks : ∃ free, ObjInv vmemAreaSize obj free)
    (hring : IsRing obj.k.mem head l)
    (hlive : ∀ a, a ∈ obj.live ↔ a ∈ head :: l ∨ a ∈ s.obj.live ∧ a ∉ s.cells nodes i)
    (hnew : ∀ a ∈ head :: l, a ∈ s.cells nodes i ∨ a ∉ s.obj.live)
    (hsame : ∀ a ∈ s.obj.live, a ∉ s.cells nodes i → ∀ x, a ≤ x → x < a + vmemAreaSize → obj.k.mem x = s.obj.k.mem x) :
    AreaRings (s.set obj i (some head)) (Function.update nodes i l) ∧
      (s.set obj i (some head)).spaces (Function.update nodes i l) =
        Function.update (s.spaces nodes) i (some (l.map (areaAt obj.k.mem))) := by
  refine h.change hbooks (fun a ha => ?_) (fun hnone => by cases hnone) hlive hnew hsame
  cases ha
  exact hring

section Cells

variable {i : ι} {head : ℕ} (hi : s.areasList i = some head)

include hi

omit [DecidableEq ι] h in
theorem cells_eq : s.cells nodes i = head :: nodes i := by
  rw [AreasState.cells, hi]
  rfl

omit [DecidableEq ι] h in
theorem spaces_eq : s.spaces nodes i = some ((nodes i).map (areaAt s.obj.k.mem)) := by
  rw [AreasState.spaces, hi]
  rfl

omit [DecidableEq ι] in
theorem cell_live {a : ℕ} (ha : a ∈ head :: nodes i) : a ∈ s.obj.live :=
  (h.live a).mpr ⟨i, (cells_eq hi).symm ▸ ha⟩

end Cells

omit [DecidableEq ι] h in
/-- An object that was just allocated is none of the older ones. -/
theorem taken_not_live {obj : ObjState} {new : ℕ} {free : List ℕ} (hinv : ObjInv vmemAreaSize obj free)
    (hlive : obj.live = new :: s.obj.live) : new ∉ s.obj.live := by
  have hnodup := (List.nodup_append.mp hinv.nodup).1
  rw [hlive] at hnodup
  exact (List.nodup_cons.mp hnodup).1

/-- A new address space gets an empty list. -/
theorem vmemInit {i : ι} (hi : s.areasList i = none) {fuel n : ℕ} (hfuel : pageSize < fuel * cacheLineSizeBytes)
    (hsupply : ObjSupply s.obj.pages s.obj.k.frames (n + 1)) :
    ∃ head obj, AreaNodes.vmemInit fuel s.obj = .ok (some (0, head, obj)) ∧ ObjSupply obj.pages obj.k.frames n ∧
      AreaRings (s.set obj i (some head)) (Function.update nodes i []) ∧
      (s.set obj i (some head)).spaces (Function.update nodes i []) = Function.update (s.spaces nodes) i (some []) := by
  obtain ⟨free, hinv⟩ := h.books
  obtain ⟨head, o, free', htake, hinv', hlive, hleft, hmem⟩ := hinv.take hfuel hsupply
  have hnew := taken_not_live hinv' hlive
  have hcells : s.cells nodes i = [] := by rw [AreasState.cells, hi, h.absent i hi]; rfl
  obtain ⟨hne, hbound⟩ := hinv'.object_bounds (hlive ▸ List.mem_cons_self)
  have hroom : vmemAreaSize = 40 := rfl
  refine ⟨head, o.withMem (Ring.single o.k.mem head), ?_, hleft, ?_⟩
  · rw [AreaNodes.vmemInit, htake, ok_bind]
    simp only [if_neg hne, listInit_eq o.k.mem hne]
    rfl
  · refine h.relist ⟨free', hinv'.withMem fun x hout => single_of_outside _ ?_⟩ (IsRing.single (by omega)) (fun a => ?_)
      (fun a ha => ?_) fun a ha _ x hlo hhi => ?_
    · have := hout head (hlive ▸ List.mem_cons_self)
      omega
    · simp [hlive, hcells]
    · obtain rfl := List.mem_singleton.mp ha
      exact Or.inr hnew
    · rw [← hmem a ha x hlo hhi]
      refine single_of_outside _ ?_
      have := hinv'.objects_apart (hlive ▸ List.mem_cons_of_mem _ ha) (hlive ▸ List.mem_cons_self)
        fun heq : a = head => hnew (heq ▸ ha)
      omega

/-- A new object with an area becomes the first of a list. -/
theorem link {i : ι} {head : ℕ} (hi : s.areasList i = some head) {obj : ObjState} {free : List ℕ} {new : ℕ}
    (hinv : ObjInv vmemAreaSize obj free) (hlive : obj.live = new :: s.obj.live)
    (hmem : ∀ a ∈ s.obj.live, ∀ x, a ≤ x → x < a + vmemAreaSize → obj.k.mem x = s.obj.k.mem x) {m : Mem}
    (hm : ∀ x, (x < new ∨ new + vmemAreaSize ≤ x) → m x = obj.k.mem x) :
    ∃ m', (listInit m new >>= fun m => listInsertAfter m head new) = .ok m' ∧
      AreaRings (s.set (obj.withMem m') i (some head)) (Function.update nodes i (new :: nodes i)) ∧
      (s.set (obj.withMem m') i (some head)).spaces (Function.update nodes i (new :: nodes i)) =
        Function.update (s.spaces nodes) i (some (areaAt m new :: (nodes i).map (areaAt s.obj.k.mem))) := by
  have hnot := taken_not_live hinv hlive
  have hcell {a : ℕ} (ha : a ∈ head :: nodes i) : a ∈ s.obj.live := h.cell_live hi ha
  have hnewLive : new ∈ obj.live := hlive ▸ List.mem_cons_self
  have hold {a : ℕ} (ha : a ∈ s.obj.live) : a ∈ obj.live := hlive ▸ List.mem_cons_of_mem _ ha
  have hapart {a : ℕ} (ha : a ∈ s.obj.live) : a + vmemAreaSize ≤ new ∨ new + vmemAreaSize ≤ a :=
    hinv.objects_apart (hold ha) hnewLive fun heq : a = new => hnot (heq ▸ ha)
  have hroom : vmemAreaSize = 40 := rfl
  obtain ⟨hnewNull, hbound⟩ := hinv.object_bounds hnewLive
  obtain ⟨hheadNull, -⟩ := hinv.object_bounds (hold (hcell List.mem_cons_self))
  -- up to the insertion only the new object is written to
  have hsingle {x : ℕ} (hx : x < new ∨ new + vmemAreaSize ≤ x) : Ring.single m new x = obj.k.mem x := by
    rw [single_of_outside m (by omega), hm x hx]
  have hbefore : ∀ a ∈ s.obj.live, ∀ x, a ≤ x → x < a + vmemAreaSize → Ring.single m new x = s.obj.k.mem x := by
    intro a ha x hlo hhi
    have := hapart ha
    rw [hsingle (by omega), hmem a ha x hlo hhi]
  have hring : IsRing (Ring.single m new) head (nodes i) :=
    (h.ring i head hi).congr fun a ha x hlo hhi => hbefore a (hcell ha) x hlo (by omega)
  have hinserted := hring.insertAfter (by omega : new < 2 ^ 64) fun a ha => by
    have := hapart (hcell ha)
    unfold Apart
    omega
  have hout {x : ℕ} (hnew : x < new ∨ new + 16 ≤ x) (hcells : ∀ c ∈ head :: nodes i, x < c ∨ c + 16 ≤ x) :
      Ring.insertAfter (Ring.single m new) head new x = Ring.single m new x :=
    hring.insertAfter_of_outside List.mem_cons_self hnew hcells
  have hfield {a x : ℕ} (ha : a = new ∨ a ∈ s.obj.live) (hlo : a + 16 ≤ x) (hhi : x < a + vmemAreaSize) :
      Ring.insertAfter (Ring.single m new) head new x = Ring.single m new x := by
    have halive : a ∈ obj.live := ha.elim (fun heq => heq ▸ hnewLive) hold
    refine hout ?_ fun c hc => ?_
    · by_cases heq : a = new
      · omega
      · have := hinv.objects_apart halive hnewLive heq
        omega
    · by_cases heq : a = c
      · omega
      · have := hinv.objects_apart halive (hold (hcell hc)) heq
        omega
  have hareaNew : areaAt (Ring.insertAfter (Ring.single m new) head new) new = areaAt m new :=
    areaAt_congr fun x hlo hhi => by rw [hfield (Or.inl rfl) hlo hhi, single_of_outside m (Or.inr hlo)]
  have hareaOld : (nodes i).map (areaAt (Ring.insertAfter (Ring.single m new) head new)) = (nodes i).map (areaAt s.obj.k.mem) := by
    refine List.map_congr_left fun a ha => areaAt_congr fun x hlo hhi => ?_
    have halive := hcell (List.mem_cons_of_mem _ ha)
    rw [hfield (Or.inr halive) hlo hhi, hbefore a halive x (by omega) hhi]
  have hbooks : ∃ free, ObjInv vmemAreaSize (obj.withMem (Ring.insertAfter (Ring.single m new) head new)) free := by
    refine ⟨free, hinv.withMem fun x hx => ?_⟩
    have hx' := hx new hnewLive
    rw [hout (by omega) fun c hc => by have := hx c (hold (hcell hc)); omega, hsingle (by omega)]
  have hcells (a : ℕ) : a ∈ obj.live ↔ a ∈ head :: new :: nodes i ∨ a ∈ s.obj.live ∧ a ∉ s.cells nodes i := by
    have := @hcell a
    rw [cells_eq hi, hlive]
    simp only [List.mem_cons, not_or] at this ⊢
    tauto
  have hsame : ∀ a ∈ s.obj.live, a ∉ s.cells nodes i → ∀ x, a ≤ x → x < a + vmemAreaSize →
      Ring.insertAfter (Ring.single m new) head new x = s.obj.k.mem x := by
    intro a ha hnotin x hlo hhi
    rw [cells_eq hi] at hnotin
    have hother := hapart ha
    rw [hout (by omega), hbefore a ha x hlo hhi]
    intro c hc
    have := hinv.objects_apart (hold ha) (hold (hcell hc)) fun heq : a = c => hnotin (heq ▸ hc)
    omega
  obtain ⟨hrings, hspaces⟩ := h.relist hbooks hinserted hcells (fun a ha => by
    rw [cells_eq hi]
    simp only [List.mem_cons] at ha ⊢
    rcases ha with rfl | rfl | ha
    · exact Or.inl (Or.inl rfl)
    · exact Or.inr hnot
    · exact Or.inl (Or.inr ha)) hsame
  refine ⟨_, ?_, hrings, ?_⟩
  · rw [listInit_eq m hnewNull, ok_bind, listInsertAfter_eq _ hheadNull hnewNull]
  · rw [hspaces, List.map_cons, ObjState.withMem_mem, hareaNew, hareaOld]

/-- A node is taken out of its list and given back. -/
theorem extract {i : ι} {head : ℕ} (hi : s.areasList i = some head) {node : ℕ} (hnode : node ∈ nodes i) :
    ∃ m obj, listExtract s.obj.k.mem node = .ok m ∧ (s.obj.withMem m).give node = .ok obj ∧
      AreaRings (s.set obj i (some head)) (Function.update nodes i ((nodes i).erase node)) ∧
      (s.set obj i (some head)).spaces (Function.update nodes i ((nodes i).erase node)) =
        Function.update (s.spaces nodes) i (some (((nodes i).erase node).map (areaAt s.obj.k.mem))) := by
  obtain ⟨free, hinv⟩ := h.books
  have hring := h.ring i head hi
  have hcell {a : ℕ} (ha : a ∈ head :: nodes i) : a ∈ s.obj.live := h.cell_live hi ha
  have hnodeCell := List.mem_cons_of_mem head hnode
  have hroom : vmemAreaSize = 40 := rfl
  have hout {x : ℕ} (hcells : ∀ c ∈ head :: nodes i, x < c ∨ c + 16 ≤ x) : Ring.unlink s.obj.k.mem node x = s.obj.k.mem x :=
    hring.unlink_of_outside hnodeCell hcells
  have hinv' : ObjInv vmemAreaSize (s.obj.withMem (Ring.unlink s.obj.k.mem node)) free :=
    hinv.withMem fun x hx => hout fun c hc => by
      have := hx c (hcell hc)
      omega
  obtain ⟨obj, hgive, hbooks, hlive, -, -, hword⟩ := hinv'.give (hcell hnodeCell)
  have hfield {a x : ℕ} (ha : a ∈ head :: nodes i) (hlo : a + 16 ≤ x) (hhi : x < a + vmemAreaSize) :
      obj.k.mem x = s.obj.k.mem x := by
    have hcells {c : ℕ} (hc : c ∈ head :: nodes i) : x < c ∨ c + 16 ≤ x := by
      by_cases heq : a = c
      · omega
      · have := hinv.objects_apart (hcell ha) (hcell hc) heq
        omega
    have := hcells hnodeCell
    rw [hword x (by omega)]
    exact hout fun c hc => hcells hc
  have hnodup := (List.nodup_append.mp hinv.nodup).1
  have hheadNode : head ≠ node := (hring.head_apart hnode).ne
  have hkept : IsRing obj.k.mem head ((nodes i).erase node) := by
    refine (hring.unlink_erase hnode).congr fun a ha x hlo hhi => hword x ?_
    have hne : a ≠ node := by
      rcases List.mem_cons.mp ha with rfl | ha
      · exact hheadNode
      · exact fun heq => hring.nodup.not_mem_erase (heq ▸ ha)
    have hin : a ∈ head :: nodes i := by
      rcases List.mem_cons.mp ha with rfl | ha
      · exact List.mem_cons_self
      · exact List.mem_cons_of_mem _ (List.mem_of_mem_erase ha)
    have := hinv.objects_apart (hcell hin) (hcell hnodeCell) hne
    omega
  have hcells (a : ℕ) : a ∈ obj.live ↔ a ∈ head :: (nodes i).erase node ∨ a ∈ s.obj.live ∧ a ∉ s.cells nodes i := by
    have hlivea := @hcell a
    rw [cells_eq hi, hlive, ObjState.withMem_live, hnodup.mem_erase_iff, List.mem_cons, List.mem_cons, hring.nodup.mem_erase_iff]
    rw [List.mem_cons] at hlivea
    constructor
    · rintro ⟨hne, ha⟩
      tauto
    · rintro ((rfl | ⟨hne, ha⟩) | ⟨ha, hnot⟩)
      · exact ⟨hheadNode, hlivea (Or.inl rfl)⟩
      · exact ⟨hne, hlivea (Or.inr ha)⟩
      · exact ⟨fun heq => hnot (Or.inr (heq ▸ hnode)), ha⟩
  have hsame : ∀ a ∈ s.obj.live, a ∉ s.cells nodes i → ∀ x, a ≤ x → x < a + vmemAreaSize → obj.k.mem x = s.obj.k.mem x := by
    intro a ha hnotin x hlo hhi
    rw [cells_eq hi] at hnotin
    have hcells {c : ℕ} (hc : c ∈ head :: nodes i) : x < c ∨ c + 16 ≤ x := by
      have := hinv.objects_apart ha (hcell hc) fun heq : a = c => hnotin (heq ▸ hc)
      omega
    have := hcells hnodeCell
    rw [hword x (by omega)]
    exact hout fun c hc => hcells hc
  have hsub : ∀ a ∈ head :: (nodes i).erase node, a ∈ s.cells nodes i ∨ a ∉ s.obj.live := by
    intro a ha
    rw [cells_eq hi]
    rcases List.mem_cons.mp ha with rfl | ha
    · exact Or.inl List.mem_cons_self
    · exact Or.inl (List.mem_cons_of_mem _ (List.mem_of_mem_erase ha))
  obtain ⟨hrings, hspaces⟩ := h.relist ⟨_, hbooks⟩ hkept hcells hsub hsame
  refine ⟨_, obj, listExtract_eq _ (hinv.object_bounds (hcell hnodeCell)).1 (hring.next_ne_self hnode), hgive, hrings, ?_⟩
  rw [hspaces]
  refine congrArg (fun l => Function.update (s.spaces nodes) i (some l)) (List.map_congr_left fun a ha => ?_)
  exact areaAt_congr fun x hlo hhi => hfield (List.mem_cons_of_mem _ (List.mem_of_mem_erase ha)) hlo hhi

/-- The head of an empty list is given back. -/
theorem close {i : ι} {head : ℕ} (hi : s.areasList i = some head) (hnil : nodes i = []) :
    ∃ obj, s.obj.give head = .ok obj ∧ AreaRings (s.set obj i none) (Function.update nodes i []) ∧
      (s.set obj i none).spaces (Function.update nodes i []) = Function.update (s.spaces nodes) i none := by
  obtain ⟨free, hinv⟩ := h.books
  have hhead : head ∈ s.obj.live := h.cell_live hi List.mem_cons_self
  have hcells : s.cells nodes i = [head] := by rw [cells_eq hi, hnil]
  have hroom : vmemAreaSize = 40 := rfl
  obtain ⟨obj, hgive, hbooks, hlive, -, -, hword⟩ := hinv.give hhead
  have hnodup := (List.nodup_append.mp hinv.nodup).1
  refine ⟨obj, hgive, h.change ⟨_, hbooks⟩ (fun a ha => by cases ha) (fun _ => rfl) (fun a => ?_)
    (fun a ha => (List.not_mem_nil ha).elim) fun a ha hnot x hlo hhi => hword x ?_⟩
  · rw [hcells, hlive, hnodup.mem_erase_iff, List.mem_singleton]
    simp only [Option.toList_none, List.append_nil, List.not_mem_nil, false_or]
    tauto
  · rw [hcells, List.mem_singleton] at hnot
    have := hinv.objects_apart ha hhead hnot
    omega

end AreaRings

end HeavenOS
