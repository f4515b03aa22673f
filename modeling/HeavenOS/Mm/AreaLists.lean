/-
# The lists of areas refine sequences

Runs of the area functions of `mm/vmem.c` on any number of address spaces that share one object
allocator. `Mm.AreaNodes` has the functions on memory, `Mm.Vmem` those on sequences of areas.
A run of the first is a run of the second with the same calls and the same results: whatever
one address space does with its list, memory holds for every other one what it held before.
-/

import HeavenOS.Mm.AreaNodes

namespace HeavenOS

open Lib Lib.Ring

/-- The area that `vmem_alloc_pages` writes into a new object. -/
theorem areaAt_stores (m : Mem) (new : ℕ) {start size : ℕ} (flags : BitVec 64) (hstart : start < 2 ^ 64) (hsize : size < 2 ^ 64) :
    areaAt (((m.storePtr (new + 16) start).storePtr (new + 24) size).storeWord (new + 32) flags) new = ⟨start, size, flags⟩ := by
  rw [areaAt, Mem.loadWord_storeWord_self, Mem.loadPtr, Mem.loadPtr,
    Mem.loadWord_storeWord_of_disjoint _ _ (Or.inr (le_refl (new + 32))),
    Mem.loadWord_storeWord_of_disjoint _ _ (Or.inr (show new + 16 + 8 ≤ new + 32 by omega)), ← Mem.loadPtr, ← Mem.loadPtr,
    Mem.loadPtr_storePtr_self _ _ hsize, Mem.loadPtr_storePtr_of_disjoint _ _ (Or.inr (le_refl (new + 24))),
    Mem.loadPtr_storePtr_self _ _ hstart]

/-- It writes to its own bytes. -/
theorem stores_of_outside (m : Mem) (new start size : ℕ) (flags : BitVec 64) {x : ℕ}
    (hout : x < new ∨ new + vmemAreaSize ≤ x) :
    ((m.storePtr (new + 16) start).storePtr (new + 24) size).storeWord (new + 32) flags x = m x := by
  unfold vmemAreaSize at hout
  rw [Mem.storeWord_of_outside _ _ (by omega), Mem.storePtr_of_outside _ _ (by omega), Mem.storePtr_of_outside _ _ (by omega)]

/-- The test of `vmem_free_pages` for one area. -/
def freesArea (virtAddr pgcnt : ℕ) (area : VmemArea) : Bool :=
  virtAddr = area.start ∧ (area.start + area.size * pageSize) % 2 ^ 64 = (virtAddr + pageSize * pgcnt) % 2 ^ 64

/-- Erasing what a search found. -/
theorem erase_of_find? {p : ℕ → Bool} {l : List ℕ} {a : ℕ} (hfound : l.find? p = some a) : l.erase a = l.eraseP p := by
  obtain ⟨hp, before, after, rfl, hnot⟩ := List.find?_eq_some_iff_append.mp hfound
  have hbefore : a ∉ before := fun hmem => by simpa [hp] using hnot a hmem
  rw [List.erase_append_right _ hbefore, List.erase_cons_head,
    List.eraseP_append_right _ (fun b hb => by simpa using hnot b hb), List.eraseP_cons_of_pos hp]

theorem AreaNodes.vmemFreePages_eq (fuel areasList virtAddr pgcnt : ℕ) (s : ObjState) :
    AreaNodes.vmemFreePages fuel areasList virtAddr pgcnt s =
      (kassert (maskDown virtAddr pageSize = virtAddr)
        "((uint64_t)virt_addr & (~(4096 - 1))) == (uint64_t)virt_addr" >>= fun _ =>
        match search (fun a => freesArea virtAddr pgcnt (areaAt s.k.mem a)) s.k.mem areasList fuel (next s.k.mem areasList) with
        | none => .ok none
        | some none => .error "alloc-free mismatch in vmem at %p"
        | some (some areaNode) =>
            listExtract s.k.mem areaNode >>= fun m => (s.withMem m).give areaNode >>= fun s => .ok (some s)) := rfl

namespace AreaRings

variable {ι : Type} [DecidableEq ι] {s : AreasState ι} {nodes : ι → List ℕ} (h : AreaRings s nodes) {i : ι} {head : ℕ}
  (hi : s.areasList i = some head)

include h hi

/-! ## Searches -/

section Searches

omit [DecidableEq ι]

/-- A search of the list in memory is a search of the areas. -/
theorem search_areas (test : VmemArea → Bool) {fuel : ℕ} :
    (∀ found, search (fun a => test (areaAt s.obj.k.mem a)) s.obj.k.mem head fuel (next s.obj.k.mem head) = some found →
      found = (nodes i).find? (test ∘ areaAt s.obj.k.mem)) ∧
    ((nodes i).length < fuel → search (fun a => test (areaAt s.obj.k.mem a)) s.obj.k.mem head fuel (next s.obj.k.mem head) =
      some ((nodes i).find? (test ∘ areaAt s.obj.k.mem))) :=
  ⟨fun _ hfound => (h.ring i head hi).search_eq_some hfound, fun hfuel => (h.ring i head hi).search_eq hfuel⟩

theorem vmemIsMapped_some {fuel addr : ℕ} {found : Option ℕ}
    (hcall : AreaNodes.vmemIsMapped fuel s.obj.k.mem head addr = some found) (pml4 : ℕ) :
    found.map (areaAt s.obj.k.mem) = HeavenOS.vmemIsMapped ⟨(nodes i).map (areaAt s.obj.k.mem), pml4⟩ addr := by
  rw [HeavenOS.vmemIsMapped, List.find?_map, (h.search_areas hi fun area => area.Holds addr).1 found hcall]

theorem vmemIsMapped_enough {fuel : ℕ} (addr : ℕ) (hfuel : (nodes i).length < fuel) :
    ∃ found, AreaNodes.vmemIsMapped fuel s.obj.k.mem head addr = some found :=
  ⟨_, (h.search_areas hi fun area => area.Holds addr).2 hfuel⟩

theorem vmemIntersects_some {fuel addr size : ℕ} {meets : Bool}
    (hcall : AreaNodes.vmemIntersects fuel s.obj.k.mem head addr size = some meets) (pml4 : ℕ) :
    meets = HeavenOS.vmemIntersects ⟨(nodes i).map (areaAt s.obj.k.mem), pml4⟩ addr size := by
  obtain ⟨found, hfound, rfl⟩ := Option.map_eq_some_iff.mp hcall
  have hsearch := (h.search_areas hi fun area => ¬((addr + size) % 2 ^ 64 ≤ area.start ∨
    (area.start + area.size * pageSize) % 2 ^ 64 ≤ addr)).1 found hfound
  rw [hsearch, HeavenOS.vmemIntersects, List.any_map, List.isSome_find?]

theorem vmemIntersects_enough {fuel : ℕ} (addr size : ℕ) (hfuel : (nodes i).length < fuel) :
    ∃ meets, AreaNodes.vmemIntersects fuel s.obj.k.mem head addr size = some meets := by
  have hsearch := (h.search_areas hi fun area => ¬((addr + size) % 2 ^ 64 ≤ area.start ∨
    (area.start + area.size * pageSize) % 2 ^ 64 ≤ addr)).2 hfuel
  exact ⟨_, Option.map_eq_some_iff.mpr ⟨_, hsearch, rfl⟩⟩

end Searches

/-! ## Changes -/

/-- What `vmem_alloc_pages` does: panics aside, the new area becomes the first. -/
theorem vmemAllocPages_eq {fuel n virtAddr pgcnt : ℕ} (flags : BitVec 64) (hfuel : pageSize < fuel * cacheLineSizeBytes)
    (hsupply : ObjSupply s.obj.pages s.obj.k.frames (n + 1)) (hvirt : virtAddr < 2 ^ 64) (hpgcnt : pgcnt < 2 ^ 64) :
    ∃ obj new, AreaRings (s.set obj i (some head)) (Function.update nodes i (new :: nodes i)) ∧
      (s.set obj i (some head)).spaces (Function.update nodes i (new :: nodes i)) =
        Function.update (s.spaces nodes) i (some (⟨virtAddr, pgcnt, flags⟩ :: (nodes i).map (areaAt s.obj.k.mem))) ∧
      ObjSupply obj.pages obj.k.frames n ∧
      AreaNodes.vmemAllocPages fuel head virtAddr pgcnt flags s.obj =
        (kassert (maskDown virtAddr pageSize = virtAddr)
          "((uint64_t)virt_addr & (~(4096 - 1))) == (uint64_t)virt_addr" >>= fun _ =>
            match AreaNodes.vmemIntersects fuel s.obj.k.mem head virtAddr pgcnt with
            | none => .ok none
            | some true => .error "intersection of virtual regions has occured in vmem at %p"
            | some false => .ok (some ((0 : ℤ), obj))) := by
  obtain ⟨free, hinv⟩ := h.books
  obtain ⟨new, o, free', htake, hinv', hlive, hleft, hmem⟩ := hinv.take hfuel hsupply
  have hne := (hinv'.object_bounds (hlive ▸ List.mem_cons_self)).1
  obtain ⟨m, hcall, hrings, hspaces⟩ := h.link hi hinv' hlive hmem fun x hx => stores_of_outside o.k.mem new virtAddr pgcnt flags hx
  rw [areaAt_stores _ _ _ hvirt hpgcnt] at hspaces
  refine ⟨o.withMem m, new, hrings, hspaces, hleft, ?_⟩
  rw [AreaNodes.vmemAllocPages]
  refine congrArg _ (funext fun _ => ?_)
  cases AreaNodes.vmemIntersects fuel s.obj.k.mem head virtAddr pgcnt with
  | none => rfl
  | some meets =>
      cases meets with
      | true => rfl
      | false =>
          obtain ⟨m', hinit, hinsert⟩ := bind_eq_ok.mp hcall
          simp only [htake, ok_bind, if_neg hne, hinit, hinsert]
          rfl

/-- The area goes that `vmem_free_pages` finds first. -/
theorem vmemFreePages_found {fuel virtAddr pgcnt node : ℕ}
    (hfound : search (fun a => freesArea virtAddr pgcnt (areaAt s.obj.k.mem a)) s.obj.k.mem head fuel (next s.obj.k.mem head) =
      some (some node)) (haligned : maskDown virtAddr pageSize = virtAddr) :
    ∃ obj, AreaNodes.vmemFreePages fuel head virtAddr pgcnt s.obj = .ok (some obj) ∧
      AreaRings (s.set obj i (some head)) (Function.update nodes i ((nodes i).erase node)) ∧
      (s.set obj i (some head)).spaces (Function.update nodes i ((nodes i).erase node)) =
        Function.update (s.spaces nodes) i (some (((nodes i).map (areaAt s.obj.k.mem)).eraseP (freesArea virtAddr pgcnt))) := by
  have hfirst := ((h.search_areas hi (freesArea virtAddr pgcnt)).1 _ hfound).symm
  obtain ⟨m, obj, hextract, hgive, hrings, hspaces⟩ := h.extract hi (List.mem_of_find?_eq_some hfirst)
  refine ⟨obj, ?_, hrings, ?_⟩
  · rw [AreaNodes.vmemFreePages_eq, kassert_of_true haligned, ok_bind, hfound]
    simp only [hextract, hgive, ok_bind]
  · rw [hspaces, erase_of_find? hfirst, List.eraseP_map]

end AreaRings

section Loops

variable {ι : Type} [DecidableEq ι]

/-- The loop of `vmem_destroy` empties the list, given enough fuel. -/
theorem popAreas_spec {i : ι} {head : ℕ} {s : AreasState ι} {nodes : ι → List ℕ} (h : AreaRings s nodes)
    (hi : s.areasList i = some head) (fuel : ℕ) :
    ∃ result, AreaNodes.popAreas head fuel s.obj = .ok result ∧ (result = none ↔ fuel ≤ (nodes i).length) ∧
      ∀ obj, result = some obj → AreaRings (s.set obj i (some head)) (Function.update nodes i []) ∧
        (s.set obj i (some head)).spaces (Function.update nodes i []) = Function.update (s.spaces nodes) i (some []) := by
  induction fuel generalizing s nodes with
  | zero => exact ⟨none, rfl, by simp, fun obj hnone => by cases hnone⟩
  | succ fuel ih =>
      obtain ⟨free, hinv⟩ := h.books
      have hne := (hinv.object_bounds (h.cell_live hi List.mem_cons_self)).1
      have hring := h.ring i head hi
      rw [AreaNodes.popAreas, listEmpty_of_isRing hring hne, ok_bind]
      cases hnodes : nodes i with
      | nil =>
          have hsame := s.set_eq_self hi
          have hsame' : Function.update nodes i [] = nodes := by rw [← hnodes, Function.update_eq_self]
          refine ⟨some s.obj, by simp [pure, Except.pure], by simp, fun obj hobj => ?_⟩
          obtain rfl := Option.some.inj hobj
          rw [hsame, hsame']
          refine ⟨h, ?_⟩
          have hempty := @AreaRings.spaces_eq _ s nodes i head hi
          rw [hnodes, List.map_nil] at hempty
          rw [← hempty, Function.update_eq_self]
      | cons node rest =>
          have hnext : next s.obj.k.mem head = node := by rw [hring.next_head, hnodes]; rfl
          obtain ⟨m, obj, hextract, hgive, hrings, hspaces⟩ := h.extract hi (hnodes ▸ List.mem_cons_self)
          rw [hnodes, List.erase_cons_head] at hrings hspaces
          obtain ⟨result, hresult, hlen, hdone⟩ := ih hrings (s.set_self ..)
          refine ⟨result, ?_, by rw [hlen, Function.update_self, List.length_cons, Nat.succ_le_succ_iff], fun obj' hobj' => ?_⟩
          · simp only [hnext, hextract, hgive, ok_bind]
            exact (if_neg (by simp)).trans hresult
          · obtain ⟨hrings', hspaces'⟩ := hdone obj' hobj'
            rw [hspaces, Function.update_idem, Function.update_idem, AreasState.set_set] at hspaces'
            rw [Function.update_idem, AreasState.set_set] at hrings'
            exact ⟨hrings', hspaces'⟩

/-- What the loop of `vmem_clone` writes into a new object, with each word read when it is needed. -/
theorem stores_copied {m : Mem} {copy a : ℕ} (hapart : a + vmemAreaSize ≤ copy ∨ copy + vmemAreaSize ≤ a) :
    (let m1 := m.storePtr (copy + 16) (m.loadPtr (a + 16))
      let m2 := m1.storePtr (copy + 24) (m1.loadPtr (a + 24))
      m2.storeWord (copy + 32) (m2.loadWord (a + 32))) =
      ((m.storePtr (copy + 16) (areaAt m a).start).storePtr (copy + 24) (areaAt m a).size).storeWord (copy + 32)
        (areaAt m a).flags := by
  unfold vmemAreaSize at hapart
  have hword (p q : ℕ) : ((m.storePtr (copy + 16) p).storePtr (copy + 24) q).loadWord (a + 32) = m.loadWord (a + 32) := by
    rw [Mem.storePtr, Mem.loadWord_storeWord_of_disjoint _ _ (by omega), Mem.storePtr,
      Mem.loadWord_storeWord_of_disjoint _ _ (by omega)]
  simp only [hword, Mem.loadPtr_storePtr_of_disjoint m (a := copy + 16) (b := a + 24) _ (by omega)]
  rfl

/-- The node behind a node. -/
theorem IsRing.next_of_append {m : Mem} {head a : ℕ} {before after : List ℕ} (h : IsRing m head (before ++ a :: after)) :
    next m a = after.headD head := by
  rw [h.rotate.next_head]
  cases after <;> rfl

/-- The loop of `vmem_clone` puts a copy of every area in front of the list, given enough fuel. -/
theorem cloneAreas_spec {i j : ι} {src dst fuel count : ℕ} {s : AreasState ι} {nodes : ι → List ℕ} {before rest : List ℕ}
    (h : AreaRings s nodes) (hi : s.areasList i = some src) (hj : s.areasList j = some dst) (hij : i ≠ j)
    (hfuel : pageSize < fuel * cacheLineSizeBytes) (hsupply : ObjSupply s.obj.pages s.obj.k.frames count)
    (hnodes : nodes i = before ++ rest) :
    ∃ result, AreaNodes.cloneAreas fuel dst src count (rest.headD src) s.obj = .ok result ∧
      (result = none ↔ count ≤ rest.length) ∧ ∀ res obj, result = some (res, obj) → res = 0 ∧
        ∃ nodes', AreaRings (s.set obj j (some dst)) nodes' ∧ (s.set obj j (some dst)).spaces nodes' =
          Function.update (s.spaces nodes) j
            (some (rest.reverse.map (areaAt s.obj.k.mem) ++ (nodes j).map (areaAt s.obj.k.mem))) := by
  induction count generalizing s nodes before rest with
  | zero => exact ⟨none, rfl, by simp, fun res obj hnone => by cases hnone⟩
  | succ count ih =>
      have hring := h.ring i src hi
      cases rest with
      | nil =>
          have hsame := s.set_eq_self hj
          refine ⟨some (0, s.obj), if_pos rfl, by simp, fun res obj hobj => ?_⟩
          cases hobj
          refine ⟨rfl, nodes, hsame.symm ▸ h, ?_⟩
          rw [hsame, List.reverse_nil, List.map_nil, List.nil_append, ← AreaRings.spaces_eq hj, Function.update_eq_self]
      | cons a rest =>
          have ha : a ∈ nodes i := by rw [hnodes]; simp
          have hsrc : a ≠ src := (hring.head_apart ha).ne.symm
          have halive := h.cell_live hi (List.mem_cons_of_mem _ ha)
          obtain ⟨free, hinv⟩ := h.books
          obtain ⟨copy, o, free', htake, hinv', hlive, hleft, hmem⟩ := hinv.take hfuel hsupply
          have hne := (hinv'.object_bounds (hlive ▸ List.mem_cons_self)).1
          have hapart := hinv'.objects_apart (hlive ▸ List.mem_cons_of_mem _ halive) (hlive ▸ List.mem_cons_self)
            fun heq : a = copy => AreaRings.taken_not_live hinv' hlive (heq ▸ halive)
          have hstores := @stores_copied o.k.mem copy a hapart
          have harea : areaAt o.k.mem a = areaAt s.obj.k.mem a := areaAt_congr fun x hlo hhi => hmem a halive x (by omega) hhi
          obtain ⟨m, hcall, hrings, hspaces⟩ := h.link hj hinv' hlive hmem fun x hx =>
            stores_of_outside o.k.mem copy (areaAt o.k.mem a).start (areaAt o.k.mem a).size (areaAt o.k.mem a).flags hx
          have hstart : (areaAt o.k.mem a).start < 2 ^ 64 := Mem.loadPtr_lt _ _
          have hsize : (areaAt o.k.mem a).size < 2 ^ 64 := Mem.loadPtr_lt _ _
          rw [areaAt_stores _ _ _ hstart hsize] at hspaces
          have hadded : (s.set (o.withMem m) j (some dst)).spaces (Function.update nodes j (copy :: nodes j)) =
              Function.update (s.spaces nodes) j
                (some (areaAt s.obj.k.mem a :: (nodes j).map (areaAt s.obj.k.mem))) := by rw [hspaces, ← harea]
          have hi' : (s.set (o.withMem m) j (some dst)).areasList i = some src := by
            rw [s.set_of_ne _ _ hij, hi]
          have hj' : (s.set (o.withMem m) j (some dst)).areasList j = some dst := s.set_self ..
          have hnodes' : Function.update nodes j (copy :: nodes j) i = (before ++ [a]) ++ rest := by
            rw [Function.update_of_ne hij, hnodes, List.append_assoc, List.singleton_append]
          obtain ⟨result, hresult, hlen, hdone⟩ := ih hrings hi' hj' hleft hnodes'
          have hnext : next m a = rest.headD src := by
            have hring' := hrings.ring i src hi'
            rw [hnodes', List.append_assoc, List.singleton_append] at hring'
            exact IsRing.next_of_append hring'
          -- the source is as before
          have hsource : ∀ c ∈ nodes i, areaAt m c = areaAt s.obj.k.mem c := by
            have heq := congrFun hadded i
            rw [Function.update_of_ne hij, AreaRings.spaces_eq hi', AreaRings.spaces_eq hi, Function.update_of_ne hij] at heq
            exact List.map_inj_left.mp (Option.some.inj heq)
          have htarget : (copy :: nodes j).map (areaAt m) = areaAt s.obj.k.mem a :: (nodes j).map (areaAt s.obj.k.mem) := by
            have heq := congrFun hadded j
            rw [Function.update_self, AreaRings.spaces_eq hj', Function.update_self] at heq
            exact Option.some.inj heq
          refine ⟨result, ?_, by rw [hlen, List.length_cons, Nat.succ_le_succ_iff], fun res obj hobj => ?_⟩
          · obtain ⟨m', hinit, hinsert⟩ := bind_eq_ok.mp hcall
            rw [List.headD_cons, AreaNodes.cloneAreas, if_neg hsrc, htake, ok_bind]
            simp only [if_neg hne] at hstores ⊢
            rw [hstores, hinit, ok_bind, hinsert, ok_bind, hnext]
            exact hresult
          · obtain ⟨hres, nodes', hrings', hspaces'⟩ := hdone res obj hobj
            refine ⟨hres, nodes', ?_, ?_⟩
            · rwa [AreasState.set_set] at hrings'
            · have hrest : rest.reverse.map (areaAt m) = rest.reverse.map (areaAt s.obj.k.mem) :=
                List.map_congr_left fun c hc => hsource c (by rw [hnodes]; simp [List.mem_reverse.mp hc])
              rw [AreasState.set_set, hadded, Function.update_idem, AreasState.set_obj, ObjState.withMem_mem, Function.update_self,
                htarget, hrest] at hspaces'
              rw [hspaces', List.reverse_cons, List.map_append, List.append_assoc]
              rfl

/-- `vmem_clone` leaves the copies in reverse, given enough fuel. -/
theorem AreaRings.vmemClone_spec {i j : ι} {src fuel count : ℕ} {s : AreasState ι} {nodes : ι → List ℕ} (h : AreaRings s nodes)
    (hi : s.areasList i = some src) (hj : s.areasList j = none) (hij : i ≠ j)
    (hfuel : pageSize < fuel * cacheLineSizeBytes) (hsupply : ObjSupply s.obj.pages s.obj.k.frames (count + 1)) :
    ∃ result, AreaNodes.vmemClone fuel count src s.obj = .ok result ∧ (result = none ↔ count ≤ (nodes i).length) ∧
      ∀ res dst obj, result = some (res, dst, obj) → res = 0 ∧
        ∃ nodes', AreaRings (s.set obj j (some dst)) nodes' ∧ (s.set obj j (some dst)).spaces nodes' =
          Function.update (s.spaces nodes) j (some ((nodes i).reverse.map (areaAt s.obj.k.mem))) := by
  obtain ⟨dst, o, hinit, hleft, hrings, hspaces⟩ := h.vmemInit hj hfuel hsupply
  have hi' : (s.set o j (some dst)).areasList i = some src := by rw [s.set_of_ne _ _ hij, hi]
  have hsource : ∀ c ∈ nodes i, areaAt o.k.mem c = areaAt s.obj.k.mem c := by
    have heq := congrFun hspaces i
    rw [Function.update_of_ne hij, AreaRings.spaces_eq hi', AreaRings.spaces_eq hi, Function.update_of_ne hij] at heq
    exact List.map_inj_left.mp (Option.some.inj heq)
  obtain ⟨result, hresult, hlen, hdone⟩ := cloneAreas_spec hrings hi' (s.set_self ..) hij hfuel hleft
    (show Function.update nodes j [] i = [] ++ nodes i from Function.update_of_ne hij ..)
  have hnext : next o.k.mem src = (nodes i).headD src := by
    have hring := hrings.ring i src hi'
    rw [Function.update_of_ne hij] at hring
    exact hring.next_head
  refine ⟨result.map fun r => (r.1, dst, r.2), ?_, by simpa using hlen, fun res dst' obj hobj => ?_⟩
  · rw [AreaNodes.vmemClone, hinit, ok_bind]
    simp only [hnext]
    rw [if_neg (by decide), show AreaNodes.cloneAreas fuel dst src count ((nodes i).headD src) o = .ok result from hresult, ok_bind]
    cases result <;> rfl
  · obtain ⟨⟨res', obj'⟩, hr, heq⟩ := Option.map_eq_some_iff.mp hobj
    cases heq
    obtain ⟨hres, nodes', hrings', hspaces'⟩ := hdone _ _ hr
    rw [AreasState.set_set] at hrings' hspaces'
    rw [hspaces, Function.update_idem, Function.update_self, List.map_nil, List.append_nil] at hspaces'
    refine ⟨hres, nodes', hrings', hspaces'.trans ?_⟩
    exact congrArg (fun l => Function.update (s.spaces nodes) j (some l))
      (List.map_congr_left fun c hc => hsource c (List.mem_reverse.mp hc))

/-- `vmem_destroy` gives all objects of a list back, given enough fuel. -/
theorem AreaRings.vmemDestroy_spec {i : ι} {head : ℕ} {s : AreasState ι} {nodes : ι → List ℕ} (h : AreaRings s nodes)
    (hi : s.areasList i = some head) (fuel : ℕ) :
    ∃ result, AreaNodes.vmemDestroy fuel head false s.obj = .ok result ∧ (result = none ↔ fuel ≤ (nodes i).length) ∧
      ∀ obj, result = some obj → ∃ nodes', AreaRings (s.set obj i none) nodes' ∧
        (s.set obj i none).spaces nodes' = Function.update (s.spaces nodes) i none := by
  obtain ⟨popped, hpop, hlen, hdone⟩ := popAreas_spec h hi fuel
  cases popped with
  | none =>
      refine ⟨none, ?_, hlen, fun obj hnone => by cases hnone⟩
      rw [AreaNodes.vmemDestroy, kassert_of_true (by decide), ok_bind, hpop]
      rfl
  | some o =>
      obtain ⟨hrings, hspaces⟩ := hdone o rfl
      obtain ⟨obj, hgive, hrings', hspaces'⟩ := hrings.close (s.set_self ..) (Function.update_self ..)
      refine ⟨some obj, ?_, by simpa using hlen, fun obj' hobj' => ?_⟩
      · rw [AreaNodes.vmemDestroy, kassert_of_true (by decide), ok_bind, hpop, ok_bind]
        simp only [show o.give head = .ok obj from hgive, ok_bind]
        rfl
      · cases hobj'
        rw [AreasState.set_set] at hrings' hspaces'
        exact ⟨_, hrings', hspaces'.trans (by rw [hspaces, Function.update_idem])⟩

omit [DecidableEq ι] in
/-- Nobody writes to the pages of the allocator. -/
theorem AreaRings.other {s : AreasState ι} {nodes : ι → List ℕ} (h : AreaRings s nodes) {k : Kernel}
    (hmem : ∀ page ∈ s.obj.pages, ∀ x, InFrame page x → k.mem x = s.obj.k.mem x) :
    AreaRings ⟨{ s.obj with k := k }, s.areasList⟩ nodes ∧
      AreasState.spaces ⟨{ s.obj with k := k }, s.areasList⟩ nodes = s.spaces nodes := by
  obtain ⟨free, hinv⟩ := h.books
  have hsame {i : ι} {a x : ℕ} (ha : a ∈ s.cells nodes i) (hlo : a ≤ x) (hhi : x < a + vmemAreaSize) :
      k.mem x = s.obj.k.mem x := by
    obtain ⟨page, hpage, hslot⟩ := hinv.slot a (List.mem_append_left _ ((h.live a).mpr ⟨i, ha⟩))
    have hroom := (@stride_spec vmemAreaSize (by decide) (by decide)).2.1
    have hpageLo := hslot.page_le
    have hpageHi := hslot.le_stop
    exact hmem page hpage x ⟨by omega, by omega⟩
  refine ⟨⟨⟨free, hinv.other (by decide) (by decide) fun page hpage x hx _ => hmem page hpage x hx⟩, fun i head hi => ?_,
    h.absent, h.live, h.apart⟩, funext fun i => ?_⟩
  · refine (h.ring i head hi).congr fun a ha x hlo hhi => hsame (i := i) ?_ hlo (by unfold vmemAreaSize; omega)
    exact (AreaRings.cells_eq hi).symm ▸ ha
  · simp only [AreasState.spaces]
    cases s.areasList i with
    | none => rfl
    | some head =>
        refine congrArg some (List.map_congr_left fun c hc => areaAt_congr fun x hlo hhi => ?_)
        exact hsame (List.mem_append_right _ hc) (by omega) hhi

end Loops

/-! ## Calls on sequences -/

section Sequences

variable {areas : List VmemArea} {pml4 virtAddr pgcnt : ℕ} {flags : BitVec 64}

/-- A kernel whose next object and frame are there. -/
def plentifulKernel (objects : ℕ) : Kernel := { objKernel with objects := List.replicate objects true }

theorem vmemInit_plentiful : ∃ k, vmemInit (plentifulKernel 1) = (0, ⟨[], directMapStart + 0x1000⟩, k) := ⟨_, rfl⟩

theorem vmemAllocPages_plentiful (haligned : maskDown virtAddr pageSize = virtAddr)
    (hmeets : vmemIntersects ⟨areas, pml4⟩ virtAddr pgcnt = false) :
    ∃ k, vmemAllocPages ⟨areas, pml4⟩ virtAddr pgcnt flags (plentifulKernel 1) =
      .ok (0, ⟨⟨virtAddr, pgcnt, flags⟩ :: areas, pml4⟩, k) := by
  rw [vmemAllocPages, kassert_of_true haligned, ok_bind, hmeets]
  exact ⟨_, rfl⟩

theorem vmemFreePages_of_mine (k : Kernel) (haligned : maskDown virtAddr pageSize = virtAddr)
    (hmine : areas.any (freesArea virtAddr pgcnt) = true) :
    ∃ k', vmemFreePages ⟨areas, pml4⟩ virtAddr pgcnt k = .ok (⟨areas.eraseP (freesArea virtAddr pgcnt), pml4⟩, k') := by
  rw [vmemFreePages, kassert_of_true haligned, ok_bind]
  exact ⟨_, if_neg (not_not.mpr hmine)⟩

theorem cloneAreas_plentiful (src : List VmemArea) (dst : Vmem) :
    ∃ k, cloneAreas src dst (plentifulKernel src.length) = (0, ⟨src.reverse ++ dst.areas, dst.pml4⟩, k) := by
  induction src generalizing dst with
  | nil => exact ⟨_, rfl⟩
  | cons area src ih =>
      obtain ⟨k, hk⟩ := ih ⟨area :: dst.areas, dst.pml4⟩
      refine ⟨k, ?_⟩
      rw [List.reverse_cons, List.append_assoc]
      exact hk

end Sequences

/-! ## Runs -/

/-- A call on the address space `i`, with its result. -/
inductive AreasLabel (ι : Type)
  | init (i : ι) (res : Int)
  | allocPages (i : ι) (virtAddr pgcnt : ℕ) (flags : BitVec 64) (res : Int)
  | freePages (i : ι) (virtAddr pgcnt : ℕ)
  | isMapped (i : ι) (addr : ℕ) (found : Option VmemArea)
  | clone (i j : ι) (res : Int)
  | destroy (i : ι)
  | other

variable {ι : Type} [DecidableEq ι]

/-- A call that returned. The object allocator gets a page whenever it asks for one, and nobody
else writes to its pages. -/
inductive AreasStep : AreasState ι → AreasLabel ι → AreasState ι → Prop
  | init {s : AreasState ι} {i : ι} {fuel head : ℕ} {res : Int} {obj : ObjState} (hi : s.areasList i = none)
      (hfuel : pageSize < fuel * cacheLineSizeBytes) (hsupply : ObjSupply s.obj.pages s.obj.k.frames 1)
      (hcall : AreaNodes.vmemInit fuel s.obj = .ok (some (res, head, obj))) :
      AreasStep s (.init i res) (s.set obj i (some head))
  | allocPages {s : AreasState ι} {i : ι} {fuel head virtAddr pgcnt : ℕ} {flags : BitVec 64} {res : Int} {obj : ObjState}
      (hi : s.areasList i = some head) (hvirt : virtAddr < 2 ^ 64) (hpgcnt : pgcnt < 2 ^ 64)
      (hfuel : pageSize < fuel * cacheLineSizeBytes) (hsupply : ObjSupply s.obj.pages s.obj.k.frames 1)
      (hcall : AreaNodes.vmemAllocPages fuel head virtAddr pgcnt flags s.obj = .ok (some (res, obj))) :
      AreasStep s (.allocPages i virtAddr pgcnt flags res) (s.set obj i (some head))
  | freePages {s : AreasState ι} {i : ι} {fuel head virtAddr pgcnt : ℕ} {obj : ObjState} (hi : s.areasList i = some head)
      (hcall : AreaNodes.vmemFreePages fuel head virtAddr pgcnt s.obj = .ok (some obj)) :
      AreasStep s (.freePages i virtAddr pgcnt) (s.set obj i (some head))
  | isMapped {s : AreasState ι} {i : ι} {fuel head addr : ℕ} {found : Option ℕ} (hi : s.areasList i = some head)
      (hcall : AreaNodes.vmemIsMapped fuel s.obj.k.mem head addr = some found) :
      AreasStep s (.isMapped i addr (found.map (areaAt s.obj.k.mem))) s
  | clone {s : AreasState ι} {i j : ι} {fuel count src dst : ℕ} {res : Int} {obj : ObjState} (hi : s.areasList i = some src)
      (hj : s.areasList j = none) (hfuel : pageSize < fuel * cacheLineSizeBytes)
      (hsupply : ObjSupply s.obj.pages s.obj.k.frames (count + 1))
      (hcall : AreaNodes.vmemClone fuel count src s.obj = .ok (some (res, dst, obj))) :
      AreasStep s (.clone i j res) (s.set obj j (some dst))
  | destroy {s : AreasState ι} {i : ι} {fuel head : ℕ} {obj : ObjState} (hi : s.areasList i = some head)
      (hcall : AreaNodes.vmemDestroy fuel head false s.obj = .ok (some obj)) :
      AreasStep s (.destroy i) (s.set obj i none)
  | other {s : AreasState ι} {k : Kernel} (hmem : ∀ page ∈ s.obj.pages, ∀ x, InFrame page x → k.mem x = s.obj.k.mem x) :
      AreasStep s .other ⟨{ s.obj with k := k }, s.areasList⟩

/-- The same calls where the areas of an address space are a sequence. -/
inductive SpacesStep : (ι → Option (List VmemArea)) → AreasLabel ι → (ι → Option (List VmemArea)) → Prop
  | init {spaces : ι → Option (List VmemArea)} {i : ι} {k k' : Kernel} {res : Int} {vm : Vmem} (hi : spaces i = none)
      (hcall : vmemInit k = (res, vm, k')) : SpacesStep spaces (.init i res) (Function.update spaces i (some vm.areas))
  | allocPages {spaces : ι → Option (List VmemArea)} {i : ι} {areas : List VmemArea} {pml4 virtAddr pgcnt : ℕ}
      {flags : BitVec 64} {k k' : Kernel} {res : Int} {vm : Vmem} (hi : spaces i = some areas)
      (hcall : vmemAllocPages ⟨areas, pml4⟩ virtAddr pgcnt flags k = .ok (res, vm, k')) :
      SpacesStep spaces (.allocPages i virtAddr pgcnt flags res) (Function.update spaces i (some vm.areas))
  | freePages {spaces : ι → Option (List VmemArea)} {i : ι} {areas : List VmemArea} {pml4 virtAddr pgcnt : ℕ} {k k' : Kernel}
      {vm : Vmem} (hi : spaces i = some areas) (hcall : vmemFreePages ⟨areas, pml4⟩ virtAddr pgcnt k = .ok (vm, k')) :
      SpacesStep spaces (.freePages i virtAddr pgcnt) (Function.update spaces i (some vm.areas))
  | isMapped {spaces : ι → Option (List VmemArea)} {i : ι} {areas : List VmemArea} (pml4 addr : ℕ) (hi : spaces i = some areas) :
      SpacesStep spaces (.isMapped i addr (vmemIsMapped ⟨areas, pml4⟩ addr)) spaces
  | clone {spaces : ι → Option (List VmemArea)} {i j : ι} {areas : List VmemArea} {k k' : Kernel} {res : Int} {dst dst' : Vmem}
      (hi : spaces i = some areas) (hj : spaces j = none) (hdst : dst.areas = [])
      (hcall : cloneAreas areas dst k = (res, dst', k')) :
      SpacesStep spaces (.clone i j res) (Function.update spaces j (some dst'.areas))
  | destroy {spaces : ι → Option (List VmemArea)} {i : ι} {areas : List VmemArea} (hi : spaces i = some areas) :
      SpacesStep spaces (.destroy i) (Function.update spaces i none)
  | other {spaces : ι → Option (List VmemArea)} : SpacesStep spaces .other spaces

/-- `OBJ_ALLOC_DEFINE(vmem_area_alloc, vmem_area_t)`, and no address space. -/
def AreasState.start (ι : Type) (k : Kernel) : AreasState ι := ⟨ObjState.start vmemAreaSize k, fun _ => none⟩

omit [DecidableEq ι] in
theorem AreaRings.start (k : Kernel) : AreaRings (AreasState.start ι k) fun _ => [] where
  books := ⟨[], rfl, fun _ hp => (List.not_mem_nil hp).elim, FreeList.nil _, List.nodup_nil,
    fun _ ha => (List.not_mem_nil ha).elim⟩
  ring _ _ hnone := by cases hnone
  absent _ _ := rfl
  live a := ⟨fun ha => (List.not_mem_nil ha).elim, fun ⟨_, ha⟩ => (List.not_mem_nil ha).elim⟩
  apart _ _ _ := List.disjoint_nil_left _

/-- A step on memory is a step on sequences with the same call and result. -/
theorem AreasStep.simulated {s t : AreasState ι} {label : AreasLabel ι} (hstep : AreasStep s label t) {nodes : ι → List ℕ}
    (h : AreaRings s nodes) : ∃ nodes', AreaRings t nodes' ∧ SpacesStep (s.spaces nodes) label (t.spaces nodes') := by
  cases hstep with
  | init hi hfuel hsupply hcall =>
      obtain ⟨head', obj', hcall', -, hrings, hspaces⟩ := h.vmemInit (n := 0) hi hfuel hsupply
      rw [hcall'] at hcall
      cases hcall
      obtain ⟨k, hk⟩ := vmemInit_plentiful
      exact ⟨_, hrings, hspaces ▸ .init (by rw [AreasState.spaces, hi]; rfl) hk⟩
  | @allocPages i fuel head virtAddr pgcnt flags res obj hi hvirt hpgcnt hfuel hsupply hcall =>
      obtain ⟨obj', new, hrings, hspaces, -, heq⟩ := h.vmemAllocPages_eq (n := 0) hi flags hfuel hsupply hvirt hpgcnt
      rw [heq] at hcall
      obtain ⟨_, haligned, hcall⟩ := bind_eq_ok.mp hcall
      have haligned := kassert_eq_ok_iff.mp haligned
      cases hmeets : AreaNodes.vmemIntersects fuel s.obj.k.mem head virtAddr pgcnt with
      | none =>
          rw [hmeets] at hcall
          cases hcall
      | some meets =>
          rw [hmeets] at hcall
          cases meets with
          | true => cases hcall
          | false =>
              cases hcall
              obtain ⟨k, hk⟩ := @vmemAllocPages_plentiful _ 0 _ _ flags haligned (h.vmemIntersects_some hi hmeets 0).symm
              exact ⟨_, hrings, hspaces ▸ .allocPages (AreaRings.spaces_eq hi) hk⟩
  | @freePages i fuel head virtAddr pgcnt obj hi hcall =>
      rw [AreaNodes.vmemFreePages_eq] at hcall
      obtain ⟨_, haligned, hcall⟩ := bind_eq_ok.mp hcall
      have haligned := kassert_eq_ok_iff.mp haligned
      cases hfound : search (fun a => freesArea virtAddr pgcnt (areaAt s.obj.k.mem a)) s.obj.k.mem head fuel
          (next s.obj.k.mem head) with
      | none =>
          rw [hfound] at hcall
          cases hcall
      | some found =>
          cases found with
          | none =>
              rw [hfound] at hcall
              cases hcall
          | some node =>
              obtain ⟨obj', hcall', hrings, hspaces⟩ := h.vmemFreePages_found hi hfound haligned
              rw [AreaNodes.vmemFreePages_eq, kassert_of_true haligned, ok_bind, hcall] at hcall'
              cases hcall'
              have hfirst := (h.search_areas hi (freesArea virtAddr pgcnt)).1 _ hfound
              have hmine : ((nodes i).map (areaAt s.obj.k.mem)).any (freesArea virtAddr pgcnt) = true := by
                rw [List.any_map, ← List.isSome_find?, ← hfirst]
                rfl
              obtain ⟨k, hk⟩ := @vmemFreePages_of_mine _ 0 _ _ (plentifulKernel 0) haligned hmine
              exact ⟨_, hrings, hspaces ▸ .freePages (AreaRings.spaces_eq hi) hk⟩
  | isMapped hi hcall =>
      exact ⟨nodes, h, h.vmemIsMapped_some hi hcall 0 ▸ .isMapped 0 _ (AreaRings.spaces_eq hi)⟩
  | @clone i j fuel count src dst res obj hi hj hfuel hsupply hcall =>
      have hij : i ≠ j := fun heq => by
        rw [heq, hj] at hi
        cases hi
      obtain ⟨result, hresult, -, hdone⟩ := h.vmemClone_spec hi hj hij hfuel hsupply
      rw [hresult] at hcall
      obtain ⟨rfl, nodes', hrings, hspaces⟩ := hdone _ _ _ (Except.ok.inj hcall)
      obtain ⟨k, hk⟩ := cloneAreas_plentiful ((nodes i).map (areaAt s.obj.k.mem)) ⟨[], 0⟩
      rw [List.append_nil, ← List.map_reverse] at hk
      exact ⟨nodes', hrings, hspaces ▸ .clone (AreaRings.spaces_eq hi) (by rw [AreasState.spaces, hj]; rfl) rfl hk⟩
  | @destroy i fuel head obj hi hcall =>
      obtain ⟨result, hresult, -, hdone⟩ := h.vmemDestroy_spec hi fuel
      rw [hresult] at hcall
      obtain ⟨nodes', hrings, hspaces⟩ := hdone _ (Except.ok.inj hcall)
      exact ⟨nodes', hrings, hspaces ▸ .destroy (AreaRings.spaces_eq hi)⟩
  | @other k hmem =>
      exact ⟨nodes, (h.other hmem).1, (h.other hmem).2 ▸ .other⟩

section Reached

variable {k : Kernel} {labels : List (AreasLabel ι)} {s : AreasState ι}
  (hrun : Run AreasStep (AreasState.start ι k) labels s)

include hrun

/-- The rings in memory refine the sequences of areas, on every run. -/
theorem area_lists_refine : ∃ nodes, AreaRings s nodes ∧ Run SpacesStep (fun _ => none) labels (s.spaces nodes) := by
  induction hrun with
  | nil => exact ⟨fun _ => [], AreaRings.start k, .nil⟩
  | snoc _ hlast ih =>
      obtain ⟨nodes, hrings, hspaces⟩ := ih
      obtain ⟨nodes', hrings', hstep⟩ := hlast.simulated hrings
      exact ⟨nodes', hrings', hspaces.snoc hstep⟩

end Reached

/-- Five frames are left. -/
def fiveFramesKernel : Kernel :=
  { objKernel with frames := (List.range 5).map fun i => some (directMapStart + 0x1000 * (i + 1)) }

theorem fiveFramesKernel_supply : ObjSupply [] fiveFramesKernel.frames 5 := by
  refine ⟨(List.range 5).map fun i => directMapStart + 0x1000 * (i + 1), [], rfl, le_refl _, by decide, fun f hf => ?_⟩
  obtain ⟨i, hi, rfl⟩ := List.mem_map.mp hf
  have hlt := List.mem_range.mp hi
  exact ⟨⟨Nat.dvd_add (by decide) (Nat.dvd_mul_right _ _), by omega, by unfold pageSize; omega⟩, List.not_mem_nil⟩

/-- An address space is set up and gets an area; it is copied and destroyed. -/
theorem areas_run_copied : ∃ s : AreasState ℕ, Run AreasStep (AreasState.start ℕ fiveFramesKernel)
    [.init 0 0, .allocPages 0 0x1000 1 vmemUser 0, .clone 0 1 0, .destroy 0] s ∧ s.areasList 0 = none ∧ s.areasList 1 ≠ none := by
  have hsupply := fiveFramesKernel_supply
  have hfuel : pageSize < 65 * cacheLineSizeBytes := by decide
  have hstart := @AreaRings.start ℕ fiveFramesKernel
  obtain ⟨head, o1, hinit, hleft1, hrings1, -⟩ := hstart.vmemInit (i := 0) (n := 4) rfl hfuel hsupply
  have hhead : ((AreasState.start ℕ fiveFramesKernel).set o1 0 (some head)).areasList 0 = some head := AreasState.set_self ..
  obtain ⟨o2, new, hrings2, -, hleft2, halloc⟩ := hrings1.vmemAllocPages_eq (n := 3) hhead vmemUser hfuel hleft1
    (show 0x1000 < 2 ^ 64 by decide) (show 1 < 2 ^ 64 by decide)
  obtain ⟨meets, hmeets⟩ := hrings1.vmemIntersects_enough hhead 0x1000 1 (show 0 < 65 by decide)
  have hnone : meets = false := hrings1.vmemIntersects_some hhead hmeets 0
  rw [kassert_of_true (by decide), ok_bind, hmeets, hnone] at halloc
  obtain ⟨result, hclone, henough, hdone⟩ := hrings2.vmemClone_spec (j := 1) (AreasState.set_self ..) rfl (by decide) hfuel
    hleft2
  obtain ⟨⟨res, dst, o3⟩, rfl⟩ := Option.ne_none_iff_exists'.mp fun heq => absurd (henough.mp heq) (by simp)
  obtain ⟨rfl, nodes, hrings3, -⟩ := hdone res dst o3 rfl
  obtain ⟨result, hdestroy, henough, -⟩ := hrings3.vmemDestroy_spec (i := 0) (show _ = some head from rfl) ((nodes 0).length + 1)
  obtain ⟨o4, rfl⟩ := Option.ne_none_iff_exists'.mp fun heq => absurd (henough.mp heq) (by omega)
  have hrun1 := Run.single AreasStep (@AreasStep.init ℕ _ _ 0 _ _ _ _ rfl hfuel (hsupply.mono (by decide)) hinit)
  have hrun2 := hrun1.snoc (.allocPages hhead (by decide) (by decide) hfuel (hleft1.mono (by decide)) halloc)
  have hrun3 := hrun2.snoc (@AreasStep.clone ℕ _ _ 0 1 _ _ _ _ _ _ (AreasState.set_self ..) rfl hfuel hleft2 hclone)
  exact ⟨_, hrun3.snoc (.destroy rfl hdestroy), AreasState.set_self .., fun hgone => by cases hgone⟩

/-- The rings after a copy: the ring of the copied address space is gone. -/
theorem area_lists_refine_copied : ∃ (s : AreasState ℕ) (nodes : ℕ → List ℕ), AreaRings s nodes ∧
    Run SpacesStep (fun _ => none) [.init 0 0, .allocPages 0 0x1000 1 vmemUser 0, .clone 0 1 0, .destroy 0] (s.spaces nodes) := by
  obtain ⟨s, hrun, -⟩ := areas_run_copied
  exact ⟨s, area_lists_refine hrun⟩

/-- An assertion that does not hold ends the computation. -/
theorem kassert_bind_of_false {α : Type} {cond : Prop} [Decidable cond] (h : ¬cond) (expr : String)
    (f : Unit → Except Panic α) : (kassert cond expr >>= f) = .error ("assertion failed: '" ++ expr ++ "'") := by
  rw [kassert, if_neg h]
  rfl

/-- Given enough fuel, the calls on an address space end, and as the sequence of its areas
says: with the same area, the same result or the same panic. -/
structure CallsAgree (s : AreasState ι) (head : ℕ) (areas : List VmemArea) : Prop where
  isMapped : ∀ fuel addr, areas.length < fuel → ∃ found, AreaNodes.vmemIsMapped fuel s.obj.k.mem head addr = some found ∧
    found.map (areaAt s.obj.k.mem) = vmemIsMapped ⟨areas, 0⟩ addr
  allocPages : ∀ fuel virtAddr pgcnt flags, areas.length < fuel → pageSize < fuel * cacheLineSizeBytes →
    ObjSupply s.obj.pages s.obj.k.frames 1 → virtAddr < 2 ^ 64 → pgcnt < 2 ^ 64 →
    (∃ obj vm k, AreaNodes.vmemAllocPages fuel head virtAddr pgcnt flags s.obj = .ok (some (0, obj)) ∧
      vmemAllocPages ⟨areas, 0⟩ virtAddr pgcnt flags (plentifulKernel 1) = .ok (0, vm, k)) ∨
    ∃ e, AreaNodes.vmemAllocPages fuel head virtAddr pgcnt flags s.obj = .error e ∧
      vmemAllocPages ⟨areas, 0⟩ virtAddr pgcnt flags (plentifulKernel 1) = .error e
  freePages : ∀ fuel virtAddr pgcnt k, areas.length < fuel →
    (∃ obj vm k', AreaNodes.vmemFreePages fuel head virtAddr pgcnt s.obj = .ok (some obj) ∧
      vmemFreePages ⟨areas, 0⟩ virtAddr pgcnt k = .ok (vm, k')) ∨
    ∃ e, AreaNodes.vmemFreePages fuel head virtAddr pgcnt s.obj = .error e ∧
      vmemFreePages ⟨areas, 0⟩ virtAddr pgcnt k = .error e
  clone : ∀ fuel count j, areas.length < count → s.areasList j = none → pageSize < fuel * cacheLineSizeBytes →
    ObjSupply s.obj.pages s.obj.k.frames (count + 1) →
    ∃ dst obj, AreaNodes.vmemClone fuel count head s.obj = .ok (some (0, dst, obj))
  destroy : ∀ fuel, areas.length < fuel → ∃ obj, AreaNodes.vmemDestroy fuel head false s.obj = .ok (some obj)

section Agreement

variable {s : AreasState ι} {nodes : ι → List ℕ} (h : AreaRings s nodes) {i : ι} {head : ℕ} (hi : s.areasList i = some head)

include h hi

theorem AreaRings.allocPages_agree {fuel virtAddr pgcnt : ℕ} (flags : BitVec 64) (hlen : (nodes i).length < fuel)
    (hfuel : pageSize < fuel * cacheLineSizeBytes) (hsupply : ObjSupply s.obj.pages s.obj.k.frames 1)
    (hvirt : virtAddr < 2 ^ 64) (hpgcnt : pgcnt < 2 ^ 64) :
    (∃ obj vm k, AreaNodes.vmemAllocPages fuel head virtAddr pgcnt flags s.obj = .ok (some (0, obj)) ∧
      vmemAllocPages ⟨(nodes i).map (areaAt s.obj.k.mem), 0⟩ virtAddr pgcnt flags (plentifulKernel 1) = .ok (0, vm, k)) ∨
    ∃ e, AreaNodes.vmemAllocPages fuel head virtAddr pgcnt flags s.obj = .error e ∧
      vmemAllocPages ⟨(nodes i).map (areaAt s.obj.k.mem), 0⟩ virtAddr pgcnt flags (plentifulKernel 1) = .error e := by
  obtain ⟨obj, _, -, -, -, heq⟩ := h.vmemAllocPages_eq (n := 0) hi flags hfuel hsupply hvirt hpgcnt
  obtain ⟨meets, hmeets⟩ := h.vmemIntersects_enough hi virtAddr pgcnt hlen
  have hsame := h.vmemIntersects_some hi hmeets 0
  rw [heq, hmeets]
  by_cases haligned : maskDown virtAddr pageSize = virtAddr
  · rw [kassert_of_true haligned, ok_bind]
    cases meets with
    | false =>
        obtain ⟨k, hk⟩ := @vmemAllocPages_plentiful _ 0 _ _ flags haligned hsame.symm
        exact Or.inl ⟨obj, _, k, rfl, hk⟩
    | true =>
        refine Or.inr ⟨_, rfl, ?_⟩
        rw [vmemAllocPages, kassert_of_true haligned, ok_bind, ← hsame]
        rfl
  · right
    rw [vmemAllocPages, kassert_bind_of_false haligned, kassert_bind_of_false haligned]
    exact ⟨_, rfl, rfl⟩

theorem AreaRings.freePages_agree {fuel : ℕ} (virtAddr pgcnt : ℕ) (k : Kernel) (hlen : (nodes i).length < fuel) :
    (∃ obj vm k', AreaNodes.vmemFreePages fuel head virtAddr pgcnt s.obj = .ok (some obj) ∧
      vmemFreePages ⟨(nodes i).map (areaAt s.obj.k.mem), 0⟩ virtAddr pgcnt k = .ok (vm, k')) ∨
    ∃ e, AreaNodes.vmemFreePages fuel head virtAddr pgcnt s.obj = .error e ∧
      vmemFreePages ⟨(nodes i).map (areaAt s.obj.k.mem), 0⟩ virtAddr pgcnt k = .error e := by
  have hfound := (h.search_areas hi (freesArea virtAddr pgcnt)).2 hlen
  have hany : ((nodes i).map (areaAt s.obj.k.mem)).any (freesArea virtAddr pgcnt) =
      ((nodes i).find? (freesArea virtAddr pgcnt ∘ areaAt s.obj.k.mem)).isSome := by
    rw [List.any_map, List.isSome_find?]
  by_cases haligned : maskDown virtAddr pageSize = virtAddr
  · cases hnode : (nodes i).find? (freesArea virtAddr pgcnt ∘ areaAt s.obj.k.mem) with
    | some node =>
        rw [hnode] at hfound hany
        obtain ⟨obj, hcall, -⟩ := h.vmemFreePages_found hi hfound haligned
        obtain ⟨k', hk⟩ := @vmemFreePages_of_mine _ 0 _ _ k haligned hany
        exact Or.inl ⟨obj, _, k', hcall, hk⟩
    | none =>
        rw [hnode] at hfound hany
        refine Or.inr ⟨"alloc-free mismatch in vmem at %p", ?_, ?_⟩
        · rw [AreaNodes.vmemFreePages_eq, kassert_of_true haligned, ok_bind, hfound]
        · rw [vmemFreePages, kassert_of_true haligned, ok_bind]
          exact if_pos (Bool.eq_false_iff.mp hany)
  · right
    rw [AreaNodes.vmemFreePages_eq, vmemFreePages, kassert_bind_of_false haligned, kassert_bind_of_false haligned]
    exact ⟨_, rfl, rfl⟩

theorem AreaRings.callsAgree : CallsAgree s head ((nodes i).map (areaAt s.obj.k.mem)) := by
  have hlength : ((nodes i).map (areaAt s.obj.k.mem)).length = (nodes i).length := List.length_map ..
  constructor
  · intro fuel addr hlen
    obtain ⟨found, hfound⟩ := h.vmemIsMapped_enough hi addr (hlength ▸ hlen)
    exact ⟨found, hfound, h.vmemIsMapped_some hi hfound 0⟩
  · intro fuel virtAddr pgcnt flags hlen hfuel hsupply hvirt hpgcnt
    exact h.allocPages_agree hi flags (hlength ▸ hlen) hfuel hsupply hvirt hpgcnt
  · intro fuel virtAddr pgcnt k hlen
    exact h.freePages_agree hi virtAddr pgcnt k (hlength ▸ hlen)
  · intro fuel count j hlen hj hfuel hsupply
    have hij : i ≠ j := fun heq => by
      rw [heq, hj] at hi
      cases hi
    obtain ⟨result, hcall, hnone, hdone⟩ := h.vmemClone_spec hi hj hij hfuel hsupply
    cases result with
    | none => exact absurd (hnone.mp rfl) (by omega)
    | some r =>
        obtain ⟨res, dst, obj⟩ := r
        exact ⟨dst, obj, by rw [hcall, (hdone res dst obj rfl).1]⟩
  · intro fuel hlen
    obtain ⟨result, hcall, hnone, -⟩ := h.vmemDestroy_spec hi fuel
    cases result with
    | none => exact absurd (hnone.mp rfl) (by omega)
    | some obj => exact ⟨obj, hcall⟩

end Agreement

/-- In every state reached, every address space that is set up can be worked with. -/
theorem area_calls_agree {k : Kernel} {labels : List (AreasLabel ι)} {s : AreasState ι}
    (hrun : Run AreasStep (AreasState.start ι k) labels s) :
    ∃ nodes, AreaRings s nodes ∧ ∀ i head, s.areasList i = some head → CallsAgree s head ((nodes i).map (areaAt s.obj.k.mem)) := by
  obtain ⟨nodes, hrings⟩ := hrun.invariant (fun s => ∃ nodes, AreaRings s nodes) ⟨_, AreaRings.start k⟩
    fun _ _ _ ⟨_, h⟩ hstep => by
      obtain ⟨nodes', h', -⟩ := hstep.simulated h
      exact ⟨nodes', h'⟩
  exact ⟨nodes, hrings, fun i head hi => hrings.callsAgree hi⟩

/-- The copy of an address space can be worked with. -/
theorem area_calls_agree_copied : ∃ (s : AreasState ℕ) (areas : List VmemArea), ∃ head, s.areasList 1 = some head ∧
    CallsAgree s head areas := by
  obtain ⟨s, hrun, -, hset⟩ := areas_run_copied
  obtain ⟨head, hhead⟩ := Option.ne_none_iff_exists'.mp hset
  obtain ⟨nodes, -, hagree⟩ := area_calls_agree hrun
  exact ⟨s, _, head, hhead, hagree 1 head hhead⟩

end HeavenOS
