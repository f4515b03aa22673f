/-
# The object allocator

`mm/obj.c`. Pages are cut into slots of one size, and the free slots are a list threaded
through them. Freeing an object makes it the whole list: what was free before is never handed
out again. The objects in use are therefore always apart from one another and from the list,
and no call writes to any of them.
-/

import HeavenOS.Lib.FreeList
import HeavenOS.Lib.Runs
import HeavenOS.Mm.PageTable

namespace HeavenOS

open Lib

/-- `CACHE_LINE_SIZE_BYTES` -/
def cacheLineSizeBytes : ℕ := 64

/-- `obj_alloc_t` -/
structure ObjAlloc where
  nextFree : ℕ
  objSize : ℕ

/-- The loop of `object_alloc`; nothing if it has not come to its end with `fuel` tests of its
condition. -/
def carve (objSize stop : ℕ) : (fuel curr prev : ℕ) → Mem → Option (ℕ × Mem)
  | 0, _, _, _ => none
  | fuel + 1, curr, prev, m =>
      if (curr + objSize) % 2 ^ 64 ≤ stop then
        carve objSize stop fuel ((curr + roundUp objSize cacheLineSizeBytes) % 2 ^ 64) curr (m.storePtr curr prev)
      else some (prev, m)

namespace ObjAlloc

/-- `object_alloc`: the object, the allocator and the kernel behind the call; nothing if the
loop does not end. -/
def objectAlloc (fuel : ℕ) (alloc : ObjAlloc) (k : Kernel) : Except Panic (Option (ℕ × ObjAlloc × Kernel)) := do
  kassert (alloc.objSize ≤ pageSize) "alloc->obj_size <= PAGE_SIZE"
  let carved : Option (ObjAlloc × Kernel) :=
    if alloc.nextFree = 0 then
      let (page, k) := frameAlloc k
      match carve alloc.objSize ((page + pageSize) % 2 ^ 64) fuel page 0 k.mem with
      | none => none
      | some (prev, m) => some ({ alloc with nextFree := prev }, { k with mem := m })
    else some (alloc, k)
  return match carved with
  | none => none
  | some (alloc, k) => some (alloc.nextFree, { alloc with nextFree := k.mem.loadPtr alloc.nextFree }, k)

/-- `object_free` -/
def objectFree (alloc : ObjAlloc) (obj : ℕ) (k : Kernel) : Except Panic (ObjAlloc × Kernel) := do
  kassert (obj ≠ 0) "obj != ((void *)0)"
  return ({ alloc with nextFree := obj }, { k with mem := k.mem.storePtr obj 0 })

end ObjAlloc

/-! ## Slots -/

/-- The distance of two slots. -/
def stride (objSize : ℕ) : ℕ := roundUp objSize cacheLineSizeBytes

/-- `a` is the start of a slot of the page. -/
structure Slot (objSize page a : ℕ) : Prop where
  page_le : page ≤ a
  dvd : stride objSize ∣ a - page
  le_stop : a + stride objSize ≤ page + pageSize

section Stride

variable {objSize : ℕ} (hpos : 1 ≤ objSize) (hmax : objSize ≤ pageSize)

include hpos hmax

/-- A slot has room for an object and for a link. -/
theorem stride_spec : cacheLineSizeBytes ∣ stride objSize ∧ objSize ≤ stride objSize ∧
    8 ≤ stride objSize ∧ stride objSize < objSize + cacheLineSizeBytes := by
  have hpage : pageSize = 4096 := rfl
  have hline : cacheLineSizeBytes = 64 := rfl
  obtain ⟨hlo, hhi⟩ := roundUp_bounds (show 0 < cacheLineSizeBytes by decide) (show objSize + cacheLineSizeBytes ≤ 2 ^ 64 by omega)
  have hdvd : cacheLineSizeBytes ∣ stride objSize := dvd_roundUp objSize cacheLineSizeBytes
  refine ⟨hdvd, hlo, ?_, hhi⟩
  obtain ⟨n, hn⟩ := hdvd
  change objSize ≤ stride objSize at hlo
  rw [hline] at hn
  omega

omit hpos hmax in
/-- Different slots are apart. -/
theorem Slot.apart {page page' a b : ℕ} (ha : Slot objSize page a) (hb : Slot objSize page' b) (hpage : pageSize ∣ page)
    (hpage' : pageSize ∣ page') (hne : a ≠ b) : a + stride objSize ≤ b ∨ b + stride objSize ≤ a := by
  have halo := ha.page_le
  have hblo := hb.page_le
  have hahi := ha.le_stop
  have hbhi := hb.le_stop
  by_cases heq : page = page'
  · subst heq
    obtain ⟨i, hi⟩ := ha.dvd
    obtain ⟨j, hj⟩ := hb.dvd
    rcases Nat.lt_trichotomy i j with hlt | rfl | hlt
    · have hmul := Nat.mul_le_mul_left (stride objSize) hlt
      rw [Nat.succ_eq_add_one, Nat.mul_add, Nat.mul_one] at hmul
      omega
    · omega
    · have hmul := Nat.mul_le_mul_left (stride objSize) hlt
      rw [Nat.succ_eq_add_one, Nat.mul_add, Nat.mul_one] at hmul
      omega
  · unfold pageSize at *
    omega

/-- Slots start at cache lines. -/
theorem Slot.line_dvd {page a : ℕ} (ha : Slot objSize page a) (hpage : pageSize ∣ page) : cacheLineSizeBytes ∣ a := by
  have hline : cacheLineSizeBytes ∣ a - page := (stride_spec hpos hmax).1.trans ha.dvd
  have hdvd : cacheLineSizeBytes ∣ page := (show cacheLineSizeBytes ∣ pageSize by decide).trans hpage
  have hsum := Nat.dvd_add hline hdvd
  rwa [Nat.sub_add_cancel ha.page_le] at hsum

/-- The loop of `object_alloc` comes to an end, and puts all slots of the page that are still to
come in front of the list that it began with. -/
theorem carve_list {page : ℕ} (hframe : IsFrame page) {fuel curr prev : ℕ} {m : Mem} {nodes : List ℕ}
    (hlo : page ≤ curr) (hdvd : stride objSize ∣ curr - page) (hhi : curr ≤ page + pageSize)
    (hfuel : page + pageSize < curr + fuel * stride objSize) (hlist : FreeList m prev nodes) (hprev : prev < 2 ^ 64)
    (hslots : ∀ b ∈ nodes, Slot objSize page b ∧ b + stride objSize ≤ curr) (hnodup : nodes.Nodup) :
    ∃ prev' m' nodes', carve objSize (page + pageSize) fuel curr prev m = some (prev', m') ∧
      FreeList m' prev' nodes' ∧ (∀ b, b ∈ nodes' ↔ b ∈ nodes ∨ Slot objSize page b ∧ curr ≤ b) ∧ nodes'.Nodup ∧
      ∀ x, ¬InFrame page x → m' x = m x := by
  obtain ⟨hline, hroom, hlink, hless⟩ := stride_spec hpos hmax
  have hpage : pageSize = 4096 := rfl
  have hlineSize : cacheLineSizeBytes = 64 := rfl
  have hbound := hframe.2.2
  unfold directMapStart at hbound
  induction fuel generalizing curr prev m nodes with
  | zero => omega
  | succ fuel ih =>
      rw [Nat.succ_mul] at hfuel
      rw [carve, Nat.mod_eq_of_lt (by omega)]
      by_cases hfits : curr + objSize ≤ page + pageSize
      · have hslot : Slot objSize page curr := by
          refine ⟨hlo, hdvd, ?_⟩
          obtain ⟨n, hn⟩ := hline.trans hdvd
          obtain ⟨w, hw⟩ := hline
          obtain ⟨q, hq⟩ := hframe.1
          rw [hlineSize] at hn hw
          rw [hpage] at hq
          omega
        have hstop := hslot.le_stop
        rw [if_pos hfits, show roundUp objSize cacheLineSizeBytes = stride objSize from rfl, Nat.mod_eq_of_lt (by omega)]
        have hnext : stride objSize ∣ curr + stride objSize - page := by
          rw [show curr + stride objSize - page = curr - page + stride objSize by omega]
          exact Nat.dvd_add hdvd (dvd_refl _)
        have hpush : FreeList (m.storePtr curr prev) curr (curr :: nodes) :=
          hlist.push hprev (by have := hframe.ne_zero; omega) fun c hc => by
            have := (hslots c hc).2
            omega
        obtain ⟨prev', m', nodes', hcarve, hlist', hmem', hnodup', hmem⟩ := ih (by omega) hnext hstop (by omega) hpush
          (by omega) (by
            intro b hb
            rcases List.mem_cons.mp hb with rfl | hb
            · exact ⟨hslot, le_refl _⟩
            · exact ⟨(hslots b hb).1, by have := (hslots b hb).2; omega⟩)
          (List.nodup_cons.mpr ⟨fun hmem => by have := (hslots curr hmem).2; omega, hnodup⟩)
        refine ⟨prev', m', nodes', hcarve, hlist', fun b => ?_, hnodup', fun x hx => ?_⟩
        · rw [hmem', List.mem_cons]
          constructor
          · rintro ((rfl | hb) | ⟨hb, hle⟩)
            · exact Or.inr ⟨hslot, le_refl _⟩
            · exact Or.inl hb
            · exact Or.inr ⟨hb, by omega⟩
          · rintro (hb | ⟨hb, hle⟩)
            · exact Or.inl (Or.inr hb)
            · by_cases heq : b = curr
              · exact Or.inl (Or.inl heq)
              · rcases hb.apart hslot hframe.1 hframe.1 heq with hbefore | hafter
                · omega
                · exact Or.inr ⟨hb, hafter⟩
        · rw [hmem x hx]
          unfold InFrame at hx
          exact Mem.storePtr_of_outside m prev (by omega)
      · rw [if_neg hfits]
        refine ⟨prev, m, nodes, rfl, hlist, fun b => ⟨Or.inl, ?_⟩, hnodup, fun _ _ => rfl⟩
        rintro (hb | ⟨hb, hle⟩)
        · exact hb
        · have := hb.le_stop
          omega

end Stride

/-! ## Calls -/

/-- An allocator, the kernel it lives in, the pages that it got, and the objects in use. -/
structure ObjState where
  alloc : ObjAlloc
  k : Kernel
  pages : List ℕ
  live : List ℕ

/-- `OBJ_ALLOC_DEFINE` -/
def ObjState.start (objSize : ℕ) (k : Kernel) : ObjState := ⟨⟨0, objSize⟩, k, [], []⟩

inductive ObjLabel
  | alloc (obj : ℕ)
  | free (obj : ℕ)
  | other

/-- A call, or what happens between calls. A page that the allocator gets is none of those it
has. Only objects in use are freed, and only they are written to by others. -/
inductive ObjStep (fuel : ℕ) : ObjState → ObjLabel → ObjState → Prop
  | reuse {s : ObjState} {obj : ℕ} {alloc : ObjAlloc} {k : Kernel} (hfree : s.alloc.nextFree ≠ 0)
      (hcall : s.alloc.objectAlloc fuel s.k = .ok (some (obj, alloc, k))) :
      ObjStep fuel s (.alloc obj) ⟨alloc, k, s.pages, obj :: s.live⟩
  | refill {s : ObjState} {obj page : ℕ} {frames : List (Option ℕ)} {alloc : ObjAlloc} {k : Kernel}
      (hempty : s.alloc.nextFree = 0) (hframes : s.k.frames = some page :: frames) (hframe : IsFrame page)
      (hnew : page ∉ s.pages) (hcall : s.alloc.objectAlloc fuel s.k = .ok (some (obj, alloc, k))) :
      ObjStep fuel s (.alloc obj) ⟨alloc, k, page :: s.pages, obj :: s.live⟩
  | free {s : ObjState} {obj : ℕ} {alloc : ObjAlloc} {k : Kernel} (hlive : obj ∈ s.live)
      (hcall : s.alloc.objectFree obj s.k = .ok (alloc, k)) :
      ObjStep fuel s (.free obj) ⟨alloc, k, s.pages, s.live.erase obj⟩
  | other {s : ObjState} {k : Kernel}
      (hmem : ∀ page ∈ s.pages, ∀ x, InFrame page x → (∀ obj ∈ s.live, ¬(obj ≤ x ∧ x < obj + s.alloc.objSize)) →
        k.mem x = s.k.mem x) : ObjStep fuel s .other ⟨s.alloc, k, s.pages, s.live⟩

/-- The free objects are slots, and so are the objects in use; all of them are different. -/
structure ObjInv (objSize : ℕ) (s : ObjState) (nodes : List ℕ) : Prop where
  size : s.alloc.objSize = objSize
  isFrame : ∀ page ∈ s.pages, IsFrame page
  list : FreeList s.k.mem s.alloc.nextFree nodes
  nodup : (s.live ++ nodes).Nodup
  slot : ∀ a ∈ s.live ++ nodes, ∃ page ∈ s.pages, Slot objSize page a

section Invariant

variable {objSize : ℕ} (hpos : 1 ≤ objSize) (hmax : objSize ≤ pageSize)

include hpos hmax

omit hpos in
/-- A call with a free object takes the first of the list. -/
theorem ObjInv.objectAlloc_reuse {s : ObjState} {nodes : List ℕ} (h : ObjInv objSize s nodes) (hfree : s.alloc.nextFree ≠ 0)
    (fuel : ℕ) : s.alloc.objectAlloc fuel s.k =
      .ok (some (s.alloc.nextFree, { s.alloc with nextFree := s.k.mem.loadPtr s.alloc.nextFree }, s.k)) := by
  rw [ObjAlloc.objectAlloc, kassert_of_true (by rw [h.size]; exact hmax), ok_bind]
  simp only [if_neg hfree]
  rfl

/-- A call without one cuts a page into all its slots, and takes the first of them. -/
theorem ObjInv.objectAlloc_carves {s : ObjState} {nodes : List ℕ} (h : ObjInv objSize s nodes) (hempty : s.alloc.nextFree = 0)
    {fuel page : ℕ} {frames : List (Option ℕ)} (hfuel : pageSize < fuel * cacheLineSizeBytes)
    (hframes : s.k.frames = some page :: frames) (hframe : IsFrame page) :
    ∃ obj nodes' alloc k, s.alloc.objectAlloc fuel s.k = .ok (some (obj, alloc, k)) ∧ alloc.objSize = objSize ∧
      FreeList k.mem alloc.nextFree nodes' ∧ (obj :: nodes').Nodup ∧ (∀ a, a ∈ obj :: nodes' ↔ Slot objSize page a) ∧
      ∀ x, ¬InFrame page x → k.mem x = s.k.mem x := by
  have halloc : frameAlloc s.k = (page, { s.k with
      mem := s.k.mem.memset page 0 pageSize, frames := frames, freed := s.k.freed.filter (· ≠ page) }) := by
    rw [frameAlloc, hframes]
  have hbound := hframe.2.2
  have hpage : pageSize = 4096 := rfl
  have hlineSize : cacheLineSizeBytes = 64 := rfl
  unfold directMapStart at hbound
  obtain ⟨hline, hroom, -, hless⟩ := stride_spec hpos hmax
  have hstride : cacheLineSizeBytes ≤ stride objSize := Nat.le_of_dvd (by omega) hline
  have henough : page + pageSize < page + fuel * stride objSize := by
    have hmul := Nat.mul_le_mul_left fuel hstride
    omega
  obtain ⟨prev, m, carved, hcarve, hlist, hslots, hnodup, hmem⟩ := carve_list hpos hmax hframe (le_refl page)
    (by rw [Nat.sub_self]; exact dvd_zero _) (Nat.le_add_right _ _) henough
    (FreeList.nil (s.k.mem.memset page 0 pageSize)) (by decide) (fun b hb => (List.not_mem_nil hb).elim) List.nodup_nil
  -- the start of the page is a slot
  have hfirst : page ∈ carved := by
    refine (hslots page).mpr (Or.inr ⟨⟨le_refl _, by rw [Nat.sub_self]; exact dvd_zero _, ?_⟩, le_refl _⟩)
    obtain ⟨w, hw⟩ := hline
    rw [hlineSize] at hw
    omega
  have hprev : prev ≠ 0 := by
    rintro rfl
    rw [hlist.eq_nil_of_zero] at hfirst
    cases hfirst
  obtain ⟨rest, rfl, hrest⟩ := hlist.exists_cons hprev
  refine ⟨prev, rest, { s.alloc with nextFree := m.loadPtr prev },
    { s.k with mem := m, frames := frames, freed := s.k.freed.filter (· ≠ page) }, ?_, h.size, hrest, hnodup, fun a => ?_,
    fun x hx => ?_⟩
  · rw [ObjAlloc.objectAlloc, kassert_of_true (by rw [h.size]; exact hmax), ok_bind]
    simp only [if_pos hempty, halloc, h.size, Nat.mod_eq_of_lt (show page + pageSize < 2 ^ 64 by omega), hcarve]
    rfl
  · rw [hslots]
    exact ⟨fun ha => (ha.resolve_left List.not_mem_nil).1, fun ha => Or.inr ⟨ha, ha.page_le⟩⟩
  · refine (hmem x hx).trans ?_
    unfold InFrame at hx
    exact Mem.memset_of_outside _ _ (by omega)

theorem ObjInv.objectAlloc_refill {s : ObjState} {nodes : List ℕ} (h : ObjInv objSize s nodes) (hempty : s.alloc.nextFree = 0)
    {fuel page : ℕ} {frames : List (Option ℕ)} (hfuel : pageSize < fuel * cacheLineSizeBytes)
    (hframes : s.k.frames = some page :: frames) (hframe : IsFrame page) :
    ∃ obj nodes' alloc k, s.alloc.objectAlloc fuel s.k = .ok (some (obj, alloc, k)) ∧ alloc.objSize = objSize ∧
      FreeList k.mem alloc.nextFree nodes' ∧ (obj :: nodes').Nodup ∧ (∀ a ∈ obj :: nodes', Slot objSize page a) ∧
      ∀ x, ¬InFrame page x → k.mem x = s.k.mem x := by
  obtain ⟨obj, nodes', alloc, k, hcall, hsize, hlist, hnodup, hslots, hmem⟩ :=
    h.objectAlloc_carves hpos hmax hempty hfuel hframes hframe
  exact ⟨obj, nodes', alloc, k, hcall, hsize, hlist, hnodup, fun a => (hslots a).mp, hmem⟩

omit hpos hmax in
/-- An object in use and any other slot of the allocator share no byte. -/
theorem ObjInv.apart {s : ObjState} {nodes : List ℕ} (h : ObjInv objSize s nodes) {a b : ℕ} (ha : a ∈ s.live ++ nodes)
    (hb : b ∈ s.live ++ nodes) (hne : a ≠ b) : a + stride objSize ≤ b ∨ b + stride objSize ≤ a := by
  obtain ⟨page, hpage, hslot⟩ := h.slot a ha
  obtain ⟨page', hpage', hslot'⟩ := h.slot b hb
  exact hslot.apart hslot' (h.isFrame page hpage).1 (h.isFrame page' hpage').1 hne

/-- Writing to the objects in use leaves the free ones alone. -/
theorem ObjInv.other {s : ObjState} {nodes : List ℕ} (h : ObjInv objSize s nodes) {k : Kernel}
    (hmem : ∀ page ∈ s.pages, ∀ x, InFrame page x → (∀ obj ∈ s.live, ¬(obj ≤ x ∧ x < obj + s.alloc.objSize)) →
      k.mem x = s.k.mem x) : ObjInv objSize ⟨s.alloc, k, s.pages, s.live⟩ nodes := by
  obtain ⟨-, hroom, hlink, -⟩ := stride_spec hpos hmax
  refine ⟨h.size, h.isFrame, h.list.congr fun b hb x hlo hhi => ?_, h.nodup, h.slot⟩
  have hbmem := List.mem_append_right s.live hb
  obtain ⟨page, hpage, hslot⟩ := h.slot b hbmem
  refine hmem page hpage x ⟨?_, ?_⟩ fun obj hobj hin => ?_
  · exact hslot.page_le.trans hlo
  · have := hslot.le_stop
    omega
  · have hne : obj ≠ b := fun heq => (List.nodup_append.mp h.nodup).2.2 obj hobj b hb heq
    have hapart := h.apart (List.mem_append_left _ hobj) hbmem hne
    rw [h.size] at hin
    omega

/-- A step keeps the invariant. -/
theorem ObjStep.inv {fuel : ℕ} (hfuel : pageSize < fuel * cacheLineSizeBytes) {s t : ObjState} {label : ObjLabel}
    {nodes : List ℕ} (h : ObjInv objSize s nodes) (hstep : ObjStep fuel s label t) : ∃ nodes', ObjInv objSize t nodes' := by
  cases hstep with
  | reuse hfree hcall =>
      rw [h.objectAlloc_reuse hmax hfree fuel] at hcall
      cases hcall
      obtain ⟨rest, rfl, hrest⟩ := h.list.exists_cons hfree
      have hperm : (s.live ++ s.alloc.nextFree :: rest).Perm (s.alloc.nextFree :: (s.live ++ rest)) := List.perm_middle
      exact ⟨rest, h.size, h.isFrame, hrest, hperm.nodup_iff.mp h.nodup, fun a ha => h.slot a (hperm.mem_iff.mpr ha)⟩
  | @refill obj page frames alloc k hempty hframes hframe hnew hcall =>
      obtain ⟨obj', nodes', alloc', k', hcall', hsize, hlist, hnodup, hslots, -⟩ :=
        h.objectAlloc_refill hpos hmax hempty hfuel hframes hframe
      rw [hcall'] at hcall
      cases hcall
      have hlist0 := h.list
      rw [hempty] at hlist0
      obtain rfl := hlist0.eq_nil_of_zero
      have hlive := h.nodup
      rw [List.append_nil] at hlive
      have hold (a : ℕ) (ha : a ∈ s.live) := h.slot a (List.mem_append_left _ ha)
      have hperm : (s.live ++ obj :: nodes').Perm (obj :: (s.live ++ nodes')) := List.perm_middle
      refine ⟨nodes', hsize, ?_, hlist, hperm.nodup_iff.mp ?_, fun a ha => ?_⟩
      · intro p hp
        rcases List.mem_cons.mp hp with rfl | hp
        · exact hframe
        · exact h.isFrame p hp
      · refine List.nodup_append.mpr ⟨hlive, hnodup, fun a ha b hb hab => ?_⟩
        subst hab
        -- a slot lies in one page only
        obtain ⟨p, hp, hslot⟩ := hold a ha
        have hslot' := hslots a hb
        have hstride := (stride_spec hpos hmax).2.2.1
        have hin : InFrame p a := ⟨hslot.page_le, by have := hslot.le_stop; omega⟩
        have hin' : InFrame page a := ⟨hslot'.page_le, by have := hslot'.le_stop; omega⟩
        exact hnew (inFrame_unique (h.isFrame p hp).1 hframe.1 hin hin' ▸ hp)
      · rcases List.mem_append.mp (hperm.mem_iff.mpr ha) with ha | ha
        · obtain ⟨p, hp, hslot⟩ := hold a ha
          exact ⟨p, List.mem_cons_of_mem _ hp, hslot⟩
        · exact ⟨page, List.mem_cons_self, hslots a ha⟩
  | @free obj alloc k hlive hcall =>
      obtain ⟨_, hne, hret⟩ := bind_eq_ok.mp hcall
      have hobj := kassert_eq_ok_iff.mp hne
      cases hret
      have hnodup := (List.nodup_append.mp h.nodup).1
      refine ⟨[obj], h.size, h.isFrame, (FreeList.nil _).push (by decide) hobj (fun c hc => (List.not_mem_nil hc).elim), ?_, ?_⟩
      · refine List.nodup_append.mpr ⟨hnodup.erase obj, List.nodup_singleton obj, fun a ha b hb hab => ?_⟩
        rw [List.mem_singleton.mp hb] at hab
        exact hnodup.not_mem_erase (hab ▸ ha)
      · intro a ha
        rcases List.mem_append.mp ha with ha | ha
        · exact h.slot a (List.mem_append_left _ (List.mem_of_mem_erase ha))
        · rw [List.mem_singleton.mp ha]
          exact h.slot obj (List.mem_append_left _ hlive)
  | @other k hmem => exact ⟨nodes, h.other hpos hmax hmem⟩

/-- No call writes to an object that is in use before and after it. -/
theorem ObjStep.mem {fuel : ℕ} (hfuel : pageSize < fuel * cacheLineSizeBytes) {s t : ObjState} {label : ObjLabel}
    {nodes : List ℕ} (h : ObjInv objSize s nodes) (hstep : ObjStep fuel s label t) (hlabel : label ≠ .other) {obj x : ℕ}
    (hbefore : obj ∈ s.live) (hafter : obj ∈ t.live) (hlo : obj ≤ x) (hhi : x < obj + objSize) :
    t.k.mem x = s.k.mem x := by
  obtain ⟨-, hroom, hlink, -⟩ := stride_spec hpos hmax
  have hbefore' := List.mem_append_left nodes hbefore
  obtain ⟨page, hpage, hslot⟩ := h.slot obj hbefore'
  cases hstep with
  | reuse hfree hcall =>
      rw [h.objectAlloc_reuse hmax hfree fuel] at hcall
      cases hcall
      rfl
  | @refill _ page' frames alloc k hempty hframes hframe hnew hcall =>
      obtain ⟨_, _, _, _, hcall', -, -, -, -, hmem⟩ := h.objectAlloc_refill hpos hmax hempty hfuel hframes hframe
      rw [hcall'] at hcall
      cases hcall
      refine hmem x fun hin => hnew ?_
      have hin' : InFrame page x := ⟨hslot.page_le.trans hlo, by have := hslot.le_stop; omega⟩
      exact inFrame_unique (h.isFrame page hpage).1 hframe.1 hin' hin ▸ hpage
  | @free freed alloc k hlive hcall =>
      obtain ⟨-, -, hret⟩ := bind_eq_ok.mp hcall
      cases hret
      have hne : obj ≠ freed := fun heq => (List.nodup_append.mp h.nodup).1.not_mem_erase (heq ▸ hafter)
      have hapart := h.apart hbefore' (List.mem_append_left _ hlive) hne
      exact Mem.storePtr_of_outside _ _ (by omega)
  | other _ => exact absurd rfl hlabel

end Invariant

/-- `object_alloc` comes to its end where it has a free object or gets a page; each object in
use starts at a cache line and lies in one page of the allocator, and no two overlap; and no
call writes to an object that stays in use. -/
structure ObjSafe (objSize fuel : ℕ) (s : ObjState) : Prop where
  ends : (s.alloc.nextFree = 0 → ∃ page frames, s.k.frames = some page :: frames ∧ IsFrame page) →
    ∃ call, s.alloc.objectAlloc fuel s.k = .ok (some call)
  inPage : ∀ obj ∈ s.live, cacheLineSizeBytes ∣ obj ∧ ∃ page ∈ s.pages, page ≤ obj ∧ obj + objSize ≤ page + pageSize
  apart : s.live.Pairwise fun a b => a + objSize ≤ b ∨ b + objSize ≤ a
  keeps : ∀ label t, ObjStep fuel s label t → label ≠ .other →
    ∀ obj ∈ s.live, obj ∈ t.live → ∀ x, obj ≤ x → x < obj + objSize → t.k.mem x = s.k.mem x

/-- In every run the objects in use are objects of their own, and no call writes to them. -/
theorem object_allocator_safe {objSize fuel : ℕ} (hpos : 1 ≤ objSize) (hmax : objSize ≤ pageSize)
    (hfuel : pageSize < fuel * cacheLineSizeBytes) {k : Kernel} {labels : List ObjLabel} {s : ObjState}
    (hrun : Run (ObjStep fuel) (ObjState.start objSize k) labels s) : ObjSafe objSize fuel s := by
  have hstart : ObjInv objSize (ObjState.start objSize k) [] :=
    ⟨rfl, fun p hp => (List.not_mem_nil hp).elim, FreeList.nil _, List.nodup_nil, fun a ha => (List.not_mem_nil ha).elim⟩
  obtain ⟨nodes, hinv⟩ := hrun.invariant (fun s => ∃ nodes, ObjInv objSize s nodes) ⟨[], hstart⟩
    fun _ _ _ ⟨_, h⟩ hstep => hstep.inv hpos hmax hfuel h
  obtain ⟨-, hroom, -, -⟩ := stride_spec hpos hmax
  constructor
  · intro hpage
    by_cases hfree : s.alloc.nextFree = 0
    · obtain ⟨page, frames, hframes, hframe⟩ := hpage hfree
      obtain ⟨_, _, _, _, hcall, -⟩ := hinv.objectAlloc_refill hpos hmax hfree hfuel hframes hframe
      exact ⟨_, hcall⟩
    · exact ⟨_, hinv.objectAlloc_reuse hmax hfree fuel⟩
  · intro obj hobj
    obtain ⟨page, hpage, hslot⟩ := hinv.slot obj (List.mem_append_left _ hobj)
    refine ⟨hslot.line_dvd hpos hmax (hinv.isFrame page hpage).1, page, hpage, hslot.page_le, ?_⟩
    have := hslot.le_stop
    omega
  · have hlive := (List.nodup_append.mp hinv.nodup).1
    refine List.Pairwise.imp_of_mem (fun ha hb hne => ?_) hlive
    have hapart := hinv.apart (List.mem_append_left _ ha) (List.mem_append_left _ hb) hne
    omega
  · intro label t hstep hlabel obj hs ht x hlo hhi
    exact hstep.mem hpos hmax hfuel hinv hlabel hs ht hlo hhi

/-- One frame is left. -/
def objKernel : Kernel := ⟨fun _ => 0, [some (directMapStart + 0x1000)], [], [], fun _ _ => 0, []⟩

/-- The list of areas gets two objects, gives the first one back and gets it again. -/
theorem object_allocator_safe_two : ∃ a b s,
    Run (ObjStep 65) (ObjState.start 40 objKernel) [.alloc a, .alloc b, .free a, .alloc a] s ∧ a ≠ b ∧ s.live = [a, b] ∧
      ObjSafe 40 65 s := by
  have hpos : 1 ≤ 40 := by decide
  have hmax : 40 ≤ pageSize := by decide
  have hfuel : pageSize < 65 * cacheLineSizeBytes := by decide
  have hframe : IsFrame (directMapStart + 0x1000) := ⟨by decide, by decide, by decide⟩
  have hstart : ObjInv 40 (ObjState.start 40 objKernel) [] :=
    ⟨rfl, fun p hp => (List.not_mem_nil hp).elim, FreeList.nil _, List.nodup_nil, fun a ha => (List.not_mem_nil ha).elim⟩
  obtain ⟨a, nodes, alloc, k, hcall, hsize, hlist, hnodup, hslots, -⟩ :=
    hstart.objectAlloc_carves hpos hmax rfl hfuel rfl hframe
  have hfirst := ObjStep.refill rfl rfl hframe (fun h => (List.not_mem_nil h).elim) hcall
  -- a page has more than one slot
  have hmore : alloc.nextFree ≠ 0 := fun hzero => by
    rw [hzero] at hlist
    obtain rfl := hlist.eq_nil_of_zero
    have hone : directMapStart + 0x1000 ∈ [a] := (hslots _).mpr ⟨by decide, by decide, by decide⟩
    have htwo : directMapStart + 0x1040 ∈ [a] := (hslots _).mpr ⟨by decide, by decide, by decide⟩
    rw [List.mem_singleton] at hone htwo
    omega
  obtain ⟨nodes1, hinv1⟩ := hfirst.inv hpos hmax hfuel hstart
  have hsecond := ObjStep.reuse hmore (hinv1.objectAlloc_reuse hmax hmore 65)
  obtain ⟨nodes2, hinv2⟩ := hsecond.inv hpos hmax hfuel hinv1
  have hne : alloc.nextFree ≠ a := fun heq =>
    (List.nodup_cons.mp (List.nodup_append.mp hinv2.nodup).1).1 (heq ▸ List.mem_cons_self)
  have hzero : a ≠ 0 := fun hzero => by
    have hle := ((hslots a).mp List.mem_cons_self).page_le
    rw [hzero] at hle
    exact absurd hle (by decide)
  have hfree : ObjAlloc.objectFree { alloc with nextFree := k.mem.loadPtr alloc.nextFree } a k =
      .ok ({ alloc with nextFree := a }, { k with mem := k.mem.storePtr a 0 }) := by
    rw [ObjAlloc.objectFree, kassert_of_true hzero, ok_bind]
    rfl
  have hthird : ObjStep 65
      ⟨{ alloc with nextFree := k.mem.loadPtr alloc.nextFree }, k, [directMapStart + 0x1000], [alloc.nextFree, a]⟩ (.free a)
      ⟨{ alloc with nextFree := a }, { k with mem := k.mem.storePtr a 0 }, [directMapStart + 0x1000],
        [alloc.nextFree, a].erase a⟩ :=
    .free (List.mem_cons_of_mem _ List.mem_cons_self) hfree
  obtain ⟨nodes3, hinv3⟩ := hthird.inv hpos hmax hfuel hinv2
  have hfourth := ObjStep.reuse hzero (hinv3.objectAlloc_reuse hmax hzero 65)
  have hrun := (((Run.single _ hfirst).snoc hsecond).snoc hthird).snoc hfourth
  have hlive : a :: [alloc.nextFree, a].erase a = [a, alloc.nextFree] := by
    rw [List.erase_cons_tail (by simpa using hne), List.erase_cons_head]
  exact ⟨a, _, _, hrun, Ne.symm hne, hlive, object_allocator_safe hpos hmax hfuel hrun⟩

end HeavenOS
