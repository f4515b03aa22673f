/-
# The object allocator without memory

`object_alloc` does not look at what `frame_alloc` returned. Where that is `NULL`, it carves the
page at address zero, and what it returns is the last slot there. Only if a page holds a single
object is that address zero again. The callers test for `NULL`, but do not get to see it.
-/

import HeavenOS.Mm.ObjPages

namespace HeavenOS

open Lib

/-! ## Stores -/

/-- The words that the loop of `object_alloc` stores. -/
def carveWrites (objSize stop : ℕ) : (fuel curr : ℕ) → List ℕ
  | 0, _ => []
  | fuel + 1, curr =>
      if (curr + objSize) % 2 ^ 64 ≤ stop then
        curr :: carveWrites objSize stop fuel ((curr + roundUp objSize cacheLineSizeBytes) % 2 ^ 64)
      else []

/-- The words that `object_alloc` stores. -/
def ObjAlloc.writes (fuel : ℕ) (alloc : ObjAlloc) (k : Kernel) : List ℕ :=
  if alloc.nextFree = 0 then carveWrites alloc.objSize (((frameAlloc k).1 + pageSize) % 2 ^ 64) fuel (frameAlloc k).1
  else []

/-- The loop writes to these words only. -/
theorem carve_mem {objSize stop fuel curr prev : ℕ} {m m' : Mem} {prev' : ℕ}
    (h : carve objSize stop fuel curr prev m = some (prev', m')) {x : ℕ}
    (hout : ∀ a ∈ carveWrites objSize stop fuel curr, x < a ∨ a + 8 ≤ x) : m' x = m x := by
  induction fuel generalizing curr prev m with
  | zero => cases h
  | succ fuel ih =>
      rw [carve] at h
      rw [carveWrites] at hout
      split_ifs at h hout
      · rw [ih h fun a ha => hout a (List.mem_cons_of_mem _ ha)]
        exact Mem.storePtr_of_outside m prev (hout curr List.mem_cons_self)
      · cases h
        rfl

section Null

variable {objSize : ℕ} (hpos : 1 ≤ objSize) (hmax : objSize ≤ pageSize)

include hpos hmax

/-- An object fits as long as there is a slot to come. -/
theorem slot_fits_iff (i : ℕ) : i * stride objSize + objSize ≤ pageSize ↔ i < perPage objSize := by
  obtain ⟨hline, hroom, hlink, hless⟩ := stride_spec hpos hmax
  have hpage : pageSize = 4096 := rfl
  have hlineSize : cacheLineSizeBytes = 64 := rfl
  rw [perPage, Nat.lt_iff_add_one_le, Nat.le_div_iff_mul_le (by omega), Nat.succ_mul]
  obtain ⟨w, hw⟩ := hline
  obtain ⟨v, hv⟩ : cacheLineSizeBytes ∣ i * stride objSize := ⟨i * w, by rw [hw, Nat.mul_left_comm]⟩
  rw [hlineSize] at hw hv
  omega

/-- The page at address zero is carved like any other. -/
theorem carve_null {fuel i prev : ℕ} {m : Mem} (hi : i < perPage objSize) (hprev : prev < 2 ^ 64)
    (hfuel : perPage objSize < i + fuel) :
    ∃ m', carve objSize pageSize fuel (i * stride objSize) prev m = some ((perPage objSize - 1) * stride objSize, m') ∧
      m'.loadPtr ((perPage objSize - 1) * stride objSize) =
        if i + 1 = perPage objSize then prev else (perPage objSize - 2) * stride objSize := by
  have hpage : pageSize = 4096 := rfl
  induction fuel generalizing i prev m with
  | zero => omega
  | succ fuel ih =>
      have hfits := (slot_fits_iff hpos hmax i).mpr hi
      have hless := (stride_spec hpos hmax).2.2.2
      have hlineSize : cacheLineSizeBytes = 64 := rfl
      have hnext : (i * stride objSize + roundUp objSize cacheLineSizeBytes) % 2 ^ 64 = (i + 1) * stride objSize := by
        rw [Nat.succ_mul]
        exact Nat.mod_eq_of_lt (show i * stride objSize + stride objSize < 2 ^ 64 by omega)
      rw [carve, Nat.mod_eq_of_lt (by omega), if_pos hfits, hnext]
      by_cases hlast : i + 1 = perPage objSize
      · have hstop := mt (slot_fits_iff hpos hmax (i + 1)).mp (by omega)
        have hbound : (i + 1) * stride objSize + objSize < 2 ^ 64 := by
          rw [Nat.succ_mul]
          omega
        obtain ⟨fuel, rfl⟩ : ∃ n, fuel = n + 1 := ⟨fuel - 1, by omega⟩
        rw [carve, Nat.mod_eq_of_lt hbound, if_neg hstop, if_pos hlast, show perPage objSize - 1 = i by omega]
        exact ⟨_, rfl, Mem.loadPtr_storePtr_self m _ hprev⟩
      · obtain ⟨m', hcarve, hlink⟩ := @ih (i + 1) (i * stride objSize) (m.storePtr (i * stride objSize) prev)
          (by omega) (by omega) (by omega)
        refine ⟨m', hcarve, ?_⟩
        rw [hlink, if_neg hlast]
        split_ifs with hnear
        · rw [show i = perPage objSize - 2 by omega]
        · rfl

end Null

/-! ## Callers -/

/-- What the callers make of the answer: the area list stays as it is, and the result is
`-ENOMEM`. -/
structure CallersFail (k : Kernel) : Prop where
  allocPages : ∀ {vm vm' start pgcnt flags res k'}, vmemAllocPages vm start pgcnt flags k = .ok (res, vm', k') →
    res = -enomem ∧ vm' = vm
  /-- The PML4 has been allocated. -/
  init : ∀ {pml4}, pml4 ≠ 0 → (vmemInit { k with frames := some pml4 :: k.frames }).1 = -enomem
  cloneAreas : ∀ {area rest dst}, (cloneAreas (area :: rest) dst k).1 = -enomem ∧
    (HeavenOS.cloneAreas (area :: rest) dst k).2.1 = dst

/-- The callers go on with what `object_alloc` returned. -/
def answered (obj : ℕ) (k : Kernel) : Kernel := { k with objects := [decide (obj ≠ 0)] }

theorem vmemInit_of_frame {k : Kernel} (hframe : (frameAlloc k).1 ≠ 0) :
    (vmemInit k).1 = if (objectAlloc (frameAlloc k).2).1 then 0 else -enomem := by
  unfold vmemInit
  simp only [if_neg hframe]
  cases (objectAlloc (frameAlloc k).2).1 with
  | true => rfl
  | false => rfl

/-- The callers fail exactly on `NULL`. -/
theorem callersFail_iff (obj : ℕ) (k : Kernel) : CallersFail (answered obj k) ↔ obj = 0 := by
  constructor
  · intro h
    by_contra hne
    have hobjects : (answered obj k).objects = [true] := by simp [answered, hne]
    have hgoes : (HeavenOS.cloneAreas [⟨0, 0, 0⟩] ⟨[], 0⟩ (answered obj k)).1 = 0 := by
      rw [HeavenOS.cloneAreas, objectAlloc, hobjects]
      rfl
    exact absurd (hgoes.symm.trans h.cloneAreas.1) (by decide)
  · rintro rfl
    have hanswer : objectAlloc (answered 0 k) = (false, { answered 0 k with objects := [] }) := rfl
    refine ⟨fun {vm vm' start pgcnt flags res k'} hcall => ?_, fun {pml4} hpml4 => ?_, ⟨rfl, rfl⟩⟩
    · unfold vmemAllocPages at hcall
      obtain ⟨_, -, hcall⟩ := bind_eq_ok.mp hcall
      simp only [hanswer, Bool.false_eq_true, not_false_eq_true, if_true] at hcall
      split_ifs at hcall
      cases hcall
      exact ⟨rfl, rfl⟩
    · exact vmemInit_of_frame (show (frameAlloc { answered 0 k with frames := some pml4 :: k.frames }).1 ≠ 0 from hpml4)

/-- What `object_alloc` should do without a free object and without a page. -/
structure ReportsNull (fuel : ℕ) (alloc : ObjAlloc) (k : Kernel) : Prop where
  returns : ∃ alloc' k', alloc.objectAlloc fuel k = .ok (some (0, alloc', k')) ∧ alloc'.nextFree = 0
  writes : alloc.writes fuel k = []
  callers : ∀ {obj alloc' k'}, alloc.objectAlloc fuel k = .ok (some (obj, alloc', k')) → CallersFail (answered obj k')

section Reports

variable {alloc : ObjAlloc} {k : Kernel} {fuel : ℕ} (hpos : 1 ≤ alloc.objSize) (hmax : alloc.objSize ≤ pageSize)
  (hfuel : pageSize < fuel * cacheLineSizeBytes) (hempty : alloc.nextFree = 0) (hnull : (frameAlloc k).1 = 0)

include hpos hmax hfuel hempty hnull

/-- Without a page, the last slot of the page at address zero is returned. -/
theorem objectAlloc_null : ∃ alloc' k',
    alloc.objectAlloc fuel k = .ok (some ((perPage alloc.objSize - 1) * stride alloc.objSize, alloc', k')) ∧
      alloc'.nextFree = (perPage alloc.objSize - 2) * stride alloc.objSize := by
  have hone := perPage_pos hpos hmax
  have henough : perPage alloc.objSize < 0 + fuel := by
    obtain ⟨hline, -, hlink, -⟩ := stride_spec hpos hmax
    have hle := Nat.le_of_dvd (by omega) hline
    have hmul := Nat.mul_le_mul_left fuel hle
    rw [perPage, Nat.zero_add, Nat.div_lt_iff_lt_mul (by omega)]
    omega
  obtain ⟨m', hcarve, hlink⟩ := carve_null hpos hmax (m := (frameAlloc k).2.mem) hone (show 0 < 2 ^ 64 by decide) henough
  have hstop : (0 + pageSize) % 2 ^ 64 = pageSize := by decide
  have hload : m'.loadPtr ((perPage alloc.objSize - 1) * stride alloc.objSize) =
      (perPage alloc.objSize - 2) * stride alloc.objSize := by
    rw [hlink]
    split_ifs with hsingle
    · rw [show perPage alloc.objSize - 2 = 0 by omega, Nat.zero_mul]
    · rfl
  rw [Nat.zero_mul] at hcarve
  rw [← hload]
  refine ⟨⟨m'.loadPtr ((perPage alloc.objSize - 1) * stride alloc.objSize), alloc.objSize⟩,
    { (frameAlloc k).2 with mem := m' }, ?_, rfl⟩
  rw [ObjAlloc.objectAlloc, kassert_of_true hmax, ok_bind]
  simp only [if_pos hempty, hnull, hstop, hcarve]
  rfl

/-- `NULL` is not reported for any size: memory is written to, and unless a page holds a single
object something else is returned. -/
theorem null_never_reported : ¬ReportsNull fuel alloc k ∧
    ((∃ alloc' k', alloc.objectAlloc fuel k = .ok (some (0, alloc', k')) ∧ alloc'.nextFree = 0) ↔
      perPage alloc.objSize = 1) := by
  have hone := perPage_pos hpos hmax
  have hstride := (stride_spec hpos hmax).2.2.1
  constructor
  · intro h
    have hwrites := h.writes
    obtain ⟨fuel, rfl⟩ : ∃ n, fuel = n + 1 := Nat.exists_eq_succ_of_ne_zero fun hzero => by
      rw [hzero, Nat.zero_mul] at hfuel
      exact absurd hfuel (Nat.not_lt_zero _)
    have hfits : (0 + alloc.objSize) % 2 ^ 64 ≤ (0 + pageSize) % 2 ^ 64 := by
      have : pageSize = 4096 := rfl
      omega
    rw [ObjAlloc.writes, if_pos hempty, hnull, carveWrites, if_pos hfits] at hwrites
    cases hwrites
  · obtain ⟨alloc', k', hcall, hnext⟩ := objectAlloc_null hpos hmax hfuel hempty hnull
    constructor
    · rintro ⟨alloc2, k2, hcall2, -⟩
      rw [hcall] at hcall2
      have hzero := (Prod.mk.inj (Option.some.inj (Except.ok.inj hcall2))).1
      rcases Nat.mul_eq_zero.mp hzero with hzero | hzero <;> omega
    · intro hsingle
      rw [hsingle, Nat.sub_self, Nat.zero_mul] at hcall
      refine ⟨alloc', k', hcall, ?_⟩
      rw [hnext, hsingle]
      exact Nat.zero_mul _

end Reports

/-- There is no frame. -/
def noFrames : Kernel := { objKernel with frames := [] }

/-- The allocator of the areas goes on with the object at `0xfc0`, and `vmem_alloc_pages`
succeeds. -/
theorem null_used_as_area : ¬ReportsNull 65 ⟨0, 40⟩ noFrames ∧
    ∃ alloc k, ObjAlloc.objectAlloc 65 ⟨0, 40⟩ noFrames = .ok (some (0xfc0, alloc, k)) ∧
      vmemAllocPages ⟨[], 0⟩ 0x70000000 4 (vmemUser ||| vmemWrite) (answered 0xfc0 k) =
        .ok (0, ⟨[⟨0x70000000, 4, vmemUser ||| vmemWrite⟩], 0⟩, { answered 0xfc0 k with objects := [] }) := by
  obtain ⟨alloc, k, hcall, -⟩ := @objectAlloc_null ⟨0, 40⟩ noFrames 65 (by decide) (by decide) (by decide) rfl rfl
  rw [show (perPage 40 - 1) * stride 40 = 0xfc0 by decide] at hcall
  refine ⟨fun h => ?_, alloc, k, hcall, rfl⟩
  have hnull := (callersFail_iff _ _).mp (h.callers hcall)
  cases hnull

theorem null_never_reported_area : ¬ReportsNull 65 ⟨0, 40⟩ noFrames :=
  (null_never_reported (by decide) (by decide) (by decide) rfl rfl).1

end HeavenOS
