/-
# Areas

The areas of an address space should never overlap. `vmem_alloc_pages` asks
`vmem_intersects` first, but hands it the number of pages where the size in bytes is
meant, so an area that begins further than `pgcnt` bytes behind the requested start is
not seen. Without such an area the check is exact, and then no sequence of calls makes
two areas overlap.
-/

import HeavenOS.Lib.Runs
import HeavenOS.Mm.Vmem

namespace HeavenOS

open Lib

namespace VmemArea

/-- The first byte behind the area. -/
def stop (area : VmemArea) : ℕ := area.start + area.size * pageSize

/-- The byte belongs to the area. -/
def Covers (area : VmemArea) (a : ℕ) : Prop := area.start ≤ a ∧ a < area.stop

/-- No byte belongs to both. -/
def Apart (area other : VmemArea) : Prop := ∀ a, ¬(area.Covers a ∧ other.Covers a)

theorem Apart.symm {area other : VmemArea} (h : area.Apart other) : other.Apart area :=
  fun a ha => h a ha.symm

/-- At least one page, and the end does not wrap. -/
def Sound (area : VmemArea) : Prop := 1 ≤ area.size ∧ area.stop < 2 ^ 64

theorem Sound.start_lt {area : VmemArea} (h : area.Sound) : area.start < area.stop := by
  have hsize := Nat.mul_le_mul_right pageSize h.1
  have hpage : 0 < pageSize := by decide
  unfold stop
  omega

end VmemArea

/-- Sound areas, no two of which overlap. -/
structure AreasOk (areas : List VmemArea) : Prop where
  sound : ∀ area ∈ areas, area.Sound
  apart : areas.Pairwise VmemArea.Apart

namespace AreasOk

variable {areas areas' : List VmemArea}

theorem sublist (h : AreasOk areas) (hsub : areas'.Sublist areas) : AreasOk areas' :=
  ⟨fun area harea => h.sound area (hsub.subset harea), h.apart.sublist hsub⟩

theorem reverse (h : AreasOk areas) : AreasOk areas.reverse :=
  ⟨fun area harea => h.sound area (List.mem_reverse.mp harea),
    List.pairwise_reverse.mpr (h.apart.imp VmemArea.Apart.symm)⟩

end AreasOk

/-! ## The check -/

/-- Some byte of the requested pages belongs to an area. -/
def Overlaps (vm : Vmem) (start pgcnt : ℕ) : Prop :=
  ∃ area ∈ vm.areas, ∃ a, (start ≤ a ∧ a < start + pgcnt * pageSize) ∧ area.Covers a

/-- No area begins between the end of the request as it is checked and its real end. -/
def ClearWindow (vm : Vmem) (start pgcnt : ℕ) : Prop :=
  ∀ area ∈ vm.areas, ¬(start + pgcnt ≤ area.start ∧ area.start < start + pgcnt * pageSize)

theorem pages_le_bytes (pgcnt : ℕ) : pgcnt ≤ pgcnt * pageSize :=
  Nat.le_mul_of_pos_right _ (by decide)

/-- What `vmem_intersects` computes when called as `vmem_alloc_pages` calls it. -/
theorem vmemIntersects_iff {vm : Vmem} {start pgcnt : ℕ} (hok : AreasOk vm.areas)
    (hwrap : start + pgcnt * pageSize < 2 ^ 64) :
    vmemIntersects vm start pgcnt = true ↔
      ∃ area ∈ vm.areas, area.start < start + pgcnt ∧ start < area.stop := by
  have hle := pages_le_bytes pgcnt
  unfold vmemIntersects
  rw [List.any_eq_true]
  refine exists_congr fun area => and_congr_right fun harea => ?_
  have hstop := (hok.sound area harea).2
  unfold VmemArea.stop at hstop ⊢
  rw [Nat.mod_eq_of_lt (a := start + pgcnt) (by omega), Nat.mod_eq_of_lt hstop]
  simp only [decide_eq_true_eq]
  omega

theorem overlaps_iff {vm : Vmem} {start pgcnt : ℕ} (hok : AreasOk vm.areas) (hpages : 1 ≤ pgcnt) :
    Overlaps vm start pgcnt ↔
      ∃ area ∈ vm.areas, area.start < start + pgcnt * pageSize ∧ start < area.stop := by
  have hle := pages_le_bytes pgcnt
  refine exists_congr fun area => and_congr_right fun harea => ?_
  have hlt := (hok.sound area harea).start_lt
  unfold VmemArea.Covers
  constructor
  · rintro ⟨a, ⟨hlo, hhi⟩, hcov⟩
    omega
  · rintro ⟨hlo, hhi⟩
    rcases Nat.le_total start area.start with h | h
    · exact ⟨area.start, by omega, by omega⟩
    · exact ⟨start, by omega, by omega⟩

/-- The check is right exactly when an area in the window comes with one that the check
does see. -/
theorem vmemIntersects_correct_iff {vm : Vmem} {start pgcnt : ℕ} (hok : AreasOk vm.areas)
    (hpages : 1 ≤ pgcnt) (hwrap : start + pgcnt * pageSize < 2 ^ 64) :
    (vmemIntersects vm start pgcnt = true ↔ Overlaps vm start pgcnt) ↔
      (ClearWindow vm start pgcnt ∨
        ∃ area ∈ vm.areas, area.start < start + pgcnt ∧ start < area.stop) := by
  have hle := pages_le_bytes pgcnt
  rw [vmemIntersects_iff hok hwrap, overlaps_iff hok hpages]
  constructor
  · intro hexact
    refine or_iff_not_imp_right.mpr fun hnone area harea hwindow => hnone ?_
    have hlt := (hok.sound area harea).start_lt
    exact hexact.mpr ⟨area, harea, hwindow.2, by omega⟩
  · rintro (hclear | hseen)
    · refine exists_congr fun area => and_congr_right fun harea => ?_
      have := hclear area harea
      omega
    · obtain ⟨area, harea, hlo, hhi⟩ := hseen
      exact ⟨fun _ => ⟨area, harea, by omega, hhi⟩, fun _ => ⟨area, harea, hlo, hhi⟩⟩

/-! ## Calls -/

/-- The address spaces of the system. -/
structure VmemSystem where
  spaces : List Vmem
  kernel : Kernel

/-- A call on the address space with the given number. -/
inductive AreaCall
  | allocPages (vm start pgcnt : ℕ) (flags : BitVec 64)
  | freePages (vm start pgcnt : ℕ)
  | clone (vm : ℕ)

/-- A call that returns. A copy is an address space of its own, also where `vmem_clone`
gave up in the middle. -/
inductive AreaStep : VmemSystem → AreaCall → VmemSystem → Prop
  | allocPages {s : VmemSystem} {i start pgcnt : ℕ} {flags : BitVec 64} {vm vm' : Vmem} {res : Int}
      {k : Kernel} (hvm : s.spaces[i]? = some vm) (halign : pageSize ∣ start) (hpages : 1 ≤ pgcnt)
      (hwrap : start + pgcnt * pageSize < 2 ^ 64)
      (hcall : vmemAllocPages vm start pgcnt flags s.kernel = .ok (res, vm', k)) :
      AreaStep s (.allocPages i start pgcnt flags) ⟨s.spaces.set i vm', k⟩
  | freePages {s : VmemSystem} {i start pgcnt : ℕ} {vm vm' : Vmem} {k : Kernel}
      (hvm : s.spaces[i]? = some vm)
      (hcall : vmemFreePages vm start pgcnt s.kernel = .ok (vm', k)) :
      AreaStep s (.freePages i start pgcnt) ⟨s.spaces.set i vm', k⟩
  | clone {s : VmemSystem} {i : ℕ} {vm dst : Vmem} {res : Int} {k : Kernel}
      (hvm : s.spaces[i]? = some vm) (hcall : vmemClone vm s.kernel = .ok (res, dst, k)) :
      AreaStep s (.clone i) ⟨s.spaces ++ [dst], k⟩

/-- The window of a request is clear in the state in which the call is made. -/
def AreaCall.Clear (s : VmemSystem) : AreaCall → Prop
  | .allocPages i start pgcnt _ => ∀ vm, s.spaces[i]? = some vm → ClearWindow vm start pgcnt
  | .freePages _ _ _ => True
  | .clone _ => True

/-- A new area that the check let through with a clear window overlaps no other. -/
theorem vmemAllocPages_areasOk {vm vm' : Vmem} {start pgcnt : ℕ} {flags : BitVec 64} {k k' : Kernel}
    {res : Int} (hok : AreasOk vm.areas) (hpages : 1 ≤ pgcnt)
    (hwrap : start + pgcnt * pageSize < 2 ^ 64) (hclear : ClearWindow vm start pgcnt)
    (hcall : vmemAllocPages vm start pgcnt flags k = .ok (res, vm', k')) : AreasOk vm'.areas := by
  unfold vmemAllocPages at hcall
  obtain ⟨_, -, hcall⟩ := bind_eq_ok.mp hcall
  by_cases hinter : vmemIntersects vm start pgcnt = true
  · rw [if_pos hinter] at hcall
    cases hcall
  · rw [if_neg hinter] at hcall
    have hfree : ¬Overlaps vm start pgcnt := fun h =>
      hinter (((vmemIntersects_correct_iff hok hpages hwrap).mpr (Or.inl hclear)).mpr h)
    cases hobj : (objectAlloc k).1 with
    | false =>
        obtain ⟨-, rfl, -⟩ : _ ∧ _ ∧ _ := by simpa [hobj, pure, Except.pure] using hcall
        exact hok
    | true =>
        obtain ⟨-, rfl, -⟩ : _ ∧ _ ∧ _ := by simpa [hobj, pure, Except.pure] using hcall
        refine ⟨?_, List.pairwise_cons.mpr ⟨fun area harea a ha => ?_, hok.apart⟩⟩
        · rw [List.forall_mem_cons]
          exact ⟨⟨hpages, hwrap⟩, hok.sound⟩
        · exact hfree ⟨area, harea, a, ha.1, ha.2⟩

/-- Freeing removes one area. -/
theorem vmemFreePages_sublist {vm vm' : Vmem} {start pgcnt : ℕ} {k k' : Kernel}
    (hcall : vmemFreePages vm start pgcnt k = .ok (vm', k')) : vm'.areas.Sublist vm.areas := by
  unfold vmemFreePages at hcall
  obtain ⟨_, -, hcall⟩ := bind_eq_ok.mp hcall
  simp only at hcall
  split_ifs at hcall with hmiss
  obtain ⟨rfl, -⟩ : _ ∧ _ := by simpa [pure, Except.pure, bind, Except.bind] using hcall
  exact List.eraseP_sublist

/-- Some of the areas are copied, the last one to the front. -/
theorem cloneAreas_areas (areas : List VmemArea) (dst : Vmem) (k : Kernel) :
    ∃ n, (cloneAreas areas dst k).2.1 = { dst with areas := (areas.take n).reverse ++ dst.areas } ∧
      (0 ≤ (cloneAreas areas dst k).1 → areas.take n = areas) := by
  induction areas generalizing dst k with
  | nil => exact ⟨0, rfl, fun _ => rfl⟩
  | cons area rest ih =>
      rw [cloneAreas]
      cases hobj : (objectAlloc k).1 with
      | false => exact ⟨0, by simp [hobj], by simp [hobj, enomem]⟩
      | true =>
          obtain ⟨n, hareas, hall⟩ := ih { dst with areas := area :: dst.areas } (objectAlloc k).2
          refine ⟨n + 1, ?_, fun hres => ?_⟩
          · simp [hobj, hareas]
          · simp only [hobj, not_true, ite_false] at hres
            rw [List.take_succ_cons, hall (by simpa using hres)]

theorem vmemInit_areas (k : Kernel) : (vmemInit k).2.1.areas = [] := by
  unfold vmemInit
  simp only
  split_ifs <;> rfl

/-- The areas of a copy are areas of the source, and all of them when it succeeded. -/
theorem vmemClone_areas {src dst : Vmem} {k k' : Kernel} {res : Int}
    (hcall : vmemClone src k = .ok (res, dst, k')) :
    ∃ n, dst.areas = (src.areas.take n).reverse ∧ (res = 0 → dst.areas = src.areas.reverse) := by
  unfold vmemClone at hcall
  simp only at hcall
  have hempty := vmemInit_areas k
  generalize vmemInit k = init at hcall hempty
  obtain ⟨res0, dst0, k0⟩ := init
  simp only at hcall hempty
  split_ifs at hcall with hinit hareas
  · obtain ⟨rfl, rfl, -⟩ : _ ∧ _ ∧ _ := by simpa [pure, Except.pure] using hcall
    exact ⟨0, by simpa using hempty, fun h => by omega⟩
  · obtain ⟨n, hcopy, -⟩ := cloneAreas_areas src.areas dst0 k0
    obtain ⟨hres, hrest⟩ := Prod.mk.inj (Except.ok.inj hcall)
    obtain ⟨hdst, -⟩ := Prod.mk.inj hrest
    exact ⟨n, by simp [← hdst, hcopy, hempty], fun h => by omega⟩
  · obtain ⟨n, hcopy, hall⟩ := cloneAreas_areas src.areas dst0 k0
    obtain ⟨⟨res1, k1⟩, -, hcall⟩ := bind_eq_ok.mp hcall
    have hdst : dst = (cloneAreas src.areas dst0 k0).2.1 := by
      simp only at hcall
      split_ifs at hcall
      · exact (Prod.mk.inj (Prod.mk.inj (Except.ok.inj hcall)).2).1.symm
      · exact (Prod.mk.inj (Prod.mk.inj (Except.ok.inj hcall)).2).1.symm
    refine ⟨n, by simp [hdst, hcopy, hempty], fun _ => ?_⟩
    simp [hdst, hcopy, hempty, hall (by omega)]

theorem vmemClone_areasOk {src dst : Vmem} {k k' : Kernel} {res : Int} (hok : AreasOk src.areas)
    (hcall : vmemClone src k = .ok (res, dst, k')) : AreasOk dst.areas := by
  obtain ⟨n, hareas, -⟩ := vmemClone_areas hcall
  rw [hareas]
  exact (hok.sublist (List.take_sublist n _)).reverse

/-- Every address space of the system has sound areas, no two of which overlap. -/
def SystemAreasOk (s : VmemSystem) : Prop := ∀ vm ∈ s.spaces, AreasOk vm.areas

theorem AreaStep.systemAreasOk {s t : VmemSystem} {call : AreaCall} (hok : SystemAreasOk s)
    (hclear : call.Clear s) (hstep : AreaStep s call t) : SystemAreasOk t := by
  intro other hother
  cases hstep with
  | allocPages hvm halign hpages hwrap hcall =>
      rcases List.mem_or_eq_of_mem_set hother with hold | rfl
      · exact hok other hold
      · exact vmemAllocPages_areasOk (hok _ (List.mem_of_getElem? hvm)) hpages hwrap (hclear _ hvm) hcall
  | freePages hvm hcall =>
      rcases List.mem_or_eq_of_mem_set hother with hold | rfl
      · exact hok other hold
      · exact (hok _ (List.mem_of_getElem? hvm)).sublist (vmemFreePages_sublist hcall)
  | clone hvm hcall =>
      rcases List.mem_append.mp hother with hold | hnew
      · exact hok other hold
      · rw [List.mem_singleton.mp hnew]
        exact vmemClone_areasOk (hok _ (List.mem_of_getElem? hvm)) hcall

/-- In every run whose requests have a clear window, areas never overlap; and in every
state of such a run the check is right about a request exactly when the window of the
request is clear or some area reaches into its first `pgcnt` bytes. -/
theorem vmem_run_areas_apart {s t : VmemSystem} {calls : List AreaCall} (hstart : SystemAreasOk s)
    (hrun : Run (fun a call b => call.Clear a ∧ AreaStep a call b) s calls t) :
    ∀ vm ∈ t.spaces, vm.areas.Pairwise VmemArea.Apart ∧
      ∀ start pgcnt, pageSize ∣ start → 1 ≤ pgcnt → start + pgcnt * pageSize < 2 ^ 64 →
        ((vmemIntersects vm start pgcnt = true ↔ Overlaps vm start pgcnt) ↔
          (ClearWindow vm start pgcnt ∨
            ∃ area ∈ vm.areas, area.start < start + pgcnt ∧ start < area.stop)) := by
  have hok : SystemAreasOk t :=
    hrun.invariant SystemAreasOk hstart fun a call b ha hstep => hstep.2.systemAreasOk ha hstep.1
  exact fun vm hvm => ⟨(hok vm hvm).apart,
    fun start pgcnt _ hpages hwrap => vmemIntersects_correct_iff (hok vm hvm) hpages hwrap⟩

/-! One address space with these areas, and objects for more. -/

def areaSystem (areas : List VmemArea) (objects : List Bool) : VmemSystem :=
  ⟨[⟨areas, 0⟩], ⟨fun _ => 0, [], objects, [], fun _ _ => 0, []⟩⟩

theorem areaSystem_clear {areas : List VmemArea} {objects : List Bool} {start pgcnt : ℕ}
    (h : ∀ area ∈ areas, ¬(start + pgcnt ≤ area.start ∧ area.start < start + pgcnt * pageSize)) :
    (AreaCall.allocPages 0 start pgcnt 0).Clear (areaSystem areas objects) := by
  intro vm hvm
  obtain rfl := Option.some.inj (show some ⟨areas, 0⟩ = some vm from hvm)
  exact h

/-- A request that the check lets through. -/
theorem areaSystem_step {areas : List VmemArea} {objects : List Bool} {start pgcnt : ℕ} (halign : pageSize ∣ start)
    (hpages : 1 ≤ pgcnt) (hwrap : start + pgcnt * pageSize < 2 ^ 64)
    (hcall : vmemAllocPages ⟨areas, 0⟩ start pgcnt 0 (areaSystem areas (true :: objects)).kernel =
      .ok (0, ⟨⟨start, pgcnt, 0⟩ :: areas, 0⟩, (areaSystem areas objects).kernel)) :
    AreaStep (areaSystem areas (true :: objects)) (.allocPages 0 start pgcnt 0)
      (areaSystem (⟨start, pgcnt, 0⟩ :: areas) objects) :=
  @AreaStep.allocPages (areaSystem areas (true :: objects)) 0 start pgcnt 0 _ _ 0 _ rfl halign hpages hwrap hcall

/-- A fresh address space. -/
def freshSystem : VmemSystem := areaSystem [] [true, true, true]

theorem freshSystem_areasOk : SystemAreasOk freshSystem := by
  intro vm hvm
  rw [List.mem_singleton.mp hvm]
  exact ⟨fun area harea => (List.not_mem_nil harea).elim, List.Pairwise.nil⟩

def threeAreas : List VmemArea := [⟨0x1000, 2, 0⟩, ⟨0x5000, 2, 0⟩, ⟨0x3000, 1, 0⟩]

/-- Three areas that do not overlap. The check is right about a page between them, and about a
page of one of them; about two pages from `0x4000` on it is wrong. -/
theorem vmem_run_areas_apart_three :
    Run (fun a call b => call.Clear a ∧ AreaStep a call b) freshSystem
        [.allocPages 0 0x3000 1 0, .allocPages 0 0x5000 2 0, .allocPages 0 0x1000 2 0] (areaSystem threeAreas []) ∧
      threeAreas.Pairwise VmemArea.Apart ∧
      ¬Overlaps ⟨threeAreas, 0⟩ 0x4000 1 ∧ Overlaps ⟨threeAreas, 0⟩ 0x6000 1 ∧
      ¬(vmemIntersects ⟨threeAreas, 0⟩ 0x4000 2 = true ↔ Overlaps ⟨threeAreas, 0⟩ 0x4000 2) := by
  have hrun : Run (fun a call b => AreaCall.Clear a call ∧ AreaStep a call b) freshSystem
      [.allocPages 0 0x3000 1 0, .allocPages 0 0x5000 2 0, .allocPages 0 0x1000 2 0] (areaSystem threeAreas []) :=
    ((Run.single _ ⟨areaSystem_clear (by decide), areaSystem_step (by decide) (by decide) (by decide) rfl⟩).snoc
      ⟨areaSystem_clear (by decide), areaSystem_step (by decide) (by decide) (by decide) rfl⟩).snoc
      ⟨areaSystem_clear (by decide), areaSystem_step (by decide) (by decide) (by decide) rfl⟩
  obtain ⟨hapart, hcheck⟩ := vmem_run_areas_apart freshSystem_areasOk hrun ⟨threeAreas, 0⟩ (List.mem_singleton.mpr rfl)
  have hbetween := (hcheck 0x4000 1 (by decide) (by decide) (by decide)).mpr (Or.inl (by unfold ClearWindow; decide))
  have hinside := (hcheck 0x6000 1 (by decide) (by decide) (by decide)).mpr (Or.inl (by unfold ClearWindow; decide))
  refine ⟨hrun, hapart, fun hover => absurd (hbetween.mpr hover) (by decide), hinside.mp (by decide), fun hright => ?_⟩
  rcases (hcheck 0x4000 2 (by decide) (by decide) (by decide)).mp hright with hclear | hseen
  · exact absurd hclear (by unfold ClearWindow; decide)
  · exact absurd hseen (by unfold VmemArea.stop; decide)

/-- Sixteen pages at `0x1000` are let through over the page at `0x3000`: they are checked
as sixteen bytes. -/
theorem vmem_run_areas_overlap :
    ∃ t, Run AreaStep freshSystem [.allocPages 0 0x3000 1 0, .allocPages 0 0x1000 16 0] t ∧
      ¬∀ vm ∈ t.spaces, vm.areas.Pairwise VmemArea.Apart := by
  have hrun : Run AreaStep freshSystem [.allocPages 0 0x3000 1 0, .allocPages 0 0x1000 16 0]
      (areaSystem [⟨0x1000, 16, 0⟩, ⟨0x3000, 1, 0⟩] [true]) :=
    (Run.single _ (areaSystem_step (by decide) (by decide) (by decide) rfl)).snoc
      (areaSystem_step (by decide) (by decide) (by decide) rfl)
  refine ⟨_, hrun, fun hapart => ?_⟩
  have hpair := hapart _ (List.mem_singleton.mpr rfl)
  refine (List.pairwise_cons.mp hpair).1 ⟨0x3000, 1, 0⟩ (List.mem_singleton.mpr rfl) 0x3000 ?_
  simp only [VmemArea.Covers, VmemArea.stop]
  decide

end HeavenOS
