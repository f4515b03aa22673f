/-
# The status pointer of `sys_wait`

A parent may hand `sys_wait` any pointer for the exit code of its child. The call should
write there only what the program itself may write. The test that it makes looks at the area
of the first byte alone, and is passed by an area with either of the two flags.
-/

import HeavenOS.Mm.VmemAreas
import HeavenOS.Sched.Task
import Mathlib.Data.List.Pairwise

namespace HeavenOS

/-! ## What may be written -/

/-- The addresses of the exit code at `status`. -/
def statusBytes (status : ℕ) : Set ℕ := {a | ∃ i < 4, a = (status + i) % 2 ^ 64}

/-- A byte of an area with both `VMEM_USER` and `VMEM_WRITE`. -/
def Writable (areas : List VmemArea) (a : ℕ) : Prop :=
  ∃ area ∈ areas, area.Covers a ∧ area.flags &&& vmemUser ≠ 0 ∧ area.flags &&& vmemWrite ≠ 0

/-- The bytes that `sys_wait` writes. -/
def statusWrites (status : ℕ) : Option (BitVec 32) → Set ℕ
  | none => ∅
  | some _ => statusBytes status

/-- `sys_wait` on a zombie writes what the program may write, and otherwise refuses, so that
the child can be reaped later; without a status it reaps and writes nothing. -/
structure WaitSafe (tasks : TaskTable) (p c status : ℕ) : Prop where
  writes : statusWrites status (sysWaitFinish tasks p c status).2.1 ⊆ {a | Writable (tasks p).vmem.areas a}
  refused : status ≠ 0 → ¬statusBytes status ⊆ {a | Writable (tasks p).vmem.areas a} →
    sysWaitFinish tasks p c status = (-einval, none, tasks) ∧ sysWait tasks p c = .ready
  reaped : status = 0 →
    sysWaitFinish tasks p c status = (0, none, tasks.modify c fun t => { t with state := .notAllocated })

/-! ## What is tested -/

/-- An area is found only for addresses in it. -/
theorem VmemArea.Holds.covers {area : VmemArea} {a : ℕ} (h : area.Holds a) : area.Covers a :=
  ⟨h.1, lt_of_lt_of_le h.2 (Nat.mod_le _ _)⟩

/-- The test is passed by an area with either flag. -/
theorem statusOk_iff {vm : Vmem} (hapart : vm.areas.Pairwise VmemArea.Apart) (status : ℕ) :
    statusOk vm status = true ↔
      ∃ area ∈ vm.areas, area.Holds status ∧ area.flags &&& (vmemUser ||| vmemWrite) ≠ 0 := by
  unfold statusOk vmemIsMapped
  cases hfound : vm.areas.find? fun area => decide (area.Holds status) with
  | none =>
      rw [List.find?_eq_none] at hfound
      constructor
      · intro h
        cases h
      · rintro ⟨area, harea, hholds, -⟩
        exact absurd (decide_eq_true hholds) (hfound area harea)
  | some found =>
      have hmem := List.mem_of_find?_eq_some hfound
      have hholds : found.Holds status := by
        have hfound_holds := List.find?_some hfound
        exact of_decide_eq_true hfound_holds
      simp only [decide_eq_true_eq]
      constructor
      · intro hflags
        exact ⟨found, hmem, hholds, hflags⟩
      · rintro ⟨area, harea, harea_holds, hflags⟩
        by_cases heq : area = found
        · rwa [← heq]
        · -- two areas would hold the same byte
          have hsymm : Std.Symm VmemArea.Apart := ⟨fun _ _ h => h.symm⟩
          exact absurd ⟨harea_holds.covers, hholds.covers⟩ (hapart.forall harea hmem heq status)

/-- `sys_wait` is safe on a zombie exactly where the status is missing, its first byte is in
no area with `VMEM_USER` or `VMEM_WRITE`, or all of its bytes are in areas with both. -/
theorem wait_safe_iff {tasks : TaskTable} {p c status : ℕ} (hchild : sysWait tasks p c = .ready)
    (hapart : (tasks p).vmem.areas.Pairwise VmemArea.Apart) :
    WaitSafe tasks p c status ↔
      status = 0 ∨
      (∀ area ∈ (tasks p).vmem.areas, area.Holds status → area.flags &&& (vmemUser ||| vmemWrite) = 0) ∨
      statusBytes status ⊆ {a | Writable (tasks p).vmem.areas a} := by
  by_cases hnull : status = 0
  · subst hnull
    have hfinish : sysWaitFinish tasks p c 0 = (0, none, tasks.modify c fun t => { t with state := .notAllocated }) := by
      simp [sysWaitFinish]
    refine ⟨fun _ => Or.inl rfl, fun _ => ⟨?_, fun h => absurd rfl h, fun _ => hfinish⟩⟩
    rw [hfinish]
    exact Set.empty_subset _
  · by_cases hok : statusOk (tasks p).vmem status = true
    · have hfinish : sysWaitFinish tasks p c status =
          (0, some (tasks c).exitcode, tasks.modify c fun t => { t with state := .notAllocated }) := by
        simp [sysWaitFinish, hnull, hok]
      constructor
      · intro h
        have hwrites := h.writes
        rw [hfinish] at hwrites
        exact Or.inr (Or.inr hwrites)
      · rintro (h | hnone | hall)
        · exact absurd h hnull
        · obtain ⟨area, harea, hholds, hflags⟩ := (statusOk_iff hapart status).mp hok
          exact absurd (hnone area harea hholds) hflags
        · refine ⟨?_, fun _ hnot => absurd hall hnot, fun h => absurd h hnull⟩
          rw [hfinish]
          exact hall
    · have hfinish : sysWaitFinish tasks p c status = (-einval, none, tasks) := by
        simp [sysWaitFinish, hnull, hok]
      constructor
      · intro _
        refine Or.inr (Or.inl fun area harea hholds => by_contra fun hflags => hok ?_)
        exact (statusOk_iff hapart status).mpr ⟨area, harea, hholds, hflags⟩
      · intro _
        refine ⟨?_, fun _ _ => ⟨hfinish, hchild⟩, fun h => absurd h hnull⟩
        rw [hfinish]
        exact Set.empty_subset _

/-- Task 1 has an area of its own, and task 2 is its child and dead. -/
def waitingTasks (area : VmemArea) : TaskTable := fun i =>
  if i = 1 then { Task.zero with pid := 1, state := .runnable, vmem := ⟨[area], 0⟩ }
  else if i = 2 then { Task.zero with pid := 2, ppid := 1, state := .zombie }
  else Task.zero

/-- The stack of a program. -/
def stackArea : VmemArea := ⟨0x70000000, 4, vmemUser ||| vmemWrite⟩

theorem wait_safe_on_stack : WaitSafe (waitingTasks stackArea) 1 2 0x70003ff0 := by
  refine (wait_safe_iff rfl (List.pairwise_singleton _ _)).mpr (Or.inr (Or.inr ?_))
  rintro a ⟨i, hi, rfl⟩
  refine ⟨stackArea, List.mem_singleton_self _, ?_, by decide, by decide⟩
  change 0x70000000 ≤ (0x70003ff0 + i) % 2 ^ 64 ∧ (0x70003ff0 + i) % 2 ^ 64 < 0x70000000 + 4 * 4096
  omega

/-- Two bytes before the end of its stack a program makes `sys_wait` write two bytes behind it;
and an area that it may only read is written to. -/
theorem wait_writes_outside :
    ¬WaitSafe (waitingTasks stackArea) 1 2 0x70003ffe ∧
      ¬WaitSafe (waitingTasks ⟨0x10000, 1, vmemUser⟩) 1 2 0x10000 := by
  constructor
  · intro h
    obtain ⟨area, harea, hcovers, -⟩ := h.writes (show 0x70004000 ∈ statusBytes 0x70003ffe from ⟨2, by decide, rfl⟩)
    rw [List.mem_singleton.mp harea] at hcovers
    exact absurd hcovers.2 (by decide)
  · intro h
    obtain ⟨area, harea, -, -, hwrite⟩ := h.writes (show 0x10000 ∈ statusBytes 0x10000 from ⟨0, by decide, rfl⟩)
    rw [List.mem_singleton.mp harea] at hwrite
    exact hwrite (by decide)

end HeavenOS
