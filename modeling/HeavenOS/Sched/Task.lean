/-
# Tasks

The task table of `sched/sched.c` and the bodies of the system calls of
`kernel/syscall.c`, each up to the point where it gives up the processor. An entry is
named by its index. What an address space and a kernel stack consist of is not part of
the table; two flags say whether an entry has them.
-/

import HeavenOS.Mm.Vmem

namespace HeavenOS

/-- `EINVAL` -/
def einval : Int := 3

/-- `ECHILD` -/
def echild : Int := 4

/-- `SCHED_TIMER_PERIOD` -/
def schedTimerPeriod : ℕ := 10

/-- `PREEMPT_TICKS` -/
def preemptTicks : ℕ := 10

/-- `MAX_TASK_COUNT` -/
def maxTaskCount : ℕ := 2 ^ 16

/-! ## The table -/

/-- `state_t` -/
inductive TaskState
  | notAllocated
  | runnable
  | waiting
  | zombie
  | sleeping
  deriving DecidableEq

/-- `task_t` -/
structure Task where
  pid : ℕ
  ppid : ℕ
  waitPid : ℕ
  state : TaskState
  preemptDeadline : ℕ
  sleepUntil : ℕ
  vmem : Vmem
  exitcode : BitVec 32
  /-- Whether `vmem` is an address space that has not been destroyed. -/
  vmemLive : Bool
  /-- The same for the kernel stack. -/
  kstackLive : Bool

/-- An entry of the table before its first use. -/
def Task.zero : Task :=
  ⟨0, 0, 0, .notAllocated, 0, 0, ⟨[], 0⟩, 0, false, false⟩

/-- `tasks`. The array has `maxTaskCount` entries; what is read behind them is what other
memory looks like when it is taken for an entry. -/
abbrev TaskTable := ℕ → Task

namespace TaskTable

/-- Assignments to fields of `tasks[i]`. -/
def modify (tasks : TaskTable) (i : ℕ) (f : Task → Task) : TaskTable :=
  Function.update tasks i (f (tasks i))

variable (tasks : TaskTable) (f : Task → Task)

@[simp]
theorem modify_self (i : ℕ) : tasks.modify i f i = f (tasks i) := Function.update_self _ _ _

theorem modify_of_ne {i j : ℕ} (h : j ≠ i) : tasks.modify i f j = tasks j := Function.update_of_ne h _ _

theorem modify_apply (i j : ℕ) : tasks.modify i f j = if j = i then f (tasks j) else tasks j := by
  by_cases h : j = i
  · rw [if_pos h, h, modify_self]
  · rw [if_neg h, modify_of_ne _ _ h]

end TaskTable

/-! ## Allocating an entry -/

/-- The loop of `sched_allocate_task`, with `left` entries to go from `currPid`. -/
def scanTasks (tasks : TaskTable) : (left currPid : ℕ) → ℕ
  | 0, currPid => currPid
  | left + 1, currPid =>
      if (tasks currPid).state ≠ .notAllocated then scanTasks tasks left (currPid + 1) else currPid

/-- The entry found and the table with its `pid` set; `none` for `NULL`. -/
def schedAllocateTask (tasks : TaskTable) : Option (ℕ × TaskTable) :=
  let currPid := scanTasks tasks (maxTaskCount - 1) 1
  if currPid = maxTaskCount then none
  else some (currPid, tasks.modify currPid fun t => { t with pid := currPid })

theorem scanTasks_spec (tasks : TaskTable) (left currPid : ℕ) :
    currPid ≤ scanTasks tasks left currPid ∧ scanTasks tasks left currPid ≤ currPid + left ∧
      (scanTasks tasks left currPid < currPid + left →
        (tasks (scanTasks tasks left currPid)).state = .notAllocated) := by
  induction left generalizing currPid with
  | zero => exact ⟨le_refl _, le_refl _, fun h => absurd h (lt_irrefl _)⟩
  | succ left ih =>
      rw [scanTasks]
      split_ifs with hstate
      · obtain ⟨hlo, hhi, hfree⟩ := ih (currPid + 1)
        exact ⟨by omega, by omega, fun h => hfree (by omega)⟩
      · exact ⟨le_refl _, by omega, fun _ => not_not.mp hstate⟩

theorem schedAllocateTask_spec {tasks tasks' : TaskTable} {c : ℕ}
    (h : schedAllocateTask tasks = some (c, tasks')) :
    1 ≤ c ∧ c < maxTaskCount ∧ (tasks c).state = .notAllocated ∧
      tasks' = tasks.modify c fun t => { t with pid := c } := by
  obtain ⟨hlo, hhi, hfree⟩ := scanTasks_spec tasks (maxTaskCount - 1) 1
  unfold schedAllocateTask at h
  simp only at h
  split_ifs at h with hfull
  obtain ⟨rfl, rfl⟩ := Prod.mk.inj (Option.some.inj h)
  have hmax : 1 + (maxTaskCount - 1) = maxTaskCount := by decide
  exact ⟨hlo, by omega, hfree (by omega), rfl⟩

/-! ## System calls -/

/-- `sys_sleep` up to `sched_switch`. -/
def sysSleep (tasks : TaskTable) (timer p ms : ℕ) : TaskTable :=
  tasks.modify p fun t =>
    { t with sleepUntil := (timer + ms / schedTimerPeriod) % 2 ^ 64, state := .sleeping }

/-- `sys_fork` where `vmem_clone` made `vm` and the kernel stack was cloned; the child and the
table. Without a free entry there is no result: the source goes on with `NULL`. -/
def sysFork (tasks : TaskTable) (p : ℕ) (vm : Vmem) : Option (ℕ × TaskTable) :=
  match schedAllocateTask tasks with
  | none => none
  | some (child, tasks) =>
      some (child, tasks.modify child fun t =>
        { t with vmem := vm, vmemLive := true, kstackLive := true, ppid := (tasks p).pid, state := .runnable })

/-- `sys_exit` up to `sched_switch`. -/
def sysExit (tasks : TaskTable) (p : ℕ) (code : BitVec 64) : TaskTable :=
  let tasks := tasks.modify p fun t => { t with exitcode := code.truncate 32, state := .zombie }
  let parent := (tasks p).ppid
  if (tasks parent).state = .waiting ∧ (tasks parent).waitPid = (tasks p).pid then
    tasks.modify parent fun t => { t with state := .runnable }
  else tasks

/-- How `sys_wait` begins. -/
inductive WaitStart
  /-- Not a child of the caller. -/
  | refused (res : Int)
  /-- The child is alive; the caller goes to the scheduler. -/
  | blocked (tasks : TaskTable)
  /-- The child is a zombie. -/
  | ready

def sysWait (tasks : TaskTable) (p childPid : ℕ) : WaitStart :=
  if (tasks childPid).ppid ≠ (tasks p).pid then .refused (-echild)
  else if (tasks childPid).state ≠ .zombie then
    .blocked (tasks.modify p fun t => { t with state := .waiting, waitPid := childPid })
  else .ready

/-- The test of the status pointer in `sys_wait`. -/
def statusOk (vm : Vmem) (status : ℕ) : Bool :=
  match vmemIsMapped vm status with
  | none => false
  | some area => area.flags &&& (vmemUser ||| vmemWrite) ≠ 0

/-- The end of `sys_wait`: the result, the status delivered and the table. -/
def sysWaitFinish (tasks : TaskTable) (p childPid status : ℕ) : Int × Option (BitVec 32) × TaskTable :=
  if status ≠ 0 ∧ ¬ statusOk (tasks p).vmem status then (-einval, none, tasks)
  else
    (0, if status ≠ 0 then some (tasks childPid).exitcode else none,
      tasks.modify childPid fun t => { t with state := .notAllocated })

/-! What the calls leave in the table. -/

section Spec

variable {tasks tasks' : TaskTable} {p c j : ℕ}

/-- A child is put into a free entry. -/
theorem sysFork_spec {vm : Vmem} (h : sysFork tasks p vm = some (c, tasks')) :
    1 ≤ c ∧ c < maxTaskCount ∧ (tasks c).state = .notAllocated ∧
      (p ≠ c → tasks' = tasks.modify c fun t =>
        { t with pid := c, vmem := vm, vmemLive := true, kstackLive := true, ppid := (tasks p).pid,
                 state := .runnable }) := by
  unfold sysFork at h
  cases halloc : schedAllocateTask tasks with
  | none =>
      rw [halloc] at h
      cases h
  | some found =>
      obtain ⟨child, tasks1⟩ := found
      rw [halloc] at h
      obtain ⟨rfl, rfl⟩ := Prod.mk.inj (Option.some.inj h)
      obtain ⟨hlo, hhi, hfree, rfl⟩ := schedAllocateTask_spec halloc
      refine ⟨hlo, hhi, hfree, fun hne => funext fun j => ?_⟩
      by_cases hj : j = child
      · subst hj
        simp [TaskTable.modify_of_ne _ _ hne]
      · simp [TaskTable.modify_of_ne _ _ hj]

/-- Only the caller and its parent change when a task exits: the parent where it waits for
the caller. -/
theorem sysExit_apply (code : BitVec 64) :
    sysExit tasks p code j =
      if j = p then { tasks p with exitcode := code.truncate 32, state := .zombie }
      else if j = (tasks p).ppid ∧ (tasks j).state = .waiting ∧ (tasks j).waitPid = (tasks p).pid then
        { tasks j with state := .runnable }
      else tasks j := by
  unfold sysExit
  by_cases hparent : (tasks p).ppid = p
  · -- the caller would be its own parent, and that is a zombie by now
    by_cases hj : j = p
    · simp [hj, hparent]
    · simp [hj, hparent, TaskTable.modify_of_ne]
  · by_cases hj : j = p
    · subst hj
      by_cases hwake : (tasks (tasks j).ppid).state = .waiting ∧ (tasks (tasks j).ppid).waitPid = (tasks j).pid
      · simp [TaskTable.modify_of_ne _ _ hparent, TaskTable.modify_of_ne _ _ (Ne.symm hparent), hwake]
      · simp [TaskTable.modify_of_ne _ _ hparent, hwake]
    · by_cases hpar : j = (tasks p).ppid
      · subst hpar
        by_cases hwake : (tasks (tasks p).ppid).state = .waiting ∧ (tasks (tasks p).ppid).waitPid = (tasks p).pid
        · simp [TaskTable.modify_of_ne _ _ hparent, hwake, hparent]
        · simp [TaskTable.modify_of_ne _ _ hparent, hwake, hparent]
      · simp only [TaskTable.modify_self, TaskTable.modify_of_ne _ _ hparent, hj, hpar, false_and, if_false]
        split_ifs
        · rw [TaskTable.modify_of_ne _ _ hpar, TaskTable.modify_of_ne _ _ hj]
        · rw [TaskTable.modify_of_ne _ _ hj]

theorem sysWait_cases (tasks : TaskTable) (p c : ℕ) :
    (tasks c).ppid ≠ (tasks p).pid ∧ sysWait tasks p c = .refused (-echild) ∨
    (tasks c).ppid = (tasks p).pid ∧ (tasks c).state ≠ .zombie ∧
      sysWait tasks p c = .blocked (tasks.modify p fun t => { t with state := .waiting, waitPid := c }) ∨
    (tasks c).ppid = (tasks p).pid ∧ (tasks c).state = .zombie ∧ sysWait tasks p c = .ready := by
  unfold sysWait
  split_ifs with hpar hstate
  · exact Or.inl ⟨hpar, rfl⟩
  · exact Or.inr (Or.inl ⟨not_not.mp hpar, hstate, rfl⟩)
  · exact Or.inr (Or.inr ⟨not_not.mp hpar, not_not.mp hstate, rfl⟩)

end Spec

end HeavenOS
