/-
# The scheduler and its tasks

The scheduler loop of `sched_start`, the timer tick and the system calls as steps of one
machine. A system call is one step; it may end by going to the scheduler, and goes on in
a further step when its task gets the processor again. The timer fires in the scheduler and
in user mode.
-/

import HeavenOS.Lib.Runs
import HeavenOS.Sched.Task

namespace HeavenOS

/-! ## State -/

/-- What the processor does. -/
inductive Cpu
  /-- The scheduler is about to examine an entry, or at the end of a pass over the table. -/
  | examine (i : ℕ) (found : Bool)
  /-- The scheduler is back from `sched_switch_to(&tasks[i])`. -/
  | returned (i : ℕ)
  /-- The address space of a dead task is destroyed, its kernel stack not yet. -/
  | torn (i : ℕ)
  /-- `x86_hlt` -/
  | halted
  | task (p : ℕ)
  | panicked (msg : Panic)
  deriving DecidableEq

/-- A machine whose tasks go on at places `κ`. -/
structure System (κ : Type) where
  tasks : TaskTable
  /-- `sched_timer` -/
  timer : ℕ
  /-- `_current` -/
  current : Option ℕ
  /-- `curr_vmem`: the task whose address space it is, `none` for `sched_vmem`. -/
  currVmem : Option ℕ
  /-- The saved contexts of the tasks; for the task on the processor, what it executes. -/
  conts : ℕ → κ
  /-- The loop variable of the scheduler in `sched_context`. -/
  schedIndex : ℕ
  cpu : Cpu

inductive Action
  | tick
  /-- The entry is examined and not run. -/
  | pass (i : ℕ)
  | passEnd
  /-- The processor is given to a task, at this time. -/
  | run (i timer : ℕ)
  /-- The task that gave up the processor is not dead. -/
  | keep (i : ℕ)
  | destroyVmem (i : ℕ)
  | destroyKstack (i : ℕ)
  | getpid (p res : ℕ)
  | sleep (p timer ms : ℕ)
  | slept (p : ℕ)
  | fork (p child : ℕ)
  | exit (p : ℕ) (code : BitVec 64)
  /-- `sys_wait` returns `-ECHILD`. -/
  | refused (p child : ℕ)
  | blocked (p child : ℕ)
  /-- `sys_wait` returns `-EINVAL`. -/
  | invalid (p child : ℕ)
  /-- `sys_wait` returns `0`; the status it has delivered. -/
  | reaped (p child : ℕ) (status : Option (BitVec 32))
  | panic
  deriving DecidableEq

section Scheduler

variable {κ : Type}

/-- After `setup_init_task` and `irq_enable`; `vm` is the address space of the first task,
which begins at `start`. -/
def System.boot (vm : Vmem) (start : κ) : System κ where
  tasks := Function.update (fun _ => Task.zero) 1
    { Task.zero with pid := 1, state := .runnable, vmem := vm, vmemLive := true, kstackLive := true }
  timer := 0
  current := none
  currVmem := none
  conts := fun _ => start
  schedIndex := 0
  cpu := .examine 0 false

/-! ## Switching -/

/-- `sched_switch_to` -/
def schedSwitchTo (s : System κ) (next : ℕ) : System κ :=
  { s with
    current := some next
    tasks := s.tasks.modify next fun t => { t with preemptDeadline := (s.timer + preemptTicks) % 2 ^ 64 }
    currVmem := some next
    schedIndex := next
    cpu := .task next }

/-- `sched_switch`, called where the task goes on at `cont`. -/
def schedSwitch (s : System κ) (cont : κ) : System κ :=
  match s.current with
  | none => { s with cpu := .panicked "assertion failed: '_current != NULL'" }
  | some prev =>
      { s with
        current := none
        conts := Function.update s.conts prev cont
        cpu := .returned s.schedIndex }

/-- `sched_timer_tick`, called where the task on the processor, if any, goes on at `cont`. -/
def schedTimerTick (s : System κ) (cont : κ) : System κ :=
  let s := { s with timer := (s.timer + 1) % 2 ^ 64 }
  match s.current with
  | none => s
  | some p => if s.timer ≤ (s.tasks p).preemptDeadline then schedSwitch s cont else s

theorem schedTimerTick_idle {s : System κ} (cont : κ) (hcur : s.current = none) :
    schedTimerTick s cont = { s with timer := (s.timer + 1) % 2 ^ 64 } := by
  simp only [schedTimerTick, hcur]

theorem schedTimerTick_stay {s : System κ} {p : ℕ} (cont : κ) (hcur : s.current = some p)
    (hdue : ¬(s.timer + 1) % 2 ^ 64 ≤ (s.tasks p).preemptDeadline) :
    schedTimerTick s cont = { s with timer := (s.timer + 1) % 2 ^ 64 } := by
  simp only [schedTimerTick, hcur, hdue, if_false]

theorem schedTimerTick_switch {s : System κ} {p : ℕ} (cont : κ) (hcur : s.current = some p)
    (hdue : (s.timer + 1) % 2 ^ 64 ≤ (s.tasks p).preemptDeadline) :
    schedTimerTick s cont = { s with
      timer := (s.timer + 1) % 2 ^ 64
      current := none
      conts := Function.update s.conts p cont
      cpu := .returned s.schedIndex } := by
  simp only [schedTimerTick, hcur, hdue, if_true, schedSwitch]

/-- An interrupt ends `x86_hlt`, and the next pass begins. -/
def System.wake (s : System κ) : System κ :=
  if s.cpu = .halted then { s with cpu := .examine 0 false } else s

/-- The timer interrupt, wherever the processor is. -/
def tickAt (s : System κ) : System κ :=
  match s.cpu with
  | .task p => schedTimerTick s (s.conts p)
  | _ => (schedTimerTick s (s.conts s.schedIndex)).wake

theorem tickAt_idle {s : System κ} (hno : ∀ p, s.cpu ≠ .task p) (hcur : s.current = none) :
    tickAt s = { s with timer := (s.timer + 1) % 2 ^ 64 }.wake := by
  unfold tickAt
  split
  · next p hcpu => exact absurd hcpu (hno p)
  · rw [schedTimerTick_idle _ hcur]

/-- The first test of the scheduler loop. -/
def wakeSleeping (tasks : TaskTable) (timer i : ℕ) : TaskTable :=
  if (tasks i).state = .sleeping ∧ (tasks i).sleepUntil ≤ timer then
    tasks.modify i fun t => { t with state := .runnable }
  else tasks

/-- `vmem_switch_to(&sched_vmem)` and `vmem_destroy(&tasks[i].vmem)` -/
def destroyVmem (s : System κ) (i : ℕ) : System κ :=
  let s := { s with currVmem := none }
  if s.currVmem = some i then { s with cpu := .panicked "assertion failed: 'curr_vmem != vm'" }
  else { s with tasks := s.tasks.modify i fun t => { t with vmemLive := false }, cpu := .torn i }

/-- `arch_thread_destroy(&tasks[i].arch_thread)` -/
def destroyKstack (s : System κ) (i : ℕ) : System κ :=
  { s with
    tasks := s.tasks.modify i fun t => { t with kstackLive := false }
    cpu := .examine (i + 1) true }

/-- The scheduler loop of `sched_start`. -/
inductive SchedStep : System κ → Action → System κ → Prop
  | pass {s : System κ} {i : ℕ} {found : Bool} (hcpu : s.cpu = .examine i found) (hi : i < maxTaskCount)
      (hstate : (wakeSleeping s.tasks s.timer i i).state ≠ .runnable) :
      SchedStep s (.pass i) { s with tasks := wakeSleeping s.tasks s.timer i, cpu := .examine (i + 1) found }
  | passEnd {s : System κ} {found : Bool} (hcpu : s.cpu = .examine maxTaskCount found) :
      SchedStep s .passEnd { s with cpu := if found then .examine 0 false else .halted }
  | run {s : System κ} {i : ℕ} {found : Bool} (hcpu : s.cpu = .examine i found) (hi : i < maxTaskCount)
      (hstate : (wakeSleeping s.tasks s.timer i i).state = .runnable) :
      SchedStep s (.run i s.timer) (schedSwitchTo { s with tasks := wakeSleeping s.tasks s.timer i } i)
  | keep {s : System κ} {i : ℕ} (hcpu : s.cpu = .returned i) (hstate : (s.tasks i).state ≠ .zombie) :
      SchedStep s (.keep i) { s with cpu := .examine (i + 1) true }
  | destroyVmem {s : System κ} {i : ℕ} (hcpu : s.cpu = .returned i) (hstate : (s.tasks i).state = .zombie) :
      SchedStep s (.destroyVmem i) (destroyVmem s i)
  | destroyKstack {s : System κ} {i : ℕ} (hcpu : s.cpu = .torn i) :
      SchedStep s (.destroyKstack i) (destroyKstack s i)

/-! What becomes of the entry that is examined. -/

theorem wakeSleeping_cases (tasks : TaskTable) (timer i : ℕ) :
    wakeSleeping tasks timer i = tasks ∨
      (tasks i).state = .sleeping ∧ (tasks i).sleepUntil ≤ timer ∧
        wakeSleeping tasks timer i = tasks.modify i fun t => { t with state := .runnable } := by
  unfold wakeSleeping
  split_ifs with hdue
  · exact Or.inr ⟨hdue.1, hdue.2, rfl⟩
  · exact Or.inl rfl

variable {s : System κ} {i : ℕ}

/-- An entry that is not run is left as it is. -/
theorem wakeSleeping_of_pass (hstate : (wakeSleeping s.tasks s.timer i i).state ≠ .runnable) :
    wakeSleeping s.tasks s.timer i = s.tasks := by
  rcases wakeSleeping_cases s.tasks s.timer i with heq | ⟨-, -, heq⟩
  · exact heq
  · rw [heq, TaskTable.modify_self] at hstate
    exact absurd rfl hstate

/-- What the scheduler makes of the entry that it runs. -/
theorem schedSwitchTo_tasks (hstate : (wakeSleeping s.tasks s.timer i i).state = .runnable) :
    ((s.tasks i).state = .runnable ∨ (s.tasks i).state = .sleeping ∧ (s.tasks i).sleepUntil ≤ s.timer) ∧
      ∀ j, (schedSwitchTo { s with tasks := wakeSleeping s.tasks s.timer i } i).tasks j =
        if j = i then { s.tasks i with state := .runnable, preemptDeadline := (s.timer + preemptTicks) % 2 ^ 64 }
        else s.tasks j := by
  rcases wakeSleeping_cases s.tasks s.timer i with heq | ⟨hsleep, hdue, heq⟩
  · rw [heq] at hstate ⊢
    refine ⟨Or.inl hstate, fun j => ?_⟩
    simp only [schedSwitchTo, TaskTable.modify_apply]
    split_ifs with hj
    · rw [hj, ← hstate]
    · rfl
  · rw [heq]
    refine ⟨Or.inr ⟨hsleep, hdue⟩, fun j => ?_⟩
    simp only [schedSwitchTo, TaskTable.modify_apply]
    split_ifs with hj
    · rw [hj]
    · rfl

end Scheduler

/-! ## System calls in one step -/

/-- Where a task goes on when it has the processor. -/
inductive Cont
  | user
  /-- Behind `sched_switch` in `sys_sleep`. -/
  | sleep
  /-- Behind `sched_switch` in `sys_wait`. -/
  | wait (child status : ℕ)
  /-- Behind `sched_switch` in `sys_exit`. -/
  | exit
  deriving DecidableEq

/-- Where the timer fires: in the scheduler and in user mode. -/
def System.Interruptible (s : System Cont) : Prop :=
  match s.cpu with
  | .task p => s.conts p = .user
  | .panicked _ => False
  | _ => True

/-- The last part of `sys_wait`. -/
def finishWait (s : System Cont) (p child status : ℕ) : Action × System Cont :=
  let (res, delivered, tasks) := sysWaitFinish s.tasks p child status
  (if res = 0 then .reaped p child delivered else .invalid p child,
    { s with tasks := tasks, conts := Function.update s.conts p .user })

/-- A task in user mode. -/
def System.InUser (s : System Cont) (p : ℕ) : Prop := s.cpu = .task p ∧ s.conts p = .user

inductive Step : System Cont → Action → System Cont → Prop
  | tick {s : System Cont} (hint : s.Interruptible) : Step s .tick (schedTimerTick s .user).wake
  | sched {s t : System Cont} {a : Action} (hstep : SchedStep s a t) : Step s a t
  | getpid {s : System Cont} {p : ℕ} (huser : s.InUser p) : Step s (.getpid p (s.tasks p).pid) s
  | sleep {s : System Cont} {p ms : ℕ} (huser : s.InUser p) (hms : ms < 2 ^ 64) :
      Step s (.sleep p s.timer ms) (schedSwitch { s with tasks := sysSleep s.tasks s.timer p ms } .sleep)
  | slept {s : System Cont} {p : ℕ} (hcpu : s.cpu = .task p) (hcont : s.conts p = .sleep) :
      Step s (.slept p) { s with conts := Function.update s.conts p .user }
  | fork {s : System Cont} {p child : ℕ} {vm : Vmem} {tasks : TaskTable} (huser : s.InUser p)
      (hfork : sysFork s.tasks p vm = some (child, tasks)) :
      Step s (.fork p child) { s with tasks := tasks, conts := Function.update s.conts child .user }
  | exit {s : System Cont} {p : ℕ} {code : BitVec 64} (huser : s.InUser p) :
      Step s (.exit p code) (schedSwitch { s with tasks := sysExit s.tasks p code } .exit)
  | exited {s : System Cont} {p : ℕ} (hcpu : s.cpu = .task p) (hcont : s.conts p = .exit) :
      Step s .panic { s with cpu := .panicked "reached unreachable" }
  | refused {s : System Cont} {p child : ℕ} (huser : s.InUser p) (hchild : child < 2 ^ 64)
      (hwait : sysWait s.tasks p child = .refused (-echild)) : Step s (.refused p child) s
  | blocked {s : System Cont} {p child status : ℕ} {tasks : TaskTable} (huser : s.InUser p)
      (hchild : child < 2 ^ 64) (hwait : sysWait s.tasks p child = .blocked tasks) :
      Step s (.blocked p child) (schedSwitch { s with tasks := tasks } (.wait child status))
  | ready {s : System Cont} {p child status : ℕ} (huser : s.InUser p) (hchild : child < 2 ^ 64)
      (hwait : sysWait s.tasks p child = .ready) :
      Step s (finishWait s p child status).1 (finishWait s p child status).2
  | waited {s : System Cont} {p child status : ℕ} (hcpu : s.cpu = .task p)
      (hcont : s.conts p = .wait child status) (hassert : (s.tasks child).state = .zombie) :
      Step s (finishWait s p child status).1 (finishWait s p child status).2
  | waitPanic {s : System Cont} {p child status : ℕ} (hcpu : s.cpu = .task p)
      (hcont : s.conts p = .wait child status) (hassert : (s.tasks child).state ≠ .zombie) :
      Step s .panic { s with cpu := .panicked "assertion failed: 'tasks[child_pid].state == TASK_ZOMBIE'" }

/-- Only entries of the table are waited for. -/
def Action.InRange : Action → Prop
  | .refused _ child | .blocked _ child | .invalid _ child | .reaped _ child _ => child < maxTaskCount
  | _ => True

end HeavenOS
