/-
# The scheduler with interrupts

The scheduler loop, `sched_switch_to`, `sched_switch`, the handler of the timer and the
system calls, statement by statement on one processor. The state has what they switch one by
one: `_current`, `curr_vmem`, `CR3`, the stack for interrupts in the TSS, the stack pointer
and the interrupt flag. The timer may fire between any two statements while the flag is set.
-/

import HeavenOS.Lib.Runs
import HeavenOS.Sched.Task

namespace HeavenOS

/-! ## Statements -/

/-- The loop of `sched_start`, with the values of `i` and `found`. -/
inductive Loop
  /-- `if (tasks[i].state == TASK_SLEEPING && sched_timer >= tasks[i].sleep_until)` -/
  | sleeping (i : ℕ) (found : Bool)
  /-- `tasks[i].state = TASK_RUNNABLE` -/
  | wake (i : ℕ) (found : Bool)
  /-- `if (tasks[i].state == TASK_RUNNABLE)` -/
  | runnable (i : ℕ) (found : Bool)
  /-- `found = 1`, behind `sched_switch_to(&tasks[i])` -/
  | found (i : ℕ)
  /-- `if (tasks[i].state == TASK_ZOMBIE)` -/
  | zombie (i : ℕ)
  /-- The two statements of `vmem_switch_to(&sched_vmem)`. -/
  | cr3 (i : ℕ)
  | currVmem (i : ℕ)
  | destroyVmem (i : ℕ)
  | destroyThread (i : ℕ)
  /-- `if (!found)` -/
  | passEnd (found : Bool)
  /-- `x86_hlt()` -/
  | hlt
  deriving DecidableEq

/-- The statements of `sched_switch_to(next)`. -/
inductive SwitchTo
  /-- `sched_current() = next` -/
  | current
  /-- `sched_current()->preempt_deadline = sched_timer + PREEMPT_TICKS` -/
  | deadline
  /-- The two statements of `vmem_switch_to(&next->vmem)`. -/
  | cr3
  | currVmem
  /-- `tss.rsp0 = next->kstack_top` and `context_switch` in `arch_thread_switch`. -/
  | rsp0
  | go
  | ret
  deriving DecidableEq

/-- The statements of `sched_switch`. -/
inductive Switch
  /-- `kassert(_current != NULL)` -/
  | check
  /-- `task_t* prev = sched_current()` -/
  | read
  /-- `sched_current() = NULL` -/
  | clear (prev : ℕ)
  /-- `tss.rsp0 = next->kstack_top` and `context_switch` in `arch_thread_switch`. -/
  | rsp0 (prev : ℕ)
  | go (prev : ℕ)
  | ret
  deriving DecidableEq

/-- The handler of the timer: `sched_timer_tick`, and the way back. -/
inductive Tick
  /-- `sched_timer++` -/
  | count
  /-- `if (!_current)` -/
  | test
  /-- `if (sched_current()->preempt_deadline >= sched_timer)` -/
  | deadline
  | iret
  deriving DecidableEq

/-- The statements of the system calls. -/
inductive Call
  | getpid
  /-- `sched_current()->sleep_until = sched_timer + ms / SCHED_TIMER_PERIOD` -/
  | sleepUntil (ms : ℕ)
  /-- `sched_current()->state = TASK_SLEEPING` -/
  | sleepState
  /-- Behind `sched_switch` in `sys_sleep`. -/
  | slept
  /-- `task_t* child = sched_allocate_task()` -/
  | forkChoose
  /-- `vmem_clone(&child->vmem, &sched_current()->vmem)` -/
  | forkVmem (child : ℕ)
  /-- `arch_thread_clone_current(&child->arch_thread, &child_regs)` -/
  | forkThread (child : ℕ)
  /-- `child->ppid = sched_current()->pid` -/
  | forkPpid (child : ℕ)
  /-- `child->state = TASK_RUNNABLE` -/
  | forkState (child : ℕ)
  /-- `child_regs->rax = 0` -/
  | forkRax (child : ℕ)
  /-- `sched_current()->exitcode = syscall_arg0(regs)` -/
  | exitCode (code : BitVec 64)
  /-- `sched_current()->state = TASK_ZOMBIE` -/
  | exitState
  /-- `if (parent->state == TASK_WAITING && parent->wait_pid == sched_current()->pid)` -/
  | exitTest
  /-- `parent->state = TASK_RUNNABLE` -/
  | exitWake (parent : ℕ)
  /-- Behind `sched_switch` in `sys_exit`. -/
  | exited
  /-- `if (tasks[child_pid].ppid != sched_current()->pid)` -/
  | waitChild (child status : ℕ)
  /-- `if (tasks[child_pid].state != TASK_ZOMBIE)` -/
  | waitState (child status : ℕ)
  /-- `sched_current()->state = TASK_WAITING` -/
  | waitMark (child status : ℕ)
  /-- `sched_current()->wait_pid = child_pid` -/
  | waitPid (child status : ℕ)
  /-- Behind `sched_switch` in `sys_wait`. -/
  | waited (child status : ℕ)
  /-- The test of the status pointer and `*status = tasks[child_pid].exitcode` -/
  | waitStatus (child status : ℕ)
  /-- `tasks[child_pid].state = TASK_NOT_ALLOCATED` -/
  | waitReap (child : ℕ)
  /-- The end of `syscall_entry`. -/
  | sysret
  deriving DecidableEq

/-- A call in progress, at its next statement. At the bottom of a kernel stack are the
registers of the user mode of its task. -/
inductive Frame
  | loop (next : Loop)
  | switchTo (task : ℕ) (next : SwitchTo)
  | switch (next : Switch)
  | tick (next : Tick)
  | call (next : Call)
  | user (task : ℕ)
  deriving DecidableEq

/-- A stack pointer: the stack it points into, and the calls in progress there, the innermost
first. The scheduler has the stack `0`. -/
structure StackPtr where
  stack : ℕ
  frames : List Frame

/-! ## State -/

structure Machine where
  tasks : TaskTable
  /-- `sched_timer` -/
  timer : ℕ
  /-- `_current` -/
  current : Option ℕ
  /-- `curr_vmem`: the task whose address space it is, `none` for any other address space. -/
  currVmem : Option ℕ
  /-- `CR3`: the task whose PML4 it has. -/
  cr3 : Option ℕ
  /-- `tss.rsp0`: the kernel stack that it is the top of, `none` for `NULL`. -/
  rsp0 : Option ℕ
  /-- The interrupt flag. -/
  intr : Bool
  /-- `arch_thread.kstack_top` of the tasks. -/
  kstacks : ℕ → ℕ
  /-- `arch_thread.context.rsp` of the tasks. -/
  ctx : ℕ → Option StackPtr
  /-- `sched_context.context.rsp` -/
  schedCtx : Option StackPtr
  /-- Where the scheduler was left last. -/
  lastSched : Option StackPtr
  /-- The stack pointer of the processor. After a panic there is no call in progress. -/
  stack : ℕ
  frames : List Frame
  panic : Option Panic

namespace Machine

/-- After `setup_init_task`, `vmem_init_from_current` and `irq_enable`. -/
def boot (vm : Vmem) : Machine where
  tasks := Function.update (fun _ => Task.zero) 1
    { Task.zero with pid := 1, state := .runnable, vmem := vm, vmemLive := true, kstackLive := true }
  timer := 0
  current := none
  currVmem := none
  cr3 := none
  rsp0 := none
  intr := true
  kstacks := fun i => if i = 1 then 1 else 0
  ctx := fun i => if i = 1 then some ⟨1, [.tick .iret, .user 1]⟩ else none
  schedCtx := none
  lastSched := none
  stack := 0
  frames := [.loop (.sleeping 0 false)]
  panic := none

def goto (m : Machine) (frames : List Frame) : Machine := { m with frames := frames }

def stop (m : Machine) (msg : Panic) : Machine := { m with frames := [], panic := some msg }

/-- A statement that goes through `sched_current()`. At `NULL` there is no page. -/
def withCurrent (m : Machine) (f : ℕ → Machine) : Machine :=
  match m.current with
  | none => m.stop "Unhandled IRQ"
  | some p => f p

/-- `context_switch`: the stack pointer `left` has been stored, and `sp` is loaded. -/
def load (m : Machine) (left : StackPtr) : Option StackPtr → Machine
  | none => m.stop "Unhandled IRQ"
  | some sp =>
      { m with
        stack := sp.stack
        frames := sp.frames
        lastSched := if m.stack = 0 then some left else m.lastSched }

/-! ## Statements executed -/

/-- The head of the `for` loop. -/
def loopAt (i : ℕ) (found : Bool) : Loop := if i < maxTaskCount then .sleeping i found else .passEnd found

/-- A statement of the scheduler loop; `rest` are the calls around it. -/
def execLoop (m : Machine) (rest : List Frame) : Loop → Option Machine
  | .sleeping i found =>
      if (m.tasks i).state = .sleeping ∧ (m.tasks i).sleepUntil ≤ m.timer then
        some (m.goto (.loop (.wake i found) :: rest))
      else some (m.goto (.loop (.runnable i found) :: rest))
  | .wake i found =>
      some ({ m with tasks := m.tasks.modify i fun t => { t with state := .runnable } }.goto
        (.loop (.runnable i found) :: rest))
  | .runnable i found =>
      if (m.tasks i).state = .runnable then some (m.goto (.switchTo i .current :: .loop (.found i) :: rest))
      else some (m.goto (.loop (loopAt (i + 1) found) :: rest))
  | .found i => some (m.goto (.loop (.zombie i) :: rest))
  | .zombie i =>
      if (m.tasks i).state = .zombie then some (m.goto (.loop (.cr3 i) :: rest))
      else some (m.goto (.loop (loopAt (i + 1) true) :: rest))
  | .cr3 i => some ({ m with cr3 := none }.goto (.loop (.currVmem i) :: rest))
  | .currVmem i => some ({ m with currVmem := none }.goto (.loop (.destroyVmem i) :: rest))
  | .destroyVmem i =>
      if m.currVmem = some i then some (m.stop "assertion failed: 'curr_vmem != vm'")
      else some ({ m with tasks := m.tasks.modify i fun t => { t with vmemLive := false } }.goto
        (.loop (.destroyThread i) :: rest))
  | .destroyThread i =>
      some ({ m with tasks := m.tasks.modify i fun t => { t with kstackLive := false } }.goto
        (.loop (loopAt (i + 1) true) :: rest))
  | .passEnd found =>
      if found then some (m.goto (.loop (loopAt 0 false) :: rest)) else some (m.goto (.loop .hlt :: rest))
  | .hlt => none

/-- A statement of `sched_switch_to(n)`. -/
def execSwitchTo (m : Machine) (rest : List Frame) (n : ℕ) : SwitchTo → Machine
  | .current => { m with current := some n }.goto (.switchTo n .deadline :: rest)
  | .deadline =>
      m.withCurrent fun p =>
        { m with tasks := m.tasks.modify p fun t => { t with preemptDeadline := (m.timer + preemptTicks) % 2 ^ 64 } }.goto
          (.switchTo n .cr3 :: rest)
  | .cr3 => { m with cr3 := some n }.goto (.switchTo n .currVmem :: rest)
  | .currVmem => { m with currVmem := some n }.goto (.switchTo n .rsp0 :: rest)
  | .rsp0 => { m with rsp0 := some (m.kstacks n) }.goto (.switchTo n .go :: rest)
  | .go =>
      let left : StackPtr := ⟨m.stack, .switchTo n .ret :: rest⟩
      { m with schedCtx := some left }.load left (m.ctx n)
  | .ret => m.goto rest

/-- A statement of `sched_switch`. -/
def execSwitch (m : Machine) (rest : List Frame) : Switch → Machine
  | .check =>
      if m.current = none then m.stop "assertion failed: '_current != NULL'" else m.goto (.switch .read :: rest)
  | .read => m.withCurrent fun prev => m.goto (.switch (.clear prev) :: rest)
  | .clear prev => { m with current := none }.goto (.switch (.rsp0 prev) :: rest)
  | .rsp0 prev => { m with rsp0 := none }.goto (.switch (.go prev) :: rest)
  | .go prev =>
      let left : StackPtr := ⟨m.stack, .switch .ret :: rest⟩
      { m with ctx := Function.update m.ctx prev (some left) }.load left m.schedCtx
  | .ret => m.goto rest

/-- A statement of the handler; `iretq` restores the flag that the timer has found set. -/
def execTick (m : Machine) (rest : List Frame) : Tick → Machine
  | .count => { m with timer := (m.timer + 1) % 2 ^ 64 }.goto (.tick .test :: rest)
  | .test => if m.current = none then m.goto (.tick .iret :: rest) else m.goto (.tick .deadline :: rest)
  | .deadline =>
      m.withCurrent fun p =>
        if m.timer ≤ (m.tasks p).preemptDeadline then m.goto (.switch .check :: .tick .iret :: rest)
        else m.goto (.tick .iret :: rest)
  | .iret => { m with intr := true }.goto rest

/-- A statement of a system call; what its callees return is not decided here. -/
def execCall (m : Machine) (rest : List Frame) : Call → Option Machine
  | .getpid => some (m.withCurrent fun _ => m.goto (.call .sysret :: rest))
  | .sleepUntil ms =>
      some (m.withCurrent fun p =>
        { m with tasks := m.tasks.modify p fun t =>
            { t with sleepUntil := (m.timer + ms / schedTimerPeriod) % 2 ^ 64 } }.goto (.call .sleepState :: rest))
  | .sleepState =>
      some (m.withCurrent fun p =>
        { m with tasks := m.tasks.modify p fun t => { t with state := .sleeping } }.goto
          (.switch .check :: .call .slept :: rest))
  | .slept => some (m.goto (.call .sysret :: rest))
  | .forkChoose =>
      match schedAllocateTask m.tasks with
      | none => some (m.stop "Unhandled IRQ")
      | some (child, tasks) => some ({ m with tasks := tasks }.goto (.call (.forkVmem child) :: rest))
  | .forkVmem _ => none
  | .forkThread _ => none
  | .forkPpid child =>
      some (m.withCurrent fun p =>
        { m with tasks := m.tasks.modify child fun t => { t with ppid := (m.tasks p).pid } }.goto
          (.call (.forkState child) :: rest))
  | .forkState child =>
      some ({ m with tasks := m.tasks.modify child fun t => { t with state := .runnable } }.goto
        (.call (.forkRax child) :: rest))
  | .forkRax _ => some (m.goto (.call .sysret :: rest))
  | .exitCode code =>
      some (m.withCurrent fun p =>
        { m with tasks := m.tasks.modify p fun t => { t with exitcode := code.truncate 32 } }.goto
          (.call .exitState :: rest))
  | .exitState =>
      some (m.withCurrent fun p =>
        { m with tasks := m.tasks.modify p fun t => { t with state := .zombie } }.goto (.call .exitTest :: rest))
  | .exitTest =>
      some (m.withCurrent fun p =>
        let parent := (m.tasks p).ppid
        if (m.tasks parent).state = .waiting ∧ (m.tasks parent).waitPid = (m.tasks p).pid then
          m.goto (.call (.exitWake parent) :: rest)
        else m.goto (.switch .check :: .call .exited :: rest))
  | .exitWake parent =>
      some ({ m with tasks := m.tasks.modify parent fun t => { t with state := .runnable } }.goto
        (.switch .check :: .call .exited :: rest))
  | .exited => some (m.stop "reached unreachable")
  | .waitChild c st =>
      some (m.withCurrent fun p =>
        if (m.tasks c).ppid ≠ (m.tasks p).pid then m.goto (.call .sysret :: rest)
        else m.goto (.call (.waitState c st) :: rest))
  | .waitState c st =>
      if (m.tasks c).state ≠ .zombie then some (m.goto (.call (.waitMark c st) :: rest))
      else some (m.goto (.call (.waitStatus c st) :: rest))
  | .waitMark c st =>
      some (m.withCurrent fun p =>
        { m with tasks := m.tasks.modify p fun t => { t with state := .waiting } }.goto (.call (.waitPid c st) :: rest))
  | .waitPid c st =>
      some (m.withCurrent fun p =>
        { m with tasks := m.tasks.modify p fun t => { t with waitPid := c } }.goto
          (.switch .check :: .call (.waited c st) :: rest))
  | .waited c st =>
      if (m.tasks c).state = .zombie then some (m.goto (.call (.waitStatus c st) :: rest))
      else some (m.stop "assertion failed: 'tasks[child_pid].state == TASK_ZOMBIE'")
  | .waitStatus c st =>
      some (m.withCurrent fun p =>
        if st ≠ 0 ∧ ¬ statusOk (m.tasks p).vmem st then m.goto (.call .sysret :: rest)
        else m.goto (.call (.waitReap c) :: rest))
  | .waitReap c =>
      some ({ m with tasks := m.tasks.modify c fun t => { t with state := .notAllocated } }.goto
        (.call .sysret :: rest))
  | .sysret => some ({ m with intr := true }.goto rest)

/-- The next statement of the innermost call. -/
def exec (m : Machine) : Option Machine :=
  match m.frames with
  | [] => none
  | .loop next :: rest => m.execLoop rest next
  | .switchTo n next :: rest => some (m.execSwitchTo rest n next)
  | .switch next :: rest => some (m.execSwitch rest next)
  | .tick next :: rest => some (m.execTick rest next)
  | .call next :: rest => m.execCall rest next
  | .user _ :: _ => none

/-- The timer fires. In user mode the processor takes the stack of the TSS; behind `x86_hlt`
the next pass begins. -/
def interrupt (m : Machine) : Machine :=
  match m.frames with
  | .user p :: rest =>
      match m.rsp0 with
      | none => m.stop "Unhandled IRQ"
      | some stack => { m with intr := false, stack := stack, frames := .tick .count :: .user p :: rest }
  | .loop .hlt :: rest => { m with intr := false, frames := .tick .count :: .loop (loopAt 0 false) :: rest }
  | frames => { m with intr := false, frames := .tick .count :: frames }

end Machine

/-- The first statement of a system call. -/
def Call.IsFirst : Call → Prop
  | .getpid | .sleepUntil _ | .forkChoose | .exitCode _ | .waitChild _ _ => True
  | _ => False

inductive MachineLabel
  | tick
  | enter
  | stmt
  deriving DecidableEq

/-- Interrupts, entries into system calls, and statements. `syscall_entry` takes the stack of
`_current` and sets the interrupt flag behind the last statement that needs it clear. -/
inductive MachineStep : Machine → MachineLabel → Machine → Prop
  | tick {m : Machine} (hruns : m.frames ≠ []) (hintr : m.intr = true) : MachineStep m .tick m.interrupt
  | enter {m : Machine} {p : ℕ} {rest : List Frame} {call : Call} (huser : m.frames = .user p :: rest)
      (hcall : call.IsFirst) :
      MachineStep m .enter (m.withCurrent fun q =>
        { m with intr := true, stack := m.kstacks q, frames := .call call :: .user p :: rest })
  | cloneVmem {m : Machine} {child : ℕ} {vm : Vmem} {rest : List Frame}
      (hat : m.frames = .call (.forkVmem child) :: rest) :
      MachineStep m .stmt ({ m with tasks := m.tasks.modify child fun t => { t with vmem := vm, vmemLive := true } }.goto
        (.call (.forkThread child) :: rest))
  | cloneThread {m : Machine} {child stack : ℕ} {rest : List Frame}
      (hat : m.frames = .call (.forkThread child) :: rest)
      (hnew : stack ≠ 0 ∧ ∀ i, (m.tasks i).kstackLive → m.kstacks i ≠ stack) :
      MachineStep m .stmt
        ({ m with
            tasks := m.tasks.modify child fun t => { t with kstackLive := true }
            kstacks := Function.update m.kstacks child stack
            ctx := Function.update m.ctx child (some ⟨stack, [.tick .iret, .user child]⟩) }.goto
          (.call (.forkPpid child) :: rest))
  | cloneFails {m : Machine} {call : Call} {rest : List Frame} (hat : m.frames = .call call :: rest)
      (hcall : ∃ child, call = .forkVmem child ∨ call = .forkThread child) :
      MachineStep m .stmt (m.goto (.call .sysret :: rest))
  | stmt {m m' : Machine} (hexec : m.exec = some m') : MachineStep m .stmt m'

end HeavenOS
