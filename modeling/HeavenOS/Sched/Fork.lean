/-
# Forking under preemption

`sys_fork` statement by statement, with the timer and the calls of other tasks between
any two statements. The entry of the child is chosen long before it is marked, and the
child can be run before its return value is written. Where neither window is hit, every
child has an entry, an address space and a kernel stack of its own and returns `0`.
-/

import HeavenOS.Sched.System

namespace HeavenOS

open Lib

/-! ## Statements -/

/-- `SYS_FORK` -/
def sysForkNumber : ℕ := 1

/-- The statements of `sys_fork` behind the choice of an entry. -/
inductive ForkStmt
  /-- `vmem_clone(&child->vmem, &sched_current()->vmem)` -/
  | cloneVmem
  /-- `arch_thread_clone_current(&child->arch_thread, &child_regs)` -/
  | cloneThread
  /-- `child->ppid = sched_current()->pid` -/
  | setPpid
  /-- `child->state = TASK_RUNNABLE` -/
  | setState
  /-- `child_regs->rax = 0` -/
  | setRax
  /-- `return child->pid` -/
  | ret
  deriving DecidableEq

/-- The next statement of a task. -/
inductive ForkPc
  | user
  /-- `pop_and_iret`, where a new task begins. -/
  | entry
  /-- Behind `sched_switch` in `sys_sleep`, `sys_wait` and `sys_exit`. -/
  | slept
  | waited (child status : ℕ)
  | exited
  /-- `task_t* child = sched_allocate_task()` -/
  | choose
  /-- Inside `sys_fork`: the entry chosen, the address space that was cloned, and the kernel
  stack that `child_regs` points into. -/
  | fork (next : ForkStmt) (child vmem regs : ℕ)
  deriving DecidableEq

/-- Address spaces and kernel stacks are named by the number of the allocation that made
them. -/
structure ForkSystem extends System ForkPc where
  /-- `arch_thread.kstack_top` of the entries, `0` for `NULL`. -/
  kstacks : ℕ → ℕ
  /-- `rax` in the `arch_regs_t` at the top of a kernel stack. -/
  rax : ℕ → ℕ
  fresh : ℕ

def ForkSystem.boot (vm : Vmem) : ForkSystem where
  toSystem := System.boot vm .entry
  kstacks := fun i => if i = 1 then 1 else 0
  rax := fun _ => 0
  fresh := 2

namespace ForkSystem

/-- The task on the processor is about to execute `k`. -/
def At (s : ForkSystem) (p : ℕ) (k : ForkPc) : Prop := s.cpu = .task p ∧ s.conts p = k

def goto (s : ForkSystem) (p : ℕ) (k : ForkPc) (tasks : TaskTable) : ForkSystem :=
  { s with tasks := tasks, conts := Function.update s.conts p k }

@[simp]
theorem goto_tasks (s : ForkSystem) (p : ℕ) (k : ForkPc) (tasks : TaskTable) : (s.goto p k tasks).tasks = tasks := rfl

/-- `sched_switch`, called with this table. -/
def switch (s : ForkSystem) (k : ForkPc) (tasks : TaskTable) : ForkSystem :=
  { s with toSystem := schedSwitch { s.toSystem with tasks := tasks } k }

end ForkSystem

/-- What a successful call has made. -/
structure Forked where
  child : ℕ
  /-- The value returned. -/
  pid : ℕ
  vmem : ℕ
  kstack : ℕ

inductive ForkLabel
  | tick
  | sched (a : Action)
  | stmt
  | choose
  /-- A new task enters user mode. -/
  | enter (i rax : ℕ)
  | forked (f : Forked)
  | reaped (child : ℕ)

/-- The last part of `sys_wait`. -/
def ForkSystem.finishWait (s : ForkSystem) (p child status : ℕ) : ForkLabel × ForkSystem :=
  let (res, _, tasks) := sysWaitFinish s.tasks p child status
  (if res = 0 then .reaped child else .stmt, s.goto p .user tasks)

/-- `sys_fork` is executed statement by statement, the other calls in one step up to
`sched_switch`. Only `sys_fork` reads the frame of its caller, so only its entry writes it. -/
inductive ForkStep : ForkSystem → ForkLabel → ForkSystem → Prop
  | tick {s : ForkSystem} (hsafe : ∀ msg, s.cpu ≠ .panicked msg) :
      ForkStep s .tick { s with toSystem := tickAt s.toSystem }
  | sched {s : ForkSystem} {t : System ForkPc} {a : Action} (hstep : SchedStep s.toSystem a t) :
      ForkStep s (.sched a) { s with toSystem := t }
  | enter {s : ForkSystem} {p : ℕ} (hat : s.At p .entry) :
      ForkStep s (.enter p (s.rax (s.kstacks p))) (s.goto p .user s.tasks)
  | call {s : ForkSystem} {p : ℕ} (hat : s.At p .user) :
      ForkStep s .stmt
        { s.goto p .choose s.tasks with rax := Function.update s.rax (s.kstacks p) sysForkNumber }
  | choose {s : ForkSystem} {p child : ℕ} {tasks : TaskTable} (hat : s.At p .choose)
      (hfound : schedAllocateTask s.tasks = some (child, tasks)) :
      ForkStep s .choose (s.goto p (.fork .cloneVmem child 0 0) tasks)
  | cloneVmem {s : ForkSystem} {p child v r : ℕ} (hat : s.At p (.fork .cloneVmem child v r)) :
      ForkStep s .stmt
        { s.goto p (.fork .cloneThread child s.fresh r) (s.tasks.modify child fun t =>
            { t with vmem := ⟨(s.tasks p).vmem.areas, s.fresh⟩, vmemLive := true }) with
          fresh := s.fresh + 1 }
  | cloneThread {s : ForkSystem} {p child v r : ℕ} (hat : s.At p (.fork .cloneThread child v r)) :
      ForkStep s .stmt
        { s with
          tasks := s.tasks.modify child fun t => { t with kstackLive := true }
          conts := Function.update (Function.update s.conts child .entry) p (.fork .setPpid child v s.fresh)
          kstacks := Function.update s.kstacks child s.fresh
          rax := Function.update s.rax s.fresh (s.rax (s.kstacks p))
          fresh := s.fresh + 1 }
  | cloneFails {s : ForkSystem} {p child v r : ℕ} {next : ForkStmt} (hat : s.At p (.fork next child v r))
      (hnext : next = .cloneVmem ∨ next = .cloneThread) : ForkStep s .stmt (s.goto p .user s.tasks)
  | setPpid {s : ForkSystem} {p child v r : ℕ} (hat : s.At p (.fork .setPpid child v r)) :
      ForkStep s .stmt (s.goto p (.fork .setState child v r)
        (s.tasks.modify child fun t => { t with ppid := (s.tasks p).pid }))
  | setState {s : ForkSystem} {p child v r : ℕ} (hat : s.At p (.fork .setState child v r)) :
      ForkStep s .stmt (s.goto p (.fork .setRax child v r)
        (s.tasks.modify child fun t => { t with state := .runnable }))
  | setRax {s : ForkSystem} {p child v r : ℕ} (hat : s.At p (.fork .setRax child v r)) :
      ForkStep s .stmt { s.goto p (.fork .ret child v r) s.tasks with rax := Function.update s.rax r 0 }
  | ret {s : ForkSystem} {p child v r : ℕ} (hat : s.At p (.fork .ret child v r)) :
      ForkStep s (.forked ⟨child, (s.tasks child).pid, v, r⟩) (s.goto p .user s.tasks)
  | sleep {s : ForkSystem} {p ms : ℕ} (hat : s.At p .user) :
      ForkStep s .stmt (s.switch .slept (sysSleep s.tasks s.timer p ms))
  | slept {s : ForkSystem} {p : ℕ} (hat : s.At p .slept) : ForkStep s .stmt (s.goto p .user s.tasks)
  | exit {s : ForkSystem} {p : ℕ} {code : BitVec 64} (hat : s.At p .user) :
      ForkStep s .stmt (s.switch .exited (sysExit s.tasks p code))
  | exited {s : ForkSystem} {p : ℕ} (hat : s.At p .exited) :
      ForkStep s .stmt { s with cpu := .panicked "reached unreachable" }
  | refused {s : ForkSystem} {p child : ℕ} (hat : s.At p .user) (hchild : child < maxTaskCount)
      (hwait : sysWait s.tasks p child = .refused (-echild)) : ForkStep s .stmt s
  | blocked {s : ForkSystem} {p child status : ℕ} {tasks : TaskTable} (hat : s.At p .user)
      (hchild : child < maxTaskCount) (hwait : sysWait s.tasks p child = .blocked tasks) :
      ForkStep s .stmt (s.switch (.waited child status) tasks)
  | ready {s : ForkSystem} {p child status : ℕ} (hat : s.At p .user) (hchild : child < maxTaskCount)
      (hwait : sysWait s.tasks p child = .ready) :
      ForkStep s (s.finishWait p child status).1 (s.finishWait p child status).2
  | waited {s : ForkSystem} {p child status : ℕ} (hat : s.At p (.waited child status))
      (hassert : (s.tasks child).state = .zombie) :
      ForkStep s (s.finishWait p child status).1 (s.finishWait p child status).2
  | waitPanic {s : ForkSystem} {p child status : ℕ} (hat : s.At p (.waited child status))
      (hassert : (s.tasks child).state ≠ .zombie) :
      ForkStep s .stmt
        { s with cpu := .panicked "assertion failed: 'tasks[child_pid].state == TASK_ZOMBIE'" }

/-- What a step makes of the calls whose children have not been reaped. -/
def Forked.after (live : List Forked) : ForkLabel → List Forked
  | .forked f => f :: live
  | .reaped child => live.filter fun f => f.child ≠ child
  | _ => live

/-- The successful calls whose children have not been reaped. -/
def unreaped (labels : List ForkLabel) : List Forked := labels.foldl Forked.after []

/-! ## Where a switch does harm -/

namespace ForkStmt

/-- The order of the statements. -/
def rank : ForkStmt → ℕ
  | cloneVmem => 0
  | cloneThread => 1
  | setPpid => 2
  | setState => 3
  | setRax => 4
  | ret => 5

end ForkStmt

/-- No entry is chosen that another call has chosen and not yet marked, and no child is run
whose return value has not been written. -/
def CalmFork (s : ForkSystem) (l : ForkLabel) (t : ForkSystem) : Prop :=
  ForkStep s l t ∧
    (l = .choose → ∀ q n v r, n.rank < 4 →
      s.conts q ≠ .fork n (scanTasks s.tasks (maxTaskCount - 1) 1) v r) ∧
    ∀ i timer, l = .sched (.run i timer) → ∀ q v r, s.conts q ≠ .fork .setRax i v r

/-! ## The invariant -/

/-- A call in progress and the entry of its child. -/
structure InFork (live : List Forked) (s : ForkSystem) (q : ℕ) (n : ForkStmt) (c v r : ℕ) : Prop where
  caller : (s.tasks q).state = .runnable
  pid : (s.tasks c).pid = c
  marked : (s.tasks c).state = .notAllocated ↔ n.rank < 4
  vmem : 1 ≤ n.rank → (s.tasks c).vmem.pml4 = v
  kstack : 2 ≤ n.rank → s.kstacks c = r ∧ r ≠ 0
  ppid : 3 ≤ n.rank → (s.tasks c).ppid = q
  entry : 2 ≤ n.rank → n.rank < 5 → s.conts c = .entry
  /-- The child has not been run. -/
  off : n.rank < 5 → s.cpu ≠ .task c
  isNew : ∀ f ∈ live, f.child ≠ c

structure ForkInv (live : List Forked) (s : ForkSystem) : Prop where
  onCpu : ∀ {p}, s.cpu = .task p → s.schedIndex = p ∧ s.current = some p ∧ (s.tasks p).state = .runnable
  inSched : (∀ p, s.cpu ≠ .task p) → (∀ msg, s.cpu ≠ .panicked msg) → s.current = none
  pid : ∀ {i}, (s.tasks i).state ≠ .notAllocated → (s.tasks i).pid = i ∧ s.kstacks i ≠ 0
  apart : ∀ {i j}, s.kstacks i = s.kstacks j → s.kstacks i ≠ 0 → i = j
  bound : ∀ i, s.kstacks i < s.fresh
  held : ∀ {q n c v r}, s.conts q = .fork n c v r → InFork live s q n c v r
  one : ∀ {q q' n n' c v v' r r'}, s.conts q = .fork n c v r → s.conts q' = .fork n' c v' r' → q = q'
  waits : ∀ {q}, (s.tasks q).state = .waiting → ∃ c st, s.conts q = .waited c st
  waited : ∀ {q c st}, s.conts q = .waited c st →
    (s.tasks q).state = .waiting ∧ (s.tasks q).waitPid = c ∨
      (s.tasks q).state = .runnable ∧ (s.tasks c).state = .zombie ∧ (s.tasks c).ppid = q
  /-- A child that has not entered user mode will return `0`. -/
  entry : ∀ {i}, s.conts i = .entry → (s.tasks i).state ≠ .notAllocated →
    s.rax (s.kstacks i) = 0 ∨ ∃ q v r, s.conts q = .fork .setRax i v r
  own : ∀ f ∈ live, (s.tasks f.child).state ≠ .notAllocated ∧ f.pid = f.child ∧
    (s.tasks f.child).vmem.pml4 = f.vmem ∧ s.kstacks f.child = f.kstack
  distinct : live.Pairwise fun f g => f.child ≠ g.child

theorem ForkInv.boot (vm : Vmem) : ForkInv [] (ForkSystem.boot vm) := by
  have htask (i : ℕ) : (ForkSystem.boot vm).tasks i =
      if i = 1 then { Task.zero with pid := 1, state := .runnable, vmem := vm, vmemLive := true,
                                     kstackLive := true } else Task.zero := by
    simp only [ForkSystem.boot, System.boot, Function.update_apply]
  have hstack (i : ℕ) : (ForkSystem.boot vm).kstacks i = if i = 1 then 1 else 0 := rfl
  refine ⟨fun hq => (by cases hq), fun _ _ => rfl, fun {i} hi => ?_, fun {i j} heq hne => ?_, fun i => ?_,
    fun hq => (by cases hq), fun hq => (by cases hq), fun {i} hi => ?_, fun hq => (by cases hq),
    fun _ _ => Or.inl rfl, fun f hf => (by cases hf), List.Pairwise.nil⟩
  · rw [htask] at hi ⊢
    split_ifs at hi ⊢ with h1
    · subst h1
      exact ⟨rfl, Nat.one_ne_zero⟩
    · exact absurd rfl hi
  · rw [hstack] at heq hne
    rw [hstack] at heq
    split_ifs at heq hne with hi hj
    · rw [hi, hj]
    · exact absurd rfl hne
  · rw [hstack]
    show _ < 2
    split_ifs <;> decide
  · rw [htask] at hi
    split_ifs at hi
    cases hi

/-- The entry of a child is as it was before. -/
theorem InFork.frame {live live' : List Forked} {s s' : ForkSystem} {q : ℕ} {n : ForkStmt} {c v r : ℕ}
    (h : InFork live s q n c v r) (hcaller : (s'.tasks q).state = .runnable)
    (hpid : (s'.tasks c).pid = (s.tasks c).pid)
    (hmarked : (s'.tasks c).state = .notAllocated ↔ (s.tasks c).state = .notAllocated)
    (hvmem : (s'.tasks c).vmem.pml4 = (s.tasks c).vmem.pml4) (hkstack : s'.kstacks c = s.kstacks c)
    (hppid : (s'.tasks c).ppid = (s.tasks c).ppid)
    (hentry : n.rank < 5 → s'.conts c = s.conts c ∧ s'.cpu ≠ .task c) (hnew : ∀ f ∈ live', f.child ≠ c) :
    InFork live' s' q n c v r where
  caller := hcaller
  pid := hpid.trans h.pid
  marked := hmarked.trans h.marked
  vmem hn := hvmem.trans (h.vmem hn)
  kstack hn := ⟨hkstack.trans (h.kstack hn).1, (h.kstack hn).2⟩
  ppid hn := hppid.trans (h.ppid hn)
  entry hn hn' := (hentry hn').1.trans (h.entry hn hn')
  off hn := (hentry hn).2
  isNew := hnew

/-! ## Steps of the task on the processor -/

/-- What a step of the task `p` on the processor may do; `D` is the entry that it forks into
or that it reaps, if any. -/
structure Moves (live live' : List Forked) (s s' : ForkSystem) (p : ℕ) (D : ℕ → Prop) : Prop where
  cpu : s'.cpu = .task p ∧ s'.current = some p ∧ (s'.tasks p).state = .runnable ∨
    (∀ q, s'.cpu ≠ .task q) ∧ ((∀ msg, s'.cpu ≠ .panicked msg) → s'.current = none)
  index : s'.schedIndex = s.schedIndex
  ids : ∀ i, ¬D i → (s'.tasks i).pid = (s.tasks i).pid ∧ (s'.tasks i).ppid = (s.tasks i).ppid ∧
    (s'.tasks i).vmem.pml4 = (s.tasks i).vmem.pml4 ∧ s'.kstacks i = s.kstacks i ∧
    ((s'.tasks i).state = .notAllocated ↔ (s.tasks i).state = .notAllocated)
  conts : ∀ i, i ≠ p → ¬D i → s'.conts i = s.conts i
  /-- The state of another task changes only when it is woken by its child. -/
  states : ∀ i, i ≠ p → ¬D i → (s'.tasks i).waitPid = (s.tasks i).waitPid ∧
    ((s'.tasks i).state = (s.tasks i).state ∨
      (s.tasks i).state = .waiting ∧ (s'.tasks i).state = .runnable ∧ (s'.tasks p).state = .zombie ∧
        (s'.tasks p).ppid = i ∧ (s.tasks i).waitPid = p)
  rax : ∀ i, i ≠ p → ¬D i → (s.tasks i).state ≠ .notAllocated → s'.rax (s.kstacks i) = s.rax (s.kstacks i)
  fresh : s.fresh ≤ s'.fresh
  notSelf : ¬D p
  others : ∀ {q n c v r}, q ≠ p → s.conts q = .fork n c v r → ¬D c
  mine : ∀ {c v r}, s.conts p = .fork .setRax c v r → D c
  changed : ∀ i, D i →
    (∀ n c v r, s.conts i ≠ .fork n c v r ∧ s'.conts i ≠ .fork n c v r) ∧ (∀ c st, s'.conts i ≠ .waited c st) ∧
    ((s.tasks i).state = .zombie → (s.tasks i).ppid = p) ∧ (s'.tasks i).state ≠ .waiting ∧
    ((s'.tasks i).state ≠ .notAllocated → (s'.tasks i).pid = i ∧ s'.kstacks i ≠ 0) ∧
    (s'.kstacks i = s.kstacks i ∨ s'.kstacks i = s.fresh ∧ s.fresh < s'.fresh ∧ ∀ j, D j → j = i) ∧
    (s'.conts i = .entry → (s'.tasks i).state ≠ .notAllocated →
      s'.rax (s'.kstacks i) = 0 ∨ ∃ q v r, s'.conts q = .fork .setRax i v r)
  held : ∀ {n c v r}, s'.conts p = .fork n c v r → D c ∧ InFork live' s' p n c v r
  notEntry : s'.conts p ≠ .entry
  waits : (s'.tasks p).state = .waiting → ∃ c st, s'.conts p = .waited c st
  waited : ∀ {c st}, s'.conts p = .waited c st → (s'.tasks p).state = .waiting ∧ (s'.tasks p).waitPid = c
  own : ∀ f ∈ live', f ∈ live ∧ ¬D f.child ∨
    ((s'.tasks f.child).state ≠ .notAllocated ∧ f.pid = f.child ∧ (s'.tasks f.child).vmem.pml4 = f.vmem ∧
      s'.kstacks f.child = f.kstack) ∧ ∀ {q n c v r}, q ≠ p → s.conts q = .fork n c v r → f.child ≠ c
  distinct : live'.Pairwise fun f g => f.child ≠ g.child

theorem ForkInv.move {live live' : List Forked} {s s' : ForkSystem} {p : ℕ} {D : ℕ → Prop}
    (h : ForkInv live s) (hcpu : s.cpu = .task p) (hm : Moves live live' s s' p D) : ForkInv live' s' := by
  obtain ⟨hindex, hcurrent, hrunnable⟩ := h.onCpu hcpu
  -- a task inside `sys_fork` is not the entry that changes, and stays runnable
  have hforker {q n c v r} (hqp : q ≠ p) (hq : s.conts q = .fork n c v r) :
      ¬D q ∧ (s'.tasks q).state = .runnable := by
    have hD : ¬D q := fun hD => ((hm.changed q hD).1 n c v r).1 hq
    refine ⟨hD, ?_⟩
    rcases (hm.states q hqp hD).2 with hst | ⟨-, hst, -⟩
    · rw [hst]
      exact (h.held hq).caller
    · exact hst
  have hsame {q n c v r} (hqp : q ≠ p) (hq : s'.conts q = .fork n c v r) : s.conts q = .fork n c v r := by
    rwa [hm.conts q hqp fun hD => ((hm.changed q hD).1 n c v r).2 hq] at hq
  have hstacks (i : ℕ) : s'.kstacks i = s.kstacks i ∨ s'.kstacks i = s.fresh ∧ s.fresh < s'.fresh ∧
      ∀ j, j ≠ i → s'.kstacks j = s.kstacks j := by
    by_cases hD : D i
    · refine (hm.changed i hD).2.2.2.2.2.1.imp_right fun ⟨hnew, hlt, hone⟩ => ⟨hnew, hlt, fun j hj => ?_⟩
      exact (hm.ids j fun hDj => hj (hone j hDj)).2.2.2.1
    · exact Or.inl (hm.ids i hD).2.2.2.1
  refine ⟨fun {q} hq => ?_, fun hno hsafe => ?_, fun {i} hi => ?_, fun {i j} heq hne => ?_, fun i => ?_,
    fun {q n c v r} hq => ?_, fun {q q' n n' c v v' r r'} hq hq' => ?_, fun {q} hq => ?_, fun {q c st} hq => ?_,
    fun {i} hi halloc => ?_, fun f hf => ?_, hm.distinct⟩
  · rcases hm.cpu with ⟨hcpu', hcur', hst'⟩ | ⟨hno, -⟩
    · obtain rfl : p = q := Cpu.task.inj (hcpu'.symm.trans hq)
      exact ⟨hm.index.trans hindex, hcur', hst'⟩
    · exact absurd hq (hno q)
  · rcases hm.cpu with ⟨hcpu', -⟩ | ⟨-, hcur⟩
    · exact absurd hcpu' (hno p)
    · exact hcur hsafe
  · by_cases hD : D i
    · exact (hm.changed i hD).2.2.2.2.1 hi
    · obtain ⟨hpid, -, -, hst, hna⟩ := hm.ids i hD
      rw [hpid, hst]
      exact h.pid fun heq => hi (hna.mpr heq)
  · rcases hstacks i with hi | ⟨hi, -, hoth⟩
    · rcases hstacks j with hj | ⟨hj, -, -⟩
      · rw [hi, hj] at heq
        exact h.apart heq (hi ▸ hne)
      · have hlt := h.bound i
        rw [← hi, heq, hj] at hlt
        exact absurd hlt (lt_irrefl _)
    · by_contra hij
      have hlt := h.bound j
      rw [← hoth j (Ne.symm hij), ← heq, hi] at hlt
      exact absurd hlt (lt_irrefl _)
  · rcases hstacks i with hi | ⟨hi, hlt, -⟩
    · rw [hi]
      exact lt_of_lt_of_le (h.bound i) hm.fresh
    · rwa [hi]
  · by_cases hqp : q = p
    · subst hqp
      exact (hm.held hq).2
    · have hq0 := hsame hqp hq
      have hin := h.held hq0
      have hD := hm.others hqp hq0
      obtain ⟨hpid, hppid, hvmem, hkstack, hna⟩ := hm.ids c hD
      refine hin.frame (hforker hqp hq0).2 hpid hna hvmem hkstack hppid (fun hn => ⟨?_, ?_⟩) fun f hf => ?_
      · exact hm.conts c (fun hcp => hin.off hn (hcp ▸ hcpu)) hD
      · rcases hm.cpu with ⟨hcpu', -⟩ | ⟨hno, -⟩
        · rw [hcpu', ← hcpu]
          exact hin.off hn
        · exact hno c
      · rcases hm.own f hf with ⟨hold, -⟩ | ⟨-, hnew⟩
        · exact hin.isNew f hold
        · exact hnew hqp hq0
  · by_cases hqp : q = p
    · by_cases hqp' : q' = p
      · rw [hqp, hqp']
      · subst hqp
        exact absurd (hm.held hq).1 (hm.others hqp' (hsame hqp' hq'))
    · by_cases hqp' : q' = p
      · subst hqp'
        exact absurd (hm.held hq').1 (hm.others hqp (hsame hqp hq))
      · exact h.one (hsame hqp hq) (hsame hqp' hq')
  · by_cases hqp : q = p
    · subst hqp
      exact hm.waits hq
    · have hD : ¬D q := fun hD => (hm.changed q hD).2.2.2.1 hq
      rw [hm.conts q hqp hD]
      rcases (hm.states q hqp hD).2 with hst | ⟨-, hst, -⟩
      · exact h.waits (hst.symm.trans hq)
      · rw [hst] at hq
        cases hq
  · by_cases hqp : q = p
    · subst hqp
      exact Or.inl (hm.waited hq)
    · have hD : ¬D q := fun hD => (hm.changed q hD).2.1 c st hq
      rw [hm.conts q hqp hD] at hq
      obtain ⟨hwp, hst⟩ := hm.states q hqp hD
      rcases h.waited hq with ⟨hw, hpid⟩ | ⟨hr, hz, hppid⟩
      · rcases hst with hst | ⟨-, hst, hzp, hpp, hpid'⟩
        · exact Or.inl ⟨hst.trans hw, hwp.trans hpid⟩
        · obtain rfl : p = c := hpid'.symm.trans hpid
          exact Or.inr ⟨hst, hzp, hpp⟩
      · have hcD : ¬D c := fun hcD => hqp (hppid.symm.trans ((hm.changed c hcD).2.2.1 hz))
        have hcp : c ≠ p := by
          rintro rfl
          rw [hrunnable] at hz
          cases hz
        have hz' : (s'.tasks c).state = .zombie := by
          rcases (hm.states c hcp hcD).2 with hc | ⟨hc, -⟩
          · exact hc.trans hz
          · rw [hz] at hc
            cases hc
        refine Or.inr ⟨?_, hz', (hm.ids c hcD).2.1.trans hppid⟩
        rcases hst with hst | ⟨hst, -⟩
        · exact hst.trans hr
        · rw [hr] at hst
          cases hst
  · by_cases hip : i = p
    · subst hip
      exact absurd hi hm.notEntry
    · by_cases hD : D i
      · exact (hm.changed i hD).2.2.2.2.2.2 hi halloc
      · obtain ⟨-, -, -, hkstack, hna⟩ := hm.ids i hD
        have halloc' : (s.tasks i).state ≠ .notAllocated := fun heq => halloc (hna.mpr heq)
        rw [hm.conts i hip hD] at hi
        rw [hkstack, hm.rax i hip hD halloc']
        refine (h.entry hi halloc').imp_right ?_
        rintro ⟨q, v, r, hq⟩
        have hqp : q ≠ p := by
          rintro rfl
          exact hD (hm.mine hq)
        exact ⟨q, v, r, (hm.conts q hqp (hforker hqp hq).1).trans hq⟩
  · rcases hm.own f hf with ⟨hold, hD⟩ | ⟨hnew, -⟩
    · obtain ⟨hst, hpid, hvmem, hkstack⟩ := h.own f hold
      obtain ⟨-, -, hvmem', hkstack', hna⟩ := hm.ids f.child hD
      exact ⟨fun heq => hst (hna.mp heq), hpid, hvmem'.trans hvmem, hkstack'.trans hkstack⟩
    · exact hnew

section Task

variable {live : List Forked} {s : ForkSystem} {p : ℕ} (h : ForkInv live s) (hcpu : s.cpu = .task p)

include h hcpu

/-- A step outside of `sys_fork`, or out of it, that frees no entry. -/
theorem ForkInv.go (live' : List Forked) (k : ForkPc) (tasks : TaskTable) (rax : ℕ → ℕ) (current : Option ℕ) (cpu : Cpu)
    (hpc : ∀ c v r, s.conts p ≠ .fork .setRax c v r) (hk : (∀ n c v r, k ≠ .fork n c v r) ∧ k ≠ .entry)
    (hcpu' : cpu = .task p ∧ current = some p ∧ (tasks p).state = .runnable ∨
      (∀ q, cpu ≠ .task q) ∧ ((∀ msg, cpu ≠ .panicked msg) → current = none))
    (hids : ∀ i, (tasks i).pid = (s.tasks i).pid ∧ (tasks i).ppid = (s.tasks i).ppid ∧
      (tasks i).vmem.pml4 = (s.tasks i).vmem.pml4 ∧
      ((tasks i).state = .notAllocated ↔ (s.tasks i).state = .notAllocated))
    (hstates : ∀ i, i ≠ p → (tasks i).waitPid = (s.tasks i).waitPid ∧ ((tasks i).state = (s.tasks i).state ∨
      (s.tasks i).state = .waiting ∧ (tasks i).state = .runnable ∧ (tasks p).state = .zombie ∧
        (tasks p).ppid = i ∧ (s.tasks i).waitPid = p))
    (hrax : ∀ i, i ≠ p → (s.tasks i).state ≠ .notAllocated → rax (s.kstacks i) = s.rax (s.kstacks i))
    (hwaits : (tasks p).state = .waiting → ∃ c st, k = .waited c st)
    (hwaited : ∀ {c st}, k = .waited c st → (tasks p).state = .waiting ∧ (tasks p).waitPid = c)
    (hown : ∀ f ∈ live', f ∈ live ∨
      ((s.tasks f.child).state ≠ .notAllocated ∧ f.pid = f.child ∧ (s.tasks f.child).vmem.pml4 = f.vmem ∧
        s.kstacks f.child = f.kstack) ∧ ∀ {q n c v r}, q ≠ p → s.conts q = .fork n c v r → f.child ≠ c)
    (hdistinct : live'.Pairwise fun f g => f.child ≠ g.child) :
    ForkInv live' { s with tasks := tasks, conts := Function.update s.conts p k, rax := rax,
                           current := current, cpu := cpu } := by
  have hat : Function.update s.conts p k p = k := Function.update_self _ _ _
  refine h.move hcpu (D := fun _ => False) ⟨hcpu', rfl, fun i _ => ?_, fun i hip _ => Function.update_of_ne hip _ _,
    fun i hip _ => hstates i hip, fun i hip _ => hrax i hip, le_refl _, id, fun _ _ => id,
    fun hq => absurd hq (hpc _ _ _), fun i hD => hD.elim, fun hq => ?_, ?_, fun hw => ?_, fun hq => ?_,
    fun f hf => ?_, hdistinct⟩
  · obtain ⟨hpid, hppid, hvmem, hna⟩ := hids i
    exact ⟨hpid, hppid, hvmem, rfl, hna⟩
  · simp only [hat] at hq
    exact absurd hq (hk.1 _ _ _ _)
  · simp only [hat]
    exact hk.2
  · simp only [hat]
    exact hwaits hw
  · simp only [hat] at hq
    exact hwaited hq
  · refine (hown f hf).imp (fun hold => ⟨hold, id⟩) fun ⟨⟨hst, hpid, hvmem, hkstack⟩, hnew⟩ => ⟨?_, hnew⟩
    obtain ⟨-, -, hvmem', hna⟩ := hids f.child
    exact ⟨fun heq => hst (hna.mp heq), hpid, hvmem'.trans hvmem, hkstack⟩

/-- A step that changes nothing but where the task goes on. -/
theorem ForkInv.goUser (k : ForkPc) (hpc : ∀ c v r, s.conts p ≠ .fork .setRax c v r)
    (hk : k = .user ∨ k = .choose) (rax : ℕ → ℕ)
    (hrax : ∀ i, i ≠ p → (s.tasks i).state ≠ .notAllocated → rax (s.kstacks i) = s.rax (s.kstacks i)) :
    ForkInv live { s.goto p k s.tasks with rax := rax } := by
  obtain ⟨-, hcur, hrun⟩ := h.onCpu hcpu
  refine h.go hcpu live k s.tasks rax s.current s.cpu hpc ?_ (Or.inl ⟨hcpu, hcur, hrun⟩)
    (fun _ => ⟨rfl, rfl, rfl, Iff.rfl⟩) (fun _ _ => ⟨rfl, Or.inl rfl⟩) hrax (fun hw => ?_) (fun hw => ?_)
    (fun f hf => Or.inl hf) h.distinct
  · rcases hk with rfl | rfl <;> simp
  · rw [hrun] at hw
    cases hw
  · rcases hk with rfl | rfl <;> cases hw

/-- A step of `sys_fork` on the entry of the child. -/
theorem ForkInv.onChild {s' : ForkSystem} {c : ℕ} (hne : c ≠ p)
    (hcpu' : s'.cpu = s.cpu ∧ s'.current = s.current ∧ s'.schedIndex = s.schedIndex)
    (htasks : ∀ i, i ≠ c → s'.tasks i = s.tasks i) (hkstacks : ∀ i, i ≠ c → s'.kstacks i = s.kstacks i)
    (hconts : ∀ i, i ≠ p → i ≠ c → s'.conts i = s.conts i)
    (hrax : ∀ i, i ≠ c → (s.tasks i).state ≠ .notAllocated → s'.rax (s.kstacks i) = s.rax (s.kstacks i))
    (hothers : ∀ {q n c' v r}, q ≠ p → s.conts q = .fork n c' v r → c' ≠ c)
    (hmine : ∀ {c' v r}, s.conts p = .fork .setRax c' v r → c' = c)
    (hpcs : (∀ n c' v r, s.conts c ≠ .fork n c' v r ∧ s'.conts c ≠ .fork n c' v r) ∧
      ∀ c' st, s'.conts c ≠ .waited c' st)
    (hstate : ((s.tasks c).state = .zombie → (s.tasks c).ppid = p) ∧ (s'.tasks c).state ≠ .waiting)
    (hpid : (s'.tasks c).state ≠ .notAllocated → (s'.tasks c).pid = c ∧ s'.kstacks c ≠ 0)
    (hfresh : s.fresh ≤ s'.fresh)
    (hstack : s'.kstacks c = s.kstacks c ∨ s'.kstacks c = s.fresh ∧ s.fresh < s'.fresh)
    (hentry : s'.conts c = .entry → (s'.tasks c).state ≠ .notAllocated →
      s'.rax (s'.kstacks c) = 0 ∨ ∃ q v r, s'.conts q = .fork .setRax c v r)
    {n : ForkStmt} {v r : ℕ} (hpc : s'.conts p = .fork n c v r) (hheld : InFork live s' p n c v r) :
    ForkInv live s' := by
  obtain ⟨-, hcur, hrun⟩ := h.onCpu hcpu
  refine h.move hcpu (D := fun i => i = c) ⟨Or.inl ⟨hcpu'.1.trans hcpu, hcpu'.2.1.trans hcur, ?_⟩, hcpu'.2.2,
    fun i hi => ?_, hconts, fun i hip hi => ?_, fun i _ => hrax i, hfresh, hne.symm, hothers, hmine,
    fun i hi => ?_, fun {n' c' v' r'} hq => ?_, ?_, fun hw => ?_, fun hq => ?_,
    fun f hf => Or.inl ⟨hf, hheld.isNew f hf⟩, h.distinct⟩
  · rw [htasks p hne.symm]
    exact hrun
  · rw [htasks i hi, hkstacks i hi]
    exact ⟨rfl, rfl, rfl, rfl, Iff.rfl⟩
  · rw [htasks i hi]
    exact ⟨rfl, Or.inl rfl⟩
  · subst hi
    exact ⟨hpcs.1, hpcs.2, hstate.1, hstate.2, hpid,
      hstack.imp_right fun hnew => ⟨hnew.1, hnew.2, fun j hj => hj⟩, hentry⟩
  · rw [hpc] at hq
    obtain ⟨rfl, rfl, rfl, rfl⟩ := ForkPc.fork.inj hq
    exact ⟨rfl, hheld⟩
  · simp [hpc]
  · rw [htasks p hne.symm, hrun] at hw
    cases hw
  · rw [hpc] at hq
    cases hq

omit hcpu in
/-- Nobody is busy in a free entry. -/
theorem ForkInv.free {c : ℕ} (hfree : (s.tasks c).state = .notAllocated) :
    ((∀ n c' v r, s.conts c ≠ .fork n c' v r) ∧ ∀ c' st, s.conts c ≠ .waited c' st) ∧ ∀ f ∈ live, f.child ≠ c := by
  refine ⟨⟨fun n c' v r hq => ?_, fun c' st hq => ?_⟩, fun f hf heq => ?_⟩
  · have hrun := (h.held hq).caller
    rw [hfree] at hrun
    cases hrun
  · rcases h.waited hq with ⟨hw, -⟩ | ⟨hr, -⟩
    · rw [hfree] at hw
      cases hw
    · rw [hfree] at hr
      cases hr
  · exact (h.own f hf).1 (heq ▸ hfree)

theorem ForkInv.choose {c : ℕ} {tasks : TaskTable} (hpc : s.conts p = .choose)
    (hfound : schedAllocateTask s.tasks = some (c, tasks))
    (hcalm : ∀ q n v r, n.rank < 4 → s.conts q ≠ .fork n (scanTasks s.tasks (maxTaskCount - 1) 1) v r) :
    ForkInv live (s.goto p (.fork .cloneVmem c 0 0) tasks) := by
  obtain ⟨-, hcur, hrun⟩ := h.onCpu hcpu
  obtain ⟨-, -, hfree, rfl⟩ := schedAllocateTask_spec hfound
  have hscan : scanTasks s.tasks (maxTaskCount - 1) 1 = c := by
    unfold schedAllocateTask at hfound
    simp only at hfound
    split_ifs at hfound
    exact (Prod.mk.inj (Option.some.inj hfound)).1
  have hne : c ≠ p := by
    rintro rfl
    rw [hfree] at hrun
    cases hrun
  obtain ⟨hbusy, hnew⟩ := h.free hfree
  have hself : s.tasks.modify c (fun t => { t with pid := c }) c = { s.tasks c with pid := c } :=
    TaskTable.modify_self _ _ _
  have hkeep : Function.update s.conts p (.fork .cloneVmem c 0 0) c = s.conts c := Function.update_of_ne hne _ _
  have hother {i : ℕ} (hi : i ≠ c) : s.tasks.modify c (fun t => { t with pid := c }) i = s.tasks i :=
    TaskTable.modify_of_ne _ _ hi
  refine h.onChild hcpu hne ⟨rfl, rfl, rfl⟩ (fun i hi => hother hi) (fun _ _ => rfl)
    (fun i hip _ => Function.update_of_ne hip _ _) (fun _ _ _ => rfl) (fun {q n c' v r} hqp hq heq => ?_)
    (fun hq => ?_) ?_ ?_ (fun hst => ?_) (le_refl _) (Or.inl rfl) (fun _ hst => ?_) (Function.update_self _ _ _)
    ⟨?_, ?_, ?_, by simp [ForkStmt.rank], by simp [ForkStmt.rank], by simp [ForkStmt.rank], by simp [ForkStmt.rank],
      fun _ hoff => ?_, hnew⟩
  · subst heq
    exact hcalm q n v r ((h.held hq).marked.mp hfree) (hscan ▸ hq)
  · rw [hpc] at hq
    cases hq
  · simp only [ForkSystem.goto, hkeep]
    exact ⟨fun n c' v r => ⟨hbusy.1 n c' v r, hbusy.1 n c' v r⟩, hbusy.2⟩
  · simp only [ForkSystem.goto, hself, hfree]
    simp
  · simp only [ForkSystem.goto, hself] at hst
    exact absurd hfree hst
  · simp only [ForkSystem.goto, hself] at hst
    exact absurd hfree hst
  · simp only [ForkSystem.goto, hother hne.symm]
    exact hrun
  · simp only [ForkSystem.goto, hself]
  · simp only [ForkSystem.goto, hself, hfree, ForkStmt.rank]
    decide
  · exact hne (Cpu.task.inj (hoff.symm.trans hcpu))

/-- Until the call has written the return value of the child, the child is at its entry and
nobody else uses it. -/
theorem ForkInv.stmt {n : ForkStmt} {c v r : ℕ} (hpc : s.conts p = .fork n c v r) (hn : n.rank < 5) :
    c ≠ p ∧ (∀ {q n' c' v' r'}, q ≠ p → s.conts q = .fork n' c' v' r' → c' ≠ c) ∧
      (∀ n' c' v' r', s.conts c ≠ .fork n' c' v' r') ∧ (∀ c' st, s.conts c ≠ .waited c' st) ∧
      (s.tasks c).state ≠ .waiting := by
  have hin := h.held hpc
  have hbusy : (∀ n' c' v' r', s.conts c ≠ .fork n' c' v' r') ∧ ∀ c' st, s.conts c ≠ .waited c' st := by
    by_cases hmark : n.rank < 4
    · exact (h.free (hin.marked.mpr hmark)).1
    · have hentry := hin.entry (by omega) hn
      rw [hentry]
      exact ⟨by simp, by simp⟩
  refine ⟨fun heq => hin.off hn (heq ▸ hcpu), fun {q n' c' v' r'} hqp hq heq => ?_, hbusy.1, hbusy.2, fun hw => ?_⟩
  · subst heq
    exact hqp (h.one hq hpc)
  · obtain ⟨c', st, hc⟩ := h.waits hw
    exact hbusy.2 c' st hc

theorem ForkInv.cloneVmem {c v r : ℕ} (hpc : s.conts p = .fork .cloneVmem c v r) :
    ForkInv live { s.goto p (.fork .cloneThread c s.fresh r) (s.tasks.modify c fun t =>
        { t with vmem := ⟨(s.tasks p).vmem.areas, s.fresh⟩, vmemLive := true }) with
      fresh := s.fresh + 1 } := by
  have hin := h.held hpc
  obtain ⟨hne, hothers, hforks, hwaited, hnw⟩ := h.stmt hcpu hpc (by decide)
  have hfree := hin.marked.mpr (by decide)
  have hself : s.tasks.modify c (fun t => { t with vmem := ⟨(s.tasks p).vmem.areas, s.fresh⟩, vmemLive := true }) c =
      { s.tasks c with vmem := ⟨(s.tasks p).vmem.areas, s.fresh⟩, vmemLive := true } := TaskTable.modify_self _ _ _
  have hother {i : ℕ} (hi : i ≠ c) : s.tasks.modify c (fun t =>
      { t with vmem := ⟨(s.tasks p).vmem.areas, s.fresh⟩, vmemLive := true }) i = s.tasks i :=
    TaskTable.modify_of_ne _ _ hi
  have hkeep : Function.update s.conts p (.fork .cloneThread c s.fresh r) c = s.conts c := Function.update_of_ne hne _ _
  refine h.onChild hcpu hne ⟨rfl, rfl, rfl⟩ (fun i hi => hother hi) (fun _ _ => rfl)
    (fun i hip _ => Function.update_of_ne hip _ _) (fun _ _ _ => rfl) hothers (fun hq => ?_) ?_ ?_ (fun hst => ?_)
    (Nat.le_succ _) (Or.inl rfl) (fun _ hst => ?_) (Function.update_self _ _ _)
    ⟨?_, ?_, ?_, fun _ => ?_, by simp [ForkStmt.rank], by simp [ForkStmt.rank], by simp [ForkStmt.rank],
      fun _ => hin.off (by decide), hin.isNew⟩
  · rw [hpc] at hq
    cases hq
  · simp only [ForkSystem.goto, hkeep]
    exact ⟨fun n c' v r => ⟨hforks n c' v r, hforks n c' v r⟩, hwaited⟩
  · simp only [ForkSystem.goto, hself, hfree]
    simp
  · simp only [ForkSystem.goto, hself] at hst
    exact absurd hfree hst
  · simp only [ForkSystem.goto, hself] at hst
    exact absurd hfree hst
  · simp only [ForkSystem.goto, hother hne.symm]
    exact hin.caller
  · simp only [ForkSystem.goto, hself]
    exact hin.pid
  · simp only [ForkSystem.goto, hself, hfree, ForkStmt.rank]
    decide
  · simp only [ForkSystem.goto, hself]

theorem ForkInv.cloneThread {c v r : ℕ} (hpc : s.conts p = .fork .cloneThread c v r) :
    ForkInv live { s with
      tasks := s.tasks.modify c fun t => { t with kstackLive := true }
      conts := Function.update (Function.update s.conts c .entry) p (.fork .setPpid c v s.fresh)
      kstacks := Function.update s.kstacks c s.fresh
      rax := Function.update s.rax s.fresh (s.rax (s.kstacks p))
      fresh := s.fresh + 1 } := by
  have hin := h.held hpc
  obtain ⟨hne, hothers, hforks, hwaited, hnw⟩ := h.stmt hcpu hpc (by decide)
  have hfree := hin.marked.mpr (by decide)
  have hself : s.tasks.modify c (fun t => { t with kstackLive := true }) c = { s.tasks c with kstackLive := true } :=
    TaskTable.modify_self _ _ _
  have hother {i : ℕ} (hi : i ≠ c) : s.tasks.modify c (fun t => { t with kstackLive := true }) i = s.tasks i :=
    TaskTable.modify_of_ne _ _ hi
  have hentry : Function.update (Function.update s.conts c .entry) p (.fork .setPpid c v s.fresh) c = .entry := by
    rw [Function.update_of_ne hne, Function.update_self]
  have hstack : Function.update s.kstacks c s.fresh c = s.fresh := Function.update_self _ _ _
  refine h.onChild hcpu hne ⟨rfl, rfl, rfl⟩ (fun i hi => hother hi) (fun i hi => Function.update_of_ne hi _ _)
    (fun i hip hi => ?_) (fun i _ _ => Function.update_of_ne (h.bound i).ne _ _) hothers (fun hq => ?_) ?_ ?_
    (fun hst => ?_) (Nat.le_succ _) (Or.inr ⟨hstack, Nat.lt_succ_self _⟩) (fun _ hst => ?_) (Function.update_self _ _ _)
    ⟨?_, ?_, ?_, fun _ => ?_, fun _ => ⟨hstack, ?_⟩, by simp [ForkStmt.rank], fun _ _ => hentry,
      fun _ => hin.off (by decide), hin.isNew⟩
  · simp only [Function.update_of_ne hip, Function.update_of_ne hi]
  · rw [hpc] at hq
    cases hq
  · simp only [hentry]
    exact ⟨fun n c' v r => ⟨hforks n c' v r, by simp⟩, by simp⟩
  · simp only [hself, hfree]
    simp
  · simp only [hself] at hst
    exact absurd hfree hst
  · simp only [hself] at hst
    exact absurd hfree hst
  · simp only [hother hne.symm]
    exact hin.caller
  · simp only [hself]
    exact hin.pid
  · simp only [hself, hfree, ForkStmt.rank]
    decide
  · simp only [hself]
    exact hin.vmem (by decide)
  · have hlt := h.bound p
    omega

theorem ForkInv.setPpid {c v r : ℕ} (hpc : s.conts p = .fork .setPpid c v r) :
    ForkInv live (s.goto p (.fork .setState c v r)
      (s.tasks.modify c fun t => { t with ppid := (s.tasks p).pid })) := by
  have hin := h.held hpc
  obtain ⟨hne, hothers, hforks, hwaited, hnw⟩ := h.stmt hcpu hpc (by decide)
  have hfree := hin.marked.mpr (by decide)
  have hpid : (s.tasks p).pid = p := (h.pid (by rw [hin.caller]; simp)).1
  have hself : s.tasks.modify c (fun t => { t with ppid := (s.tasks p).pid }) c =
      { s.tasks c with ppid := (s.tasks p).pid } := TaskTable.modify_self _ _ _
  have hother {i : ℕ} (hi : i ≠ c) : s.tasks.modify c (fun t => { t with ppid := (s.tasks p).pid }) i = s.tasks i :=
    TaskTable.modify_of_ne _ _ hi
  have hkeep : Function.update s.conts p (.fork .setState c v r) c = s.conts c := Function.update_of_ne hne _ _
  refine h.onChild hcpu hne ⟨rfl, rfl, rfl⟩ (fun i hi => hother hi) (fun _ _ => rfl)
    (fun i hip _ => Function.update_of_ne hip _ _) (fun _ _ _ => rfl) hothers (fun hq => ?_) ?_ ?_ (fun hst => ?_)
    (le_refl _) (Or.inl rfl) (fun _ hst => ?_) (Function.update_self _ _ _)
    ⟨?_, ?_, ?_, fun _ => ?_, fun _ => hin.kstack (by decide), fun _ => ?_, fun _ _ => ?_,
      fun _ => hin.off (by decide), hin.isNew⟩
  · rw [hpc] at hq
    cases hq
  · simp only [ForkSystem.goto, hkeep]
    exact ⟨fun n c' v r => ⟨hforks n c' v r, hforks n c' v r⟩, hwaited⟩
  · simp only [ForkSystem.goto, hself, hfree]
    simp
  · simp only [ForkSystem.goto, hself] at hst
    exact absurd hfree hst
  · simp only [ForkSystem.goto, hself] at hst
    exact absurd hfree hst
  · simp only [ForkSystem.goto, hother hne.symm]
    exact hin.caller
  · simp only [ForkSystem.goto, hself]
    exact hin.pid
  · simp only [ForkSystem.goto, hself, hfree, ForkStmt.rank]
    decide
  · simp only [ForkSystem.goto, hself]
    exact hin.vmem (by decide)
  · simp only [ForkSystem.goto, hself]
    exact hpid
  · simp only [ForkSystem.goto, hkeep]
    exact hin.entry (by decide) (by decide)

theorem ForkInv.setState {c v r : ℕ} (hpc : s.conts p = .fork .setState c v r) :
    ForkInv live (s.goto p (.fork .setRax c v r)
      (s.tasks.modify c fun t => { t with state := .runnable })) := by
  have hin := h.held hpc
  obtain ⟨hne, hothers, hforks, hwaited, hnw⟩ := h.stmt hcpu hpc (by decide)
  have hfree := hin.marked.mpr (by decide)
  obtain ⟨hstack, hnz⟩ := hin.kstack (by decide)
  have hself : s.tasks.modify c (fun t => { t with state := .runnable }) c = { s.tasks c with state := .runnable } :=
    TaskTable.modify_self _ _ _
  have hother {i : ℕ} (hi : i ≠ c) : s.tasks.modify c (fun t => { t with state := .runnable }) i = s.tasks i :=
    TaskTable.modify_of_ne _ _ hi
  have hkeep : Function.update s.conts p (.fork .setRax c v r) c = s.conts c := Function.update_of_ne hne _ _
  have hat : Function.update s.conts p (.fork .setRax c v r) p = .fork .setRax c v r := Function.update_self _ _ _
  refine h.onChild hcpu hne ⟨rfl, rfl, rfl⟩ (fun i hi => hother hi) (fun _ _ => rfl)
    (fun i hip _ => Function.update_of_ne hip _ _) (fun _ _ _ => rfl) hothers (fun hq => ?_) ?_ ?_ (fun _ => ?_)
    (le_refl _) (Or.inl rfl) (fun _ _ => Or.inr ⟨p, v, r, hat⟩) hat
    ⟨?_, ?_, ?_, fun _ => ?_, fun _ => hin.kstack (by decide), fun _ => ?_, fun _ _ => ?_,
      fun _ => hin.off (by decide), hin.isNew⟩
  · rw [hpc] at hq
    cases hq
  · simp only [ForkSystem.goto, hkeep]
    exact ⟨fun n c' v r => ⟨hforks n c' v r, hforks n c' v r⟩, hwaited⟩
  · simp only [ForkSystem.goto, hself, hfree]
    simp
  · simp only [ForkSystem.goto, hself]
    exact ⟨hin.pid, hstack ▸ hnz⟩
  · simp only [ForkSystem.goto, hother hne.symm]
    exact hin.caller
  · simp only [ForkSystem.goto, hself]
    exact hin.pid
  · simp only [ForkSystem.goto, hself, ForkStmt.rank]
    decide
  · simp only [ForkSystem.goto, hself]
    exact hin.vmem (by decide)
  · simp only [ForkSystem.goto, hself]
    exact hin.ppid (by decide)
  · simp only [ForkSystem.goto, hkeep]
    exact hin.entry (by decide) (by decide)

theorem ForkInv.setRax {c v r : ℕ} (hpc : s.conts p = .fork .setRax c v r) :
    ForkInv live { s.goto p (.fork .ret c v r) s.tasks with rax := Function.update s.rax r 0 } := by
  have hin := h.held hpc
  obtain ⟨hne, hothers, hforks, hwaited, hnw⟩ := h.stmt hcpu hpc (by decide)
  have halloc : (s.tasks c).state ≠ .notAllocated := fun hfree => absurd (hin.marked.mp hfree) (by decide)
  obtain ⟨hstack, hnz⟩ := hin.kstack (by decide)
  have hkeep : Function.update s.conts p (.fork .ret c v r) c = s.conts c := Function.update_of_ne hne _ _
  refine h.onChild hcpu hne ⟨rfl, rfl, rfl⟩ (fun _ _ => rfl) (fun _ _ => rfl)
    (fun i hip _ => Function.update_of_ne hip _ _) (fun i hi hst => ?_) hothers (fun hq => ?_) ?_
    ⟨fun _ => hin.ppid (by decide), hnw⟩ (fun hst => h.pid hst)
    (le_refl _) (Or.inl rfl) (fun _ _ => Or.inl ?_) (Function.update_self _ _ _)
    ⟨hin.caller, hin.pid, ?_, fun _ => hin.vmem (by decide), fun _ => hin.kstack (by decide),
      fun _ => hin.ppid (by decide), by simp [ForkStmt.rank], by simp [ForkStmt.rank], hin.isNew⟩
  · refine Function.update_of_ne (fun heq => hi ?_) _ _
    exact h.apart (heq.trans hstack.symm) (h.pid hst).2
  · rw [hpc] at hq
    exact (ForkPc.fork.inj hq).2.1.symm
  · simp only [ForkSystem.goto, hkeep]
    exact ⟨fun n c' v r => ⟨hforks n c' v r, hforks n c' v r⟩, hwaited⟩
  · simp only [ForkSystem.goto, hstack, Function.update_self]
  · simp only [ForkSystem.goto, ForkStmt.rank]
    exact ⟨fun hfree => absurd hfree halloc, fun hlt => absurd hlt (by decide)⟩

theorem ForkInv.ret {c v r : ℕ} (hpc : s.conts p = .fork .ret c v r) :
    ForkInv (⟨c, (s.tasks c).pid, v, r⟩ :: live) (s.goto p .user s.tasks) := by
  obtain ⟨-, hcur, hrun⟩ := h.onCpu hcpu
  have hin := h.held hpc
  have halloc : (s.tasks c).state ≠ .notAllocated := fun hfree => absurd (hin.marked.mp hfree) (by decide)
  refine h.go hcpu _ .user s.tasks s.rax s.current s.cpu (by simp [hpc]) ⟨by simp, by simp⟩ (Or.inl ⟨hcpu, hcur, hrun⟩)
    (fun _ => ⟨rfl, rfl, rfl, Iff.rfl⟩) (fun _ _ => ⟨rfl, Or.inl rfl⟩) (fun _ _ _ => rfl) (fun hw => ?_)
    (fun hw => (by cases hw)) (fun f hf => ?_) (List.pairwise_cons.mpr ⟨fun g hg heq => ?_, h.distinct⟩)
  · rw [hrun] at hw
    cases hw
  · rcases List.mem_cons.mp hf with rfl | hold
    · refine Or.inr ⟨⟨halloc, hin.pid, hin.vmem (by decide), (hin.kstack (by decide)).1⟩, fun hqp hq heq => ?_⟩
      simp only at heq
      subst heq
      exact hqp (h.one hq hpc)
    · exact Or.inl hold
  · exact hin.isNew g hg heq.symm

/-- The task gives up the processor in a call other than `sys_fork`. -/
theorem ForkInv.leave (k : ForkPc) (tasks : TaskTable) (hpc : s.conts p = .user)
    (hk : (∀ n c v r, k ≠ .fork n c v r) ∧ k ≠ .entry)
    (hids : ∀ i, (tasks i).pid = (s.tasks i).pid ∧ (tasks i).ppid = (s.tasks i).ppid ∧
      (tasks i).vmem.pml4 = (s.tasks i).vmem.pml4 ∧
      ((tasks i).state = .notAllocated ↔ (s.tasks i).state = .notAllocated))
    (hstates : ∀ i, i ≠ p → (tasks i).waitPid = (s.tasks i).waitPid ∧ ((tasks i).state = (s.tasks i).state ∨
      (s.tasks i).state = .waiting ∧ (tasks i).state = .runnable ∧ (tasks p).state = .zombie ∧
        (tasks p).ppid = i ∧ (s.tasks i).waitPid = p))
    (hwaits : (tasks p).state = .waiting → ∃ c st, k = .waited c st)
    (hwaited : ∀ {c st}, k = .waited c st → (tasks p).state = .waiting ∧ (tasks p).waitPid = c) :
    ForkInv live (s.switch k tasks) := by
  obtain ⟨-, hcur, -⟩ := h.onCpu hcpu
  have hswitch : s.switch k tasks = { s with tasks := tasks, conts := Function.update s.conts p k, rax := s.rax,
                                             current := none, cpu := .returned s.schedIndex } := by
    simp only [ForkSystem.switch, schedSwitch, hcur]
  rw [hswitch]
  exact h.go hcpu live k tasks s.rax none (.returned s.schedIndex) (by simp [hpc]) hk
    (Or.inr ⟨by simp, fun _ => rfl⟩) hids hstates (fun _ _ _ => rfl) hwaits hwaited (fun f hf => Or.inl hf) h.distinct

theorem ForkInv.exit {code : BitVec 64} (hpc : s.conts p = .user) :
    ForkInv live (s.switch .exited (sysExit s.tasks p code)) := by
  obtain ⟨-, -, hrun⟩ := h.onCpu hcpu
  have hpid : (s.tasks p).pid = p := (h.pid (by rw [hrun]; simp)).1
  have hself : sysExit s.tasks p code p = { s.tasks p with exitcode := code.truncate 32, state := .zombie } := by
    rw [sysExit_apply, if_pos rfl]
  refine h.leave hcpu .exited _ hpc ⟨by simp, by simp⟩ (fun i => ?_) (fun i hip => ?_) (fun hw => ?_)
    (fun hw => (by cases hw))
  · rw [sysExit_apply]
    split_ifs with hi hwake
    · simp [hi, hrun]
    · simp [hwake.2.1]
    · exact ⟨rfl, rfl, rfl, Iff.rfl⟩
  · rw [sysExit_apply (j := i), if_neg hip, hself]
    split_ifs with hwake
    · exact ⟨rfl, Or.inr ⟨hwake.2.1, rfl, rfl, hwake.1.symm, hwake.2.2.trans hpid⟩⟩
    · exact ⟨rfl, Or.inl rfl⟩
  · rw [hself] at hw
    cases hw

/-- `sys_wait` reaps a child. -/
theorem ForkInv.reap {c : ℕ} (hpc : s.conts p = .user ∨ ∃ c st, s.conts p = .waited c st)
    (hz : (s.tasks c).state = .zombie) (hppid : (s.tasks c).ppid = p) :
    ForkInv (live.filter fun f => f.child ≠ c)
      (s.goto p .user (s.tasks.modify c fun t => { t with state := .notAllocated })) := by
  obtain ⟨-, hcur, hrun⟩ := h.onCpu hcpu
  have hne : c ≠ p := by
    rintro rfl
    rw [hrun] at hz
    cases hz
  have hself : s.tasks.modify c (fun t => { t with state := .notAllocated }) c =
      { s.tasks c with state := .notAllocated } := TaskTable.modify_self _ _ _
  have hother {i : ℕ} (hi : i ≠ c) : s.tasks.modify c (fun t => { t with state := .notAllocated }) i = s.tasks i :=
    TaskTable.modify_of_ne _ _ hi
  have hnofork {n c' v r} (hq : s.conts p = .fork n c' v r) : False := by
    rcases hpc with heq | ⟨_, _, heq⟩
    · rw [heq] at hq
      cases hq
    · rw [heq] at hq
      cases hq
  have hbusy (n : ForkStmt) (c' v r : ℕ) : s.conts c ≠ .fork n c' v r := fun hq => by
    have hcaller := (h.held hq).caller
    rw [hz] at hcaller
    cases hcaller
  have hkeep : Function.update s.conts p .user c = s.conts c := Function.update_of_ne hne _ _
  refine h.move hcpu (D := fun i => i = c) ⟨Or.inl ⟨hcpu, hcur, ?_⟩, rfl, fun i hi => ?_,
    fun i hip _ => Function.update_of_ne hip _ _, fun i hip hi => ?_, fun _ _ _ _ => rfl, le_refl _, hne.symm,
    fun {q n c' v r} hqp hq heq => ?_, fun hq => (hnofork hq).elim, fun i hi => ?_, fun hq => ?_, ?_, fun hw => ?_,
    fun hq => ?_, fun f hf => Or.inl ?_, h.distinct.filter _⟩
  · simp only [ForkSystem.goto, hother hne.symm]
    exact hrun
  · rw [ForkSystem.goto_tasks, hother hi]
    exact ⟨rfl, rfl, rfl, rfl, Iff.rfl⟩
  · rw [ForkSystem.goto_tasks, hother hi]
    exact ⟨rfl, Or.inl rfl⟩
  · -- a call in progress would have made this child for another parent
    subst heq
    have hin := h.held hq
    have hrank : 4 ≤ n.rank := by
      by_contra hlt
      rw [hin.marked.mpr (by omega)] at hz
      cases hz
    exact hqp ((hin.ppid (by omega)).symm.trans hppid)
  · subst hi
    refine ⟨fun n c' v r => ⟨hbusy n c' v r, ?_⟩, fun c' st => ?_, fun _ => hppid, ?_, fun hst => ?_, Or.inl rfl,
      fun _ hst => ?_⟩
    · simp only [ForkSystem.goto, hkeep]
      exact hbusy n c' v r
    · simp only [ForkSystem.goto, hkeep]
      intro hq
      rcases h.waited hq with ⟨hw, -⟩ | ⟨hr, -⟩
      · rw [hz] at hw
        cases hw
      · rw [hz] at hr
        cases hr
    · simp [ForkSystem.goto]
    · simp only [ForkSystem.goto, hself] at hst
      exact absurd rfl hst
    · simp only [ForkSystem.goto, hself] at hst
      exact absurd rfl hst
  · simp only [ForkSystem.goto, Function.update_self] at hq
    cases hq
  · simp [ForkSystem.goto]
  · simp only [ForkSystem.goto, hother hne.symm, hrun] at hw
    cases hw
  · simp only [ForkSystem.goto, Function.update_self] at hq
    cases hq
  · have hmem := List.mem_filter.mp hf
    exact ⟨hmem.1, by simpa using hmem.2⟩

end Task

section Scheduler

variable {live : List Forked} {s t : ForkSystem} (h : ForkInv live s)

include h

theorem ForkInv.setTimer (timer : ℕ) : ForkInv live { s with timer := timer } :=
  ⟨h.onCpu, h.inSched, h.pid, h.apart, h.bound, fun hq => (h.held hq).frame (h.held hq).caller rfl Iff.rfl rfl rfl rfl
    (fun hn => ⟨rfl, (h.held hq).off hn⟩) (h.held hq).isNew, h.one, h.waits, h.waited, h.entry, h.own, h.distinct⟩

/-- A step after which the scheduler has the processor. -/
theorem ForkInv.schedule (tasks : TaskTable) (current currVmem : Option ℕ) (cpu : Cpu) (timer : ℕ)
    (hto : ∀ p, cpu ≠ .task p) (hcur : current = none)
    (htasks : ∀ i, (tasks i).pid = (s.tasks i).pid ∧ (tasks i).ppid = (s.tasks i).ppid ∧
      (tasks i).state = (s.tasks i).state ∧ (tasks i).waitPid = (s.tasks i).waitPid ∧
      (tasks i).vmem = (s.tasks i).vmem) :
    ForkInv live { s with tasks := tasks, timer := timer, current := current, currVmem := currVmem, cpu := cpu } := by
  have hstate (i : ℕ) : (tasks i).state = (s.tasks i).state := (htasks i).2.2.1
  refine ⟨fun {p} hp => absurd hp (hto p), fun _ _ => hcur, fun {i} hi => ?_, h.apart, h.bound,
    fun {q n c v r} hq => ?_, h.one, fun {q} hq => ?_, fun {q c st} hq => ?_, fun {i} hi halloc => ?_,
    fun f hf => ?_, h.distinct⟩
  · rw [hstate] at hi
    simp only [(htasks i).1]
    exact h.pid hi
  · obtain ⟨hpid, hppid, hst, -, hvmem⟩ := htasks c
    have hin := h.held hq
    exact hin.frame ((hstate q).trans hin.caller) hpid (by simp only [hst]) (by simp only [hvmem]) rfl hppid
      (fun _ => ⟨rfl, hto c⟩) hin.isNew
  · exact h.waits ((hstate q).symm.trans hq)
  · simp only [hstate, (htasks q).2.2.2.1, (htasks c).2.1]
    exact h.waited hq
  · simp only [hstate] at halloc
    exact h.entry hi halloc
  · obtain ⟨hst, hpid, hvmem, hkstack⟩ := h.own f hf
    obtain ⟨-, -, hst', -, hvmem'⟩ := htasks f.child
    simp only [hst', hvmem']
    exact ⟨hst, hpid, hvmem, hkstack⟩

theorem ForkInv.run {i : ℕ} {found : Bool} (hcpu : s.cpu = .examine i found)
    (hstate : (wakeSleeping s.tasks s.timer i i).state = .runnable)
    (hcalm : ∀ q v r, s.conts q ≠ .fork .setRax i v r) :
    ForkInv live
      { s with toSystem := schedSwitchTo { s.toSystem with tasks := wakeSleeping s.tasks s.timer i } i } := by
  obtain ⟨hold, htasks⟩ := schedSwitchTo_tasks hstate
  generalize hs' : schedSwitchTo { s.toSystem with tasks := wakeSleeping s.tasks s.timer i } i = s' at htasks
  have hcpu' : s'.cpu = .task i := by rw [← hs']; rfl
  have hcur' : s'.current = some i := by rw [← hs']; rfl
  have hindex' : s'.schedIndex = i := by rw [← hs']; rfl
  have hconts' : s'.conts = s.conts := by rw [← hs']; rfl
  have halloc : (s.tasks i).state ≠ .notAllocated := by
    rcases hold with hr | ⟨hsl, -⟩
    · simp [hr]
    · simp [hsl]
  have hrun : (s'.tasks i).state = .runnable := by rw [htasks, if_pos rfl]
  have hids (j : ℕ) : (s'.tasks j).pid = (s.tasks j).pid ∧ (s'.tasks j).ppid = (s.tasks j).ppid ∧
      (s'.tasks j).vmem = (s.tasks j).vmem ∧ (s'.tasks j).waitPid = (s.tasks j).waitPid := by
    rw [htasks]
    split_ifs with hj
    · rw [hj]
      exact ⟨rfl, rfl, rfl, rfl⟩
    · exact ⟨rfl, rfl, rfl, rfl⟩
  have hother {j : ℕ} (hj : j ≠ i) : s'.tasks j = s.tasks j := by rw [htasks, if_neg hj]
  have hna (j : ℕ) : (s'.tasks j).state = .notAllocated ↔ (s.tasks j).state = .notAllocated := by
    by_cases hj : j = i
    · rw [hj, hrun]
      exact ⟨fun hr => (by cases hr), fun hr => absurd hr halloc⟩
    · rw [hother hj]
  have hrunnable {j : ℕ} (hj : (s.tasks j).state = .runnable) : (s'.tasks j).state = .runnable := by
    by_cases hji : j = i
    · rw [hji, hrun]
    · rw [hother hji, hj]
  refine ⟨fun {p} hp => ?_, fun hno _ => absurd hcpu' (hno i), fun {j} hj => ?_, h.apart, h.bound,
    fun {q n c v r} hq => ?_, fun {q q' n n' c v v' r r'} hq hq' => ?_, fun {q} hq => ?_, fun {q c st} hq => ?_,
    fun {j} hj hst => ?_, fun f hf => ?_, h.distinct⟩
  · obtain rfl : i = p := Cpu.task.inj (hcpu'.symm.trans hp)
    exact ⟨hindex', hcur', hrun⟩
  · simp only [(hids j).1]
    exact h.pid fun heq => hj ((hna j).mpr heq)
  · simp only [hconts'] at hq
    have hin := h.held hq
    obtain ⟨hpid, hppid, hvmem, -⟩ := hids c
    refine hin.frame (hrunnable hin.caller) hpid (hna c) (by simp only [hvmem]) rfl hppid (fun hn => ⟨?_, fun hp => ?_⟩)
      hin.isNew
    · simp only [hconts']
    · -- the only child that may be run has its return value
      obtain rfl : i = c := Cpu.task.inj (hcpu'.symm.trans hp)
      have hmark : ¬n.rank < 4 := fun hlt => halloc (hin.marked.mpr hlt)
      cases n with
      | setRax => exact hcalm q v r hq
      | _ => simp [ForkStmt.rank] at hn hmark
  · simp only [hconts'] at hq hq'
    exact h.one hq hq'
  · simp only [hconts']
    refine h.waits ?_
    rw [hother] at hq
    · exact hq
    · rintro rfl
      rw [hrun] at hq
      cases hq
  · simp only [hconts'] at hq
    simp only [(hids q).2.2.2, (hids c).2.1]
    have hcase := h.waited hq
    by_cases hqi : q = i
    · rcases hcase with ⟨hw, -⟩ | ⟨hr, hz, hpar⟩
      · rw [hqi] at hw
        rcases hold with hr | ⟨hsl, -⟩
        · rw [hr] at hw
          cases hw
        · rw [hsl] at hw
          cases hw
      · refine Or.inr ⟨hrunnable hr, ?_, hpar⟩
        rw [hother, hz]
        rintro rfl
        rcases hold with hr | ⟨hsl, -⟩
        · rw [hr] at hz
          cases hz
        · rw [hsl] at hz
          cases hz
    · rw [hother hqi]
      refine hcase.imp_right fun ⟨hr, hz, hpar⟩ => ⟨hr, ?_, hpar⟩
      rw [hother, hz]
      rintro rfl
      rcases hold with hr | ⟨hsl, -⟩
      · rw [hr] at hz
        cases hz
      · rw [hsl] at hz
        cases hz
  · simp only [hconts'] at hj ⊢
    exact h.entry hj fun heq => hst ((hna j).mpr heq)
  · obtain ⟨hst, hpid, hvmem, hkstack⟩ := h.own f hf
    refine ⟨fun heq => hst ((hna _).mp heq), hpid, ?_, hkstack⟩
    simp only [(hids f.child).2.2.1]
    exact hvmem

theorem ForkInv.sched {a : Action} {t : System ForkPc} (hstep : SchedStep s.toSystem a t)
    (hcalm : ∀ i timer, a = .run i timer → ∀ q v r, s.conts q ≠ .fork .setRax i v r) :
    ForkInv live { s with toSystem := t } := by
  have hcur (hno : ∀ p, s.cpu ≠ .task p) (hsafe : ∀ msg, s.cpu ≠ .panicked msg) : s.current = none := h.inSched hno hsafe
  cases hstep with
  | @pass i found hcpu hi hstate =>
      rw [wakeSleeping_of_pass hstate]
      exact h.schedule s.tasks s.current s.currVmem _ s.timer (by simp) (hcur (by simp [hcpu]) (by simp [hcpu]))
        fun _ => ⟨rfl, rfl, rfl, rfl, rfl⟩
  | @passEnd found hcpu =>
      refine h.schedule s.tasks s.current s.currVmem _ s.timer (fun p => ?_) (hcur (by simp [hcpu]) (by simp [hcpu]))
        fun _ => ⟨rfl, rfl, rfl, rfl, rfl⟩
      split_ifs <;> simp
  | run hcpu hi hstate => exact h.run hcpu hstate (hcalm _ _ rfl)
  | @keep i hcpu hstate =>
      exact h.schedule s.tasks s.current s.currVmem _ s.timer (by simp) (hcur (by simp [hcpu]) (by simp [hcpu]))
        fun _ => ⟨rfl, rfl, rfl, rfl, rfl⟩
  | @destroyVmem i hcpu hstate =>
      simp only [HeavenOS.destroyVmem, reduceCtorEq, if_false]
      refine h.schedule _ s.current none (.torn i) s.timer (by simp) (hcur (by simp [hcpu]) (by simp [hcpu])) fun j => ?_
      rw [TaskTable.modify_apply]
      split_ifs <;> exact ⟨rfl, rfl, rfl, rfl, rfl⟩
  | @destroyKstack i hcpu =>
      refine h.schedule _ s.current s.currVmem (.examine (i + 1) true) s.timer (by simp)
        (hcur (by simp [hcpu]) (by simp [hcpu])) fun j => ?_
      rw [TaskTable.modify_apply]
      split_ifs <;> exact ⟨rfl, rfl, rfl, rfl, rfl⟩

theorem ForkInv.tick (hsafe : ∀ msg, s.cpu ≠ .panicked msg) :
    ForkInv live { s with toSystem := tickAt s.toSystem } := by
  by_cases htask : ∃ p, s.cpu = .task p
  · obtain ⟨p, hcpu⟩ := htask
    obtain ⟨-, hcur, -⟩ := h.onCpu hcpu
    simp only [tickAt, hcpu]
    by_cases hdue : (s.timer + 1) % 2 ^ 64 ≤ (s.tasks p).preemptDeadline
    · rw [schedTimerTick_switch _ hcur hdue, Function.update_eq_self]
      exact h.schedule s.tasks none s.currVmem _ _ (by simp) rfl fun _ => ⟨rfl, rfl, rfl, rfl, rfl⟩
    · rw [schedTimerTick_stay _ hcur hdue]
      exact h.setTimer _
  · have hno (p : ℕ) : s.cpu ≠ .task p := fun hcpu => htask ⟨p, hcpu⟩
    have hcur := h.inSched hno hsafe
    rw [tickAt_idle hno hcur, System.wake]
    split_ifs
    · exact h.schedule s.tasks s.current s.currVmem (.examine 0 false) _ (by simp) hcur fun _ => ⟨rfl, rfl, rfl, rfl, rfl⟩
    · exact h.setTimer _

theorem ForkInv.finishWait {p c status : ℕ} (hcpu : s.cpu = .task p)
    (hpc : s.conts p = .user ∨ ∃ c st, s.conts p = .waited c st) (hz : (s.tasks c).state = .zombie)
    (hppid : (s.tasks c).ppid = p) :
    ForkInv (Forked.after live (s.finishWait p c status).1) (s.finishWait p c status).2 := by
  unfold ForkSystem.finishWait sysWaitFinish
  by_cases hbad : status ≠ 0 ∧ ¬ statusOk (s.tasks p).vmem status
  · rw [if_pos hbad]
    refine h.goUser hcpu .user (fun c v r hq => ?_) (Or.inl rfl) s.rax fun _ _ _ => rfl
    rcases hpc with heq | ⟨_, _, heq⟩
    · rw [heq] at hq
      cases hq
    · rw [heq] at hq
      cases hq
  · rw [if_neg hbad]
    exact h.reap hcpu hpc hz hppid

theorem ForkInv.step {l : ForkLabel} (hstep : CalmFork s l t) : ForkInv (Forked.after live l) t := by
  obtain ⟨hstep, hchoose, hrun⟩ := hstep
  cases hstep with
  | tick hsafe => exact h.tick hsafe
  | sched hstep => exact h.sched hstep fun i timer ha => hrun i timer (by rw [ha])
  | enter hat => exact h.goUser hat.1 .user (by simp [hat.2]) (Or.inl rfl) s.rax fun _ _ _ => rfl
  | @call p hat =>
      refine h.goUser hat.1 .choose (by simp [hat.2]) (Or.inr rfl) _ fun i hip hst => ?_
      exact Function.update_of_ne (fun heq => hip (h.apart heq (h.pid hst).2)) _ _
  | choose hat hfound => exact h.choose hat.1 hat.2 hfound (hchoose rfl)
  | cloneVmem hat => exact h.cloneVmem hat.1 hat.2
  | cloneThread hat => exact h.cloneThread hat.1 hat.2
  | cloneFails hat hnext =>
      refine h.goUser hat.1 .user (fun c v r hq => ?_) (Or.inl rfl) s.rax fun _ _ _ => rfl
      rw [hat.2] at hq
      obtain ⟨rfl, -⟩ := ForkPc.fork.inj hq
      rcases hnext with heq | heq <;> cases heq
  | setPpid hat => exact h.setPpid hat.1 hat.2
  | setState hat => exact h.setState hat.1 hat.2
  | setRax hat => exact h.setRax hat.1 hat.2
  | ret hat => exact h.ret hat.1 hat.2
  | @sleep p ms hat =>
      have hne : (s.tasks p).state ≠ .notAllocated := by simp [(h.onCpu hat.1).2.2]
      refine h.leave hat.1 .slept _ hat.2 ⟨by simp, by simp⟩ (fun i => ?_) (fun i hip => ?_) (fun hw => ?_)
        (fun hw => (by cases hw))
      · rw [sysSleep, TaskTable.modify_apply]
        split_ifs with hi
        · simp [hi, hne]
        · exact ⟨rfl, rfl, rfl, Iff.rfl⟩
      · rw [sysSleep, TaskTable.modify_of_ne _ _ hip]
        exact ⟨rfl, Or.inl rfl⟩
      · rw [sysSleep, TaskTable.modify_self] at hw
        cases hw
  | slept hat => exact h.goUser hat.1 .user (by simp [hat.2]) (Or.inl rfl) s.rax fun _ _ _ => rfl
  | exit hat => exact h.exit hat.1 hat.2
  | @exited p hat =>
      obtain ⟨-, hcur, hst⟩ := h.onCpu hat.1
      have hpanic := h.go hat.1 live .exited s.tasks s.rax s.current (.panicked "reached unreachable") (by simp [hat.2])
        ⟨by simp, by simp⟩ (Or.inr ⟨by simp, by simp⟩) (fun _ => ⟨rfl, rfl, rfl, Iff.rfl⟩)
        (fun _ _ => ⟨rfl, Or.inl rfl⟩) (fun _ _ _ => rfl) (by simp [hst]) (by simp) (fun f hf => Or.inl hf) h.distinct
      rwa [← hat.2, Function.update_eq_self] at hpanic
  | refused hat hchild hwait => exact h
  | @blocked p c st tasks hat hchild hwait =>
      have hne : (s.tasks p).state ≠ .notAllocated := by simp [(h.onCpu hat.1).2.2]
      rcases sysWait_cases s.tasks p c with ⟨-, heq⟩ | ⟨-, -, heq⟩ | ⟨-, -, heq⟩
      · rw [heq] at hwait
        cases hwait
      · rw [heq] at hwait
        obtain rfl := WaitStart.blocked.inj hwait
        refine h.leave hat.1 (.waited c st) _ hat.2 ⟨by simp, by simp⟩ (fun i => ?_) (fun i hip => ?_)
          (fun _ => ⟨c, st, rfl⟩) (fun {c' st'} hw => ?_)
        · rw [TaskTable.modify_apply]
          split_ifs with hi
          · simp [hi, hne]
          · exact ⟨rfl, rfl, rfl, Iff.rfl⟩
        · rw [TaskTable.modify_of_ne _ _ hip]
          exact ⟨rfl, Or.inl rfl⟩
        · rw [TaskTable.modify_self]
          exact ⟨rfl, (ForkPc.waited.inj hw).1⟩
      · rw [heq] at hwait
        cases hwait
  | @ready p c st hat hchild hwait =>
      have hpid : (s.tasks p).pid = p := (h.pid (by simp [(h.onCpu hat.1).2.2])).1
      rcases sysWait_cases s.tasks p c with ⟨-, heq⟩ | ⟨-, -, heq⟩ | ⟨hppid, hz, -⟩
      · rw [heq] at hwait
        cases hwait
      · rw [heq] at hwait
        cases hwait
      · exact h.finishWait hat.1 (Or.inl hat.2) hz (hppid.trans hpid)
  | @waited p c st hat hassert =>
      rcases h.waited hat.2 with ⟨hw, -⟩ | ⟨-, -, hppid⟩
      · rw [(h.onCpu hat.1).2.2] at hw
        cases hw
      · exact h.finishWait hat.1 (Or.inr ⟨c, st, hat.2⟩) hassert hppid
  | @waitPanic p c st hat hassert =>
      rcases h.waited hat.2 with ⟨hw, -⟩ | ⟨-, hz, -⟩
      · rw [(h.onCpu hat.1).2.2] at hw
        cases hw
      · exact absurd hz hassert

end Scheduler

/-! ## Children of successful calls -/

theorem unreaped_append (labels : List ForkLabel) (l : ForkLabel) :
    unreaped (labels ++ [l]) = Forked.after (unreaped labels) l := by
  simp only [unreaped, List.foldl_append, List.foldl_cons, List.foldl_nil]

theorem run_forkInv {vm : Vmem} {labels : List ForkLabel} {s : ForkSystem}
    (hrun : Run CalmFork (ForkSystem.boot vm) labels s) : ForkInv (unreaped labels) s := by
  induction hrun with
  | nil => exact ForkInv.boot vm
  | snoc _ hstep ih =>
      rw [unreaped_append]
      exact ih.step hstep

/-- A task that enters user mode for the first time returns `0`. -/
theorem ForkInv.enter_rax {live : List Forked} {s t : ForkSystem} {i r : ℕ} (h : ForkInv live s)
    (hstep : ForkStep s (.enter i r) t) : r = 0 := by
  generalize hl : ForkLabel.enter i r = l at hstep
  cases hstep with
  | @enter p hat =>
      obtain ⟨rfl, rfl⟩ := ForkLabel.enter.inj hl
      refine (h.entry hat.2 (by simp [(h.onCpu hat.1).2.2])).resolve_right ?_
      rintro ⟨q, v, r, hq⟩
      exact (h.held hq).off (by decide) hat.1
  | @ready p c st =>
      unfold ForkSystem.finishWait at hl
      simp only at hl
      split_ifs at hl
  | @waited p c st =>
      unfold ForkSystem.finishWait at hl
      simp only at hl
      split_ifs at hl
  | _ => cases hl

/-- Where neither window is hit, no two successful calls share an entry or a pid, the address
space and the kernel stack of every child are those that its own call has cloned, and every
child returns `0`. -/
theorem fork_atomic {vm : Vmem} {labels : List ForkLabel} {s : ForkSystem}
    (hrun : Run CalmFork (ForkSystem.boot vm) labels s) :
    ((unreaped labels).Pairwise fun f g => f.pid ≠ g.pid ∧ f.child ≠ g.child) ∧
    (∀ f ∈ unreaped labels,
      (s.tasks f.child).vmem.pml4 = f.vmem ∧ s.kstacks f.child = f.kstack) ∧
    ∀ i r, .enter i r ∈ labels → r = 0 := by
  have h := run_forkInv hrun
  refine ⟨?_, fun f hf => (h.own f hf).2.2, ?_⟩
  · refine h.distinct.imp_of_mem fun {f g} hf hg hne => ⟨?_, hne⟩
    rw [(h.own f hf).2.1, (h.own g hg).2.1]
    exact hne
  · clear h
    induction hrun with
    | nil => exact fun i r hmem => (by cases hmem)
    | snoc hrun hstep ih =>
        intro i r hmem
        rcases List.mem_append.mp hmem with hold | hlast
        · exact ih i r hold
        · obtain rfl := List.mem_singleton.mp hlast
          exact (run_forkInv hrun).enter_rax hstep.1

/-! Forks of two tasks, one of which is preempted in the middle of its call. -/

theorem CalmFork.of_ne {s t : ForkSystem} {l : ForkLabel} (hstep : ForkStep s l t) (hchoose : l ≠ .choose)
    (hrun : ∀ i timer, l ≠ .sched (.run i timer)) : CalmFork s l t :=
  ⟨hstep, fun heq => absurd heq hchoose, fun i timer heq => absurd heq (hrun i timer)⟩

/-- An entry that has never been chosen is chosen by no other call. -/
theorem ForkInv.calm_choose {live : List Forked} {s : ForkSystem} {p child : ℕ} {tasks : TaskTable} (h : ForkInv live s)
    (hat : s.At p .choose) (hfound : schedAllocateTask s.tasks = some (child, tasks))
    (hnew : (s.tasks child).pid ≠ child) :
    CalmFork s .choose (s.goto p (.fork .cloneVmem child 0 0) tasks) := by
  refine ⟨.choose hat hfound, fun _ q n v r _ hq => ?_, by simp⟩
  have hchild : scanTasks s.tasks (maxTaskCount - 1) 1 = child := by
    unfold schedAllocateTask at hfound
    simp only at hfound
    split_ifs at hfound
    exact (Prod.mk.inj (Option.some.inj hfound)).1
  rw [hchild] at hq
  exact hnew (h.held hq).pid

/-- A child whose call has returned may be run. -/
theorem ForkInv.calm_run {live : List Forked} {s : ForkSystem} {t : System ForkPc} {f : Forked} {timer : ℕ}
    (h : ForkInv live s) (hstep : SchedStep s.toSystem (.run f.child timer) t) (hf : f ∈ live) :
    CalmFork s (.sched (.run f.child timer)) { s with toSystem := t } := by
  refine ⟨.sched hstep, by simp, fun i timer' heq q v r hq => ?_⟩
  obtain ⟨rfl, -⟩ := Action.run.inj (ForkLabel.sched.inj heq)
  exact (h.held hq).isNew f hf rfl

theorem fork_atomic_two :
    ∃ labels s, Run CalmFork (ForkSystem.boot ⟨[], 0⟩) labels s ∧ (unreaped labels).length = 2 ∧
      .enter 2 0 ∈ labels ∧
      ((unreaped labels).Pairwise fun f g => f.pid ≠ g.pid ∧ f.child ≠ g.child) ∧
      (∀ f ∈ unreaped labels, (s.tasks f.child).vmem.pml4 = f.vmem ∧ s.kstacks f.child = f.kstack) ∧
      ∀ i r, .enter i r ∈ labels → r = 0 := by
  have h0 := @Run.nil _ _ CalmFork (ForkSystem.boot ⟨[], 0⟩)
  have h1 := h0.snoc (.of_ne (.sched (.pass rfl (by decide) (by decide))) (by simp) (by simp))
  have h2 := h1.snoc ⟨.sched (.run rfl (by decide) (by decide)), by simp, fun _ _ _ _ _ _ hq => (by cases hq)⟩
  have h3 := h2.snoc (.of_ne (@ForkStep.enter _ 1 ⟨rfl, rfl⟩) (by simp) (by simp))
  have h4 := h3.snoc (.of_ne (@ForkStep.call _ 1 ⟨rfl, rfl⟩) (by simp) (by simp))
  have h5 := h4.snoc (@ForkInv.calm_choose _ _ 1 2 _ (run_forkInv h4) ⟨rfl, rfl⟩ rfl (by decide))
  have h6 := h5.snoc (.of_ne (@ForkStep.cloneVmem _ 1 2 0 0 ⟨rfl, rfl⟩) (by simp) (by simp))
  have h7 := h6.snoc (.of_ne (@ForkStep.cloneThread _ 1 2 _ _ ⟨rfl, rfl⟩) (by simp) (by simp))
  have h8 := h7.snoc (.of_ne (@ForkStep.setPpid _ 1 2 _ _ ⟨rfl, rfl⟩) (by simp) (by simp))
  have h9 := h8.snoc (.of_ne (@ForkStep.setState _ 1 2 _ _ ⟨rfl, rfl⟩) (by simp) (by simp))
  have h10 := h9.snoc (.of_ne (@ForkStep.setRax _ 1 2 _ _ ⟨rfl, rfl⟩) (by simp) (by simp))
  have h11 := h10.snoc (.of_ne (@ForkStep.ret _ 1 2 _ _ ⟨rfl, rfl⟩) (by simp) (by simp))
  -- the second call of the first task is stopped by a tick before it returns
  have h12 := h11.snoc (.of_ne (@ForkStep.call _ 1 ⟨rfl, rfl⟩) (by simp) (by simp))
  have h13 := h12.snoc (@ForkInv.calm_choose _ _ 1 3 _ (run_forkInv h12) ⟨rfl, rfl⟩ rfl (by decide))
  have h14 := h13.snoc (.of_ne (@ForkStep.cloneVmem _ 1 3 0 0 ⟨rfl, rfl⟩) (by simp) (by simp))
  have h15 := h14.snoc (.of_ne (@ForkStep.cloneThread _ 1 3 _ _ ⟨rfl, rfl⟩) (by simp) (by simp))
  have h16 := h15.snoc (.of_ne (@ForkStep.setPpid _ 1 3 _ _ ⟨rfl, rfl⟩) (by simp) (by simp))
  have h17 := h16.snoc (.of_ne (@ForkStep.setState _ 1 3 _ _ ⟨rfl, rfl⟩) (by simp) (by simp))
  have h18 := h17.snoc (.of_ne (@ForkStep.setRax _ 1 3 _ _ ⟨rfl, rfl⟩) (by simp) (by simp))
  have h19 := h18.snoc (.of_ne (ForkStep.tick fun msg hmsg => (by cases hmsg)) (by simp) (by simp))
  have h20 := h19.snoc (.of_ne (.sched (@SchedStep.keep _ _ 1 rfl (by decide))) (by simp) (by simp))
  have h21 := h20.snoc (@ForkInv.calm_run _ _ _ ⟨2, 2, 2, 3⟩ _ (run_forkInv h20)
    (@SchedStep.run _ _ 2 true rfl (by decide) (by decide)) (List.mem_singleton_self _))
  have h22 : Run CalmFork _ (_ ++ [.enter 2 0]) _ := h21.snoc (.of_ne (@ForkStep.enter _ 2 ⟨rfl, rfl⟩) (by simp) (by simp))
  have h23 := h22.snoc (.of_ne (@ForkStep.call _ 2 ⟨rfl, rfl⟩) (by simp) (by simp))
  have h24 := h23.snoc (@ForkInv.calm_choose _ _ 2 4 _ (run_forkInv h23) ⟨rfl, rfl⟩ rfl (by decide))
  have h25 := h24.snoc (.of_ne (@ForkStep.cloneVmem _ 2 4 0 0 ⟨rfl, rfl⟩) (by simp) (by simp))
  have h26 := h25.snoc (.of_ne (@ForkStep.cloneThread _ 2 4 _ _ ⟨rfl, rfl⟩) (by simp) (by simp))
  have h27 := h26.snoc (.of_ne (@ForkStep.setPpid _ 2 4 _ _ ⟨rfl, rfl⟩) (by simp) (by simp))
  have h28 := h27.snoc (.of_ne (@ForkStep.setState _ 2 4 _ _ ⟨rfl, rfl⟩) (by simp) (by simp))
  have h29 := h28.snoc (.of_ne (@ForkStep.setRax _ 2 4 _ _ ⟨rfl, rfl⟩) (by simp) (by simp))
  have h30 := h29.snoc (.of_ne (@ForkStep.ret _ 2 4 _ _ ⟨rfl, rfl⟩) (by simp) (by simp))
  exact ⟨_, _, h30, rfl, by simp, fork_atomic h30⟩

/-- A child that is run before its return value is written returns the number of the system
call, like its parent. -/
theorem child_returns_sysno :
    ∃ labels s, Run ForkStep (ForkSystem.boot ⟨[], 0⟩) labels s ∧ .enter 2 sysForkNumber ∈ labels := by
  have h0 := @Run.nil _ _ ForkStep (ForkSystem.boot ⟨[], 0⟩)
  have h1 := h0.snoc (.sched (.pass rfl (by decide) (by decide)))
  have h2 := h1.snoc (.sched (.run rfl (by decide) (by decide)))
  have h3 := h2.snoc (@ForkStep.enter _ 1 ⟨rfl, rfl⟩)
  have h4 := h3.snoc (@ForkStep.call _ 1 ⟨rfl, rfl⟩)
  have h5 := h4.snoc (@ForkStep.choose _ 1 2 _ ⟨rfl, rfl⟩ rfl)
  have h6 := h5.snoc (@ForkStep.cloneVmem _ 1 2 0 0 ⟨rfl, rfl⟩)
  have h7 := h6.snoc (@ForkStep.cloneThread _ 1 2 _ _ ⟨rfl, rfl⟩)
  have h8 := h7.snoc (@ForkStep.setPpid _ 1 2 _ _ ⟨rfl, rfl⟩)
  have h9 := h8.snoc (@ForkStep.setState _ 1 2 _ _ ⟨rfl, rfl⟩)
  have h10 := h9.snoc (ForkStep.tick fun msg hmsg => (by cases hmsg))
  have h11 := h10.snoc (.sched (@SchedStep.keep _ _ 1 rfl (by decide)))
  have h12 := h11.snoc (.sched (@SchedStep.run _ _ 2 true rfl (by decide) (by decide)))
  have h13 := h12.snoc (@ForkStep.enter _ 2 ⟨rfl, rfl⟩)
  exact ⟨_, _, h13, List.mem_append_right _ (List.mem_singleton_self _)⟩

end HeavenOS
