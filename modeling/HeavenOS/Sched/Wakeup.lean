/-
# Waking a waiting parent

`sys_wait` and `sys_exit` statement by statement. System calls run with interrupts
enabled, so the timer may fire between any two statements and send the task to the
scheduler. `sys_wait` tests the state of the child and then writes its own state and
`wait_pid`; `sys_exit` writes its own state and then looks at the parent. A switch inside
one of these two sequences loses the wakeup, any other does no harm.
-/

import HeavenOS.Sched.System

namespace HeavenOS

open Lib

/-! ## Statements -/

/-- The place behind a call of `sched_switch`. -/
inductive Behind
  | slept
  | waited (child status : ℕ)
  | exited
  deriving DecidableEq

/-- The next statement of a task. -/
inductive Pc
  | user
  /-- `if (tasks[child_pid].ppid != sched_current()->pid)` -/
  | waitChild (child status : ℕ)
  /-- `if (tasks[child_pid].state != TASK_ZOMBIE)` -/
  | waitState (child status : ℕ)
  /-- `sched_current()->state = TASK_WAITING` -/
  | waitMark (child status : ℕ)
  /-- `sched_current()->wait_pid = child_pid` -/
  | waitPid (child status : ℕ)
  /-- The test of the status pointer and `*status = tasks[child_pid].exitcode` -/
  | waitStatus (child status : ℕ)
  /-- `tasks[child_pid].state = TASK_NOT_ALLOCATED` -/
  | waitReap (child : ℕ)
  /-- `sched_current()->exitcode = syscall_arg0(regs)` -/
  | exitCode (code : BitVec 64)
  /-- `sched_current()->state = TASK_ZOMBIE` -/
  | exitState
  /-- `if (parent->state == TASK_WAITING && parent->wait_pid == sched_current()->pid)` -/
  | exitTest
  /-- `parent->state = TASK_RUNNABLE` -/
  | exitWake (parent : ℕ)
  /-- `task_t* prev = sched_current()` in `sched_switch` -/
  | switchRead (next : Behind)
  /-- `sched_current() = NULL` -/
  | switchClear (prev : ℕ) (next : Behind)
  /-- `arch_thread_switch(&prev->arch_thread, &sched_context)` -/
  | switchGo (prev : ℕ) (next : Behind)
  | behind (place : Behind)
  deriving DecidableEq

/-- One statement of the task `p` on the processor. -/
def exec (s : System Pc) (p : ℕ) : System Pc :=
  let goto (k : Pc) (tasks : TaskTable) : System Pc :=
    { s with tasks := tasks, conts := Function.update s.conts p k }
  match s.conts p with
  | .user => s
  | .waitChild c st =>
      if (s.tasks c).ppid ≠ (s.tasks p).pid then goto .user s.tasks else goto (.waitState c st) s.tasks
  | .waitState c st =>
      if (s.tasks c).state ≠ .zombie then goto (.waitMark c st) s.tasks else goto (.waitStatus c st) s.tasks
  | .waitMark c st => goto (.waitPid c st) (s.tasks.modify p fun t => { t with state := .waiting })
  | .waitPid c st => goto (.switchRead (.waited c st)) (s.tasks.modify p fun t => { t with waitPid := c })
  | .waitStatus c st =>
      if st ≠ 0 ∧ ¬ statusOk (s.tasks p).vmem st then goto .user s.tasks else goto (.waitReap c) s.tasks
  | .waitReap c => goto .user (s.tasks.modify c fun t => { t with state := .notAllocated })
  | .exitCode code => goto .exitState (s.tasks.modify p fun t => { t with exitcode := code.truncate 32 })
  | .exitState => goto .exitTest (s.tasks.modify p fun t => { t with state := .zombie })
  | .exitTest =>
      let parent := (s.tasks p).ppid
      if (s.tasks parent).state = .waiting ∧ (s.tasks parent).waitPid = (s.tasks p).pid then
        goto (.exitWake parent) s.tasks
      else goto (.switchRead .exited) s.tasks
  | .exitWake parent =>
      goto (.switchRead .exited) (s.tasks.modify parent fun t => { t with state := .runnable })
  | .switchRead next =>
      match s.current with
      | none => { s with cpu := .panicked "assertion failed: '_current != NULL'" }
      | some prev => goto (.switchClear prev next) s.tasks
  | .switchClear prev next => { goto (.switchGo prev next) s.tasks with current := none }
  | .switchGo prev next =>
      { s with conts := Function.update s.conts prev (.behind next), cpu := .returned s.schedIndex }
  | .behind .slept => goto .user s.tasks
  | .behind (.waited c st) =>
      if (s.tasks c).state = .zombie then goto (.waitStatus c st) s.tasks
      else { s with cpu := .panicked "assertion failed: 'tasks[child_pid].state == TASK_ZOMBIE'" }
  | .behind .exited => { s with cpu := .panicked "reached unreachable" }

inductive StmtLabel
  | tick
  | sched (a : Action)
  | call
  | stmt

/-- Steps of the scheduler, timer interrupts, entries into system calls, and statements.
Forking is one step. -/
inductive StmtStep : System Pc → StmtLabel → System Pc → Prop
  | tick {s : System Pc} (hsafe : ∀ msg, s.cpu ≠ .panicked msg) : StmtStep s .tick (tickAt s)
  | sched {s t : System Pc} {a : Action} (hstep : SchedStep s a t) : StmtStep s (.sched a) t
  | wait {s : System Pc} {p child status : ℕ} (hcpu : s.cpu = .task p) (huser : s.conts p = .user)
      (hchild : child < maxTaskCount) :
      StmtStep s .call { s with conts := Function.update s.conts p (.waitChild child status) }
  | exit {s : System Pc} {p : ℕ} {code : BitVec 64} (hcpu : s.cpu = .task p) (huser : s.conts p = .user) :
      StmtStep s .call { s with conts := Function.update s.conts p (.exitCode code) }
  | sleep {s : System Pc} {p ms : ℕ} (hcpu : s.cpu = .task p) (huser : s.conts p = .user) :
      StmtStep s .call
        { s with
          tasks := sysSleep s.tasks s.timer p ms
          conts := Function.update s.conts p (.switchRead .slept) }
  | fork {s : System Pc} {p child : ℕ} {vm : Vmem} {tasks : TaskTable} (hcpu : s.cpu = .task p)
      (huser : s.conts p = .user) (hfork : sysFork s.tasks p vm = some (child, tasks)) :
      StmtStep s .call { s with tasks := tasks, conts := Function.update s.conts child .user }
  | stmt {s : System Pc} {p : ℕ} (hcpu : s.cpu = .task p) : StmtStep s .stmt (exec s p)

/-! ## Where a switch does harm -/

/-- Between the test of the child's state and the write of `wait_pid`, and between the write
of `TASK_ZOMBIE` and the end of the notification. -/
def Pc.Critical : Pc → Prop
  | .waitMark _ _ | .waitPid _ _ | .exitTest | .exitWake _ => True
  | _ => False

/-- The next tick switches to the scheduler. -/
def Preempts (s : System Pc) : Prop :=
  ∃ p, s.current = some p ∧ (s.timer + 1) % 2 ^ 64 ≤ (s.tasks p).preemptDeadline

/-- A step in which no tick switches a task that is inside one of the two sequences. -/
def CalmStep (s : System Pc) (l : StmtLabel) (t : System Pc) : Prop :=
  StmtStep s l t ∧ (∀ p, l = .tick → s.cpu = .task p → (s.conts p).Critical → ¬Preempts s)

/-! ## The invariant -/

/-- The child that a task is about to wait for, or waits for. -/
def Pc.target : Pc → Option ℕ
  | .waitMark c _ | .waitPid c _ => some c
  | .switchRead (.waited c _) | .switchClear _ (.waited c _) | .switchGo _ (.waited c _) => some c
  | .behind (.waited c _) => some c
  | _ => none

/-- The child that `sys_wait` was called for, once the caller was found to be its parent. -/
def Pc.child : Pc → Option ℕ
  | .waitState c _ | .waitStatus c _ | .waitReap c => some c
  | k => k.target

theorem Pc.critical_of_exiting {k : Pc} (hk : k = .exitTest ∨ ∃ parent, k = .exitWake parent) : k.Critical := by
  rcases hk with rfl | ⟨parent, rfl⟩ <;> trivial

theorem Pc.critical_of_waiting {k : Pc} {c st : ℕ} (hk : k = .waitMark c st ∨ k = .waitPid c st) : k.Critical := by
  rcases hk with rfl | rfl <;> trivial

structure WakeInv (s : System Pc) : Prop where
  pid : ∀ {i}, (s.tasks i).state ≠ .notAllocated → (s.tasks i).pid = i ∧ (s.tasks i).ppid ≠ i
  onCpu : ∀ {p}, s.cpu = .task p → s.schedIndex = p ∧ (s.tasks p).state ≠ .notAllocated ∧
    (s.current = some p ∨ s.current = none ∧ ∃ next, s.conts p = .switchGo p next)
  inSched : ∀ {i}, (s.cpu = .halted ∨ s.cpu = .returned i ∨ s.cpu = .torn i ∨ ∃ found, s.cpu = .examine i found) →
    s.current = none
  /-- A task is inside the two sequences only while it has the processor. -/
  critical : ∀ {p}, (s.conts p).Critical → s.cpu = .task p
  waiting : ∀ {p}, (s.tasks p).state = .waiting → ∃ c, (s.conts p).target = some c ∧
    ((s.tasks p).waitPid = c ∨ ∃ st, s.conts p = .waitPid c st)
  resumed : ∀ {p place}, s.cpu = .task p → s.conts p = .behind place → (s.tasks p).state ≠ .waiting
  exiting : ∀ {p}, s.conts p = .exitTest ∨ (∃ parent, s.conts p = .exitWake parent) → (s.tasks p).state = .zombie
  parent : ∀ {p parent}, s.conts p = .exitWake parent →
    (s.tasks p).ppid = parent ∧ (s.tasks parent).state = .waiting
  prev : ∀ {p q next}, s.conts p = .switchClear q next ∨ s.conts p = .switchGo q next → q = p
  gone : ∀ {p q next}, s.conts p = .switchGo q next → s.cpu = .task p ∧ s.current = none
  notSelf : ∀ {p c}, (s.conts p).child = some c → c ≠ p
  /-- Who waits for a child, or is about to, has not missed its exit. -/
  child : ∀ {p c}, (s.conts p).target = some c → ((s.tasks p).state = .waiting ∨ ∃ st, s.conts p = .waitMark c st) →
    (s.tasks c).ppid = p → (s.tasks c).state ≠ .zombie ∨
      s.cpu = .task c ∧ (s.conts c = .exitTest ∨ s.conts c = .exitWake p)

theorem WakeInv.boot (vm : Vmem) : WakeInv (System.boot vm Pc.user) := by
  have htask (i : ℕ) : (System.boot vm Pc.user).tasks i =
      if i = 1 then { Task.zero with pid := 1, state := .runnable, vmem := vm, vmemLive := true,
                                     kstackLive := true } else Task.zero := by
    simp only [System.boot, Function.update_apply]
  refine ⟨fun {i} hi => ?_, fun hq => (by cases hq), fun _ => rfl, fun hq => hq.elim, fun {i} hi => ?_,
    fun hq => (by cases hq), ?_, fun hq => (by cases hq), ?_, fun hq => (by cases hq), fun hq => (by cases hq),
    fun hq => (by cases hq)⟩
  · rw [htask] at hi ⊢
    split_ifs at hi ⊢ with h1
    · subst h1
      exact ⟨rfl, Nat.zero_ne_one⟩
    · exact absurd rfl hi
  · rw [htask] at hi
    split_ifs at hi
    cases hi
  · rintro i (hq | ⟨parent, hq⟩) <;> cases hq
  · rintro i q next (hq | hq) <;> cases hq

/-- Assignments to other fields keep the pids. -/
theorem modify_ids {tasks : TaskTable} {f : Task → Task} (p : ℕ)
    (hf : ∀ t : Task, (f t).pid = t.pid ∧ (f t).ppid = t.ppid) (i : ℕ) :
    (tasks.modify p f i).pid = (tasks i).pid ∧ (tasks.modify p f i).ppid = (tasks i).ppid := by
  rw [TaskTable.modify_apply]
  split_ifs
  · exact hf _
  · exact ⟨rfl, rfl⟩

section Statements

variable {s : System Pc} {p : ℕ} (h : WakeInv s) (hcpu : s.cpu = .task p)

include h hcpu

/-- The task on the processor executes a statement and goes on at `k`. -/
theorem WakeInv.goto (k : Pc) (tasks : TaskTable) (current : Option ℕ)
    (hids : ∀ i, (tasks i).pid = (s.tasks i).pid ∧ (tasks i).ppid = (s.tasks i).ppid)
    (halloc : ∀ i, (tasks i).state ≠ .notAllocated → (s.tasks i).state ≠ .notAllocated)
    (hself : (tasks p).state ≠ .notAllocated)
    (hcur : current = some p ∨ current = none ∧ ∃ next, k = .switchGo p next)
    (hother : ∀ i, i ≠ p → (tasks i).state = .waiting →
      (s.tasks i).state = .waiting ∧ (tasks i).waitPid = (s.tasks i).waitPid)
    (hzombie : ∀ i, i ≠ p → (tasks i).state = .zombie → (s.tasks i).state = .zombie)
    (hwaiting : (tasks p).state = .waiting → ∃ c, k.target = some c ∧
      ((tasks p).waitPid = c ∨ ∃ st, k = .waitPid c st))
    (hbehind : ∀ place, k ≠ .behind place)
    (hexiting : k = .exitTest ∨ (∃ parent, k = .exitWake parent) → (tasks p).state = .zombie)
    (hparent : ∀ parent, k = .exitWake parent → (s.tasks p).ppid = parent ∧ (tasks parent).state = .waiting)
    (hprev : ∀ q next, k = .switchClear q next ∨ k = .switchGo q next → q = p)
    (hgone : ∀ q next, k = .switchGo q next → current = none) (hnotSelf : ∀ c, k.child = some c → c ≠ p)
    (hchild : ∀ c, k.target = some c → ((tasks p).state = .waiting ∨ ∃ st, k = .waitMark c st) →
      (s.tasks c).ppid = p → (tasks c).state ≠ .zombie)
    (hexit : ∀ q, q ≠ p → (s.conts q).target = some p → (s.tasks q).state = .waiting → (tasks q).state = .waiting →
      (s.tasks p).ppid = q → (tasks p).state ≠ .zombie ∨ k = .exitTest ∨ k = .exitWake q) :
    WakeInv { s with tasks := tasks, current := current, conts := Function.update s.conts p k } := by
  have hat : Function.update s.conts p k p = k := Function.update_self _ _ _
  have hoff {q : ℕ} (hq : q ≠ p) : Function.update s.conts p k q = s.conts q := Function.update_of_ne hq _ _
  -- nobody else is inside the two sequences
  have hcalm {q : ℕ} (hq : q ≠ p) : ¬(s.conts q).Critical := fun hcrit =>
    hq (Cpu.task.inj ((h.critical hcrit).symm.trans hcpu))
  refine ⟨fun {i} hi => ?_, fun {q} hq => ?_, fun {i} hi => ?_, fun {q} hq => ?_, fun {q} hq => ?_,
    fun {q place} hq hplace => ?_, fun {q} hq => ?_, fun {q parent} hq => ?_, fun {q q' next} hq => ?_,
    fun {q q' next} hq => ?_, fun {q c} hq => ?_, fun {q c} htarget hwait hppid => ?_⟩
  · obtain ⟨hpid, hne⟩ := h.pid (halloc i hi)
    exact ⟨(hids i).1.trans hpid, (hids i).2 ▸ hne⟩
  · obtain rfl : p = q := Cpu.task.inj (hcpu.symm.trans hq)
    refine ⟨(h.onCpu hcpu).1, hself, ?_⟩
    simp only [hat]
    exact hcur
  · rcases hi with hi | hi | hi | ⟨found, hi⟩ <;>
    · rw [show s.cpu = _ from hi] at hcpu
      cases hcpu
  · by_cases hqp : q = p
    · rw [hqp]
      exact hcpu
    · simp only [hoff hqp] at hq
      exact h.critical hq
  · by_cases hqp : q = p
    · subst hqp
      simp only [hat]
      exact hwaiting hq
    · simp only [hoff hqp]
      obtain ⟨hold, hpid⟩ := hother q hqp hq
      rw [hpid]
      exact h.waiting hold
  · obtain rfl : p = q := Cpu.task.inj (hcpu.symm.trans hq)
    simp only [hat] at hplace
    exact absurd hplace (hbehind place)
  · by_cases hqp : q = p
    · subst hqp
      simp only [hat] at hq
      exact hexiting hq
    · simp only [hoff hqp] at hq
      exact absurd (Pc.critical_of_exiting hq) (hcalm hqp)
  · by_cases hqp : q = p
    · subst hqp
      simp only [hat] at hq
      exact ⟨(hids q).2.trans (hparent parent hq).1, (hparent parent hq).2⟩
    · simp only [hoff hqp] at hq
      exact absurd (Pc.critical_of_exiting (Or.inr ⟨_, hq⟩)) (hcalm hqp)
  · by_cases hqp : q = p
    · subst hqp
      simp only [hat] at hq
      exact hprev q' next hq
    · simp only [hoff hqp] at hq
      exact h.prev hq
  · by_cases hqp : q = p
    · subst hqp
      simp only [hat] at hq
      exact ⟨hcpu, hgone q' next hq⟩
    · simp only [hoff hqp] at hq
      exact absurd (Cpu.task.inj ((h.gone hq).1.symm.trans hcpu)) hqp
  · by_cases hqp : q = p
    · subst hqp
      simp only [hat] at hq
      exact hnotSelf c hq
    · simp only [hoff hqp] at hq
      exact h.notSelf hq
  · simp only [(hids c).2] at hppid
    by_cases hqp : q = p
    · subst hqp
      simp only [hat] at htarget hwait
      exact Or.inl (hchild c htarget hwait hppid)
    · simp only [hoff hqp] at htarget hwait
      have hwaits : (tasks q).state = .waiting := by
        refine hwait.resolve_right ?_
        rintro ⟨st, hst⟩
        exact hcalm hqp (Pc.critical_of_waiting (Or.inl hst))
      obtain ⟨hold, -⟩ := hother q hqp hwaits
      by_cases hcp : c = p
      · subst hcp
        simp only [hat]
        exact (hexit q hqp htarget hold hwaits hppid).imp_right fun hk => ⟨hcpu, hk⟩
      · left
        rcases h.child htarget (Or.inl hold) hppid with hz | ⟨hc, -⟩
        · exact fun hz' => hz (hzombie c hcp hz')
        · exact absurd (Cpu.task.inj (hc.symm.trans hcpu)) hcp

omit hcpu in
/-- Outside of the two sequences, nobody waits for the task on the processor after it has
become a zombie. -/
theorem WakeInv.not_missed (hk : s.conts p ≠ .exitTest ∧ ∀ q, s.conts p ≠ .exitWake q) {q : ℕ}
    (htarget : (s.conts q).target = some p) (hwait : (s.tasks q).state = .waiting)
    (hppid : (s.tasks p).ppid = q) : (s.tasks p).state ≠ .zombie := by
  refine (h.child htarget (Or.inl hwait) hppid).resolve_right ?_
  rintro ⟨-, hc | hc⟩
  · exact hk.1 hc
  · exact hk.2 q hc

/-- A statement that touches nothing but the place where the task goes on. -/
theorem WakeInv.move (k : Pc) (hpc : s.conts p ≠ .exitTest ∧ (∀ q, s.conts p ≠ .exitWake q) ∧
      ∀ q next, s.conts p ≠ .switchGo q next)
    (hwaiting : (s.tasks p).state ≠ .waiting) (hbehind : ∀ place, k ≠ .behind place)
    (hexiting : k ≠ .exitTest ∧ ∀ q, k ≠ .exitWake q)
    (hprev : ∀ q next, k ≠ .switchClear q next ∧ k ≠ .switchGo q next) (hnotSelf : ∀ c, k.child = some c → c ≠ p)
    (hchild : ∀ c st, k = .waitMark c st → (s.tasks c).ppid = p → (s.tasks c).state ≠ .zombie) :
    WakeInv { s with conts := Function.update s.conts p k } := by
  obtain ⟨-, hself, hcur⟩ := h.onCpu hcpu
  have hcur' : s.current = some p := hcur.resolve_right fun ⟨_, next, hnext⟩ => hpc.2.2 p next hnext
  refine h.goto hcpu k s.tasks s.current (fun _ => ⟨rfl, rfl⟩) (fun _ => id) hself (Or.inl hcur')
    (fun _ _ hi => ⟨hi, rfl⟩) (fun _ _ => id) (fun hw => absurd hw hwaiting) hbehind ?_ ?_ ?_
    (fun q next hk => absurd hk (hprev q next).2) hnotSelf ?_ ?_
  · rintro (hk | ⟨q, hk⟩)
    · exact absurd hk hexiting.1
    · exact absurd hk (hexiting.2 q)
  · exact fun q hk => absurd hk (hexiting.2 q)
  · rintro q next (hk | hk)
    · exact absurd hk (hprev q next).1
    · exact absurd hk (hprev q next).2
  · rintro c - (hw | ⟨st, hst⟩) hppid
    · exact absurd hw hwaiting
    · exact hchild c st hst hppid
  · exact fun q _ htarget hw _ hppid => Or.inl (h.not_missed ⟨hpc.1, hpc.2.1⟩ htarget hw hppid)

/-- A statement that changes the task's own entry. -/
theorem WakeInv.own (k : Pc) (f : Task → Task) (hnogo : ∀ q next, s.conts p ≠ .switchGo q next)
    (hids : ∀ t : Task, (f t).pid = t.pid ∧ (f t).ppid = t.ppid)
    (hself : (f (s.tasks p)).state ≠ .notAllocated)
    (hwaiting : (f (s.tasks p)).state = .waiting → ∃ c, k.target = some c ∧
      ((f (s.tasks p)).waitPid = c ∨ ∃ st, k = .waitPid c st))
    (hbehind : ∀ place, k ≠ .behind place)
    (hexiting : k = .exitTest ∨ (∃ parent, k = .exitWake parent) → (f (s.tasks p)).state = .zombie)
    (hparent : ∀ parent, k ≠ .exitWake parent)
    (hprev : ∀ q next, k ≠ .switchClear q next ∧ k ≠ .switchGo q next) (hnotSelf : ∀ c, k.child = some c → c ≠ p)
    (hchild : ∀ c, c ≠ p → k.target = some c → ((f (s.tasks p)).state = .waiting ∨ ∃ st, k = .waitMark c st) →
      (s.tasks c).ppid = p → (s.tasks c).state ≠ .zombie)
    (hexit : ∀ q, q ≠ p → (s.conts q).target = some p → (s.tasks q).state = .waiting → (s.tasks p).ppid = q →
      (f (s.tasks p)).state ≠ .zombie ∨ k = .exitTest) :
    WakeInv { s with tasks := s.tasks.modify p f, conts := Function.update s.conts p k } := by
  obtain ⟨-, -, hcur⟩ := h.onCpu hcpu
  have hcur' : s.current = some p := hcur.resolve_right fun ⟨_, next, hnext⟩ => hnogo p next hnext
  have hself' : s.tasks.modify p f p = f (s.tasks p) := TaskTable.modify_self _ _ _
  have hother {i : ℕ} (hi : i ≠ p) : s.tasks.modify p f i = s.tasks i := TaskTable.modify_of_ne _ _ hi
  refine h.goto hcpu k (s.tasks.modify p f) s.current (modify_ids p hids) (fun i hi => ?_) (by rwa [hself'])
    (Or.inl hcur') (fun i hi hw => ?_) (fun i hi hz => ?_) (by rwa [hself']) hbehind (by rwa [hself'])
    (fun parent hk => absurd hk (hparent parent)) ?_ (fun q next hk => absurd hk (hprev q next).2) hnotSelf (fun c htarget hw hppid => ?_)
    fun q hq htarget hold _ hppid => ?_
  · by_cases hip : i = p
    · rw [hip]
      exact (h.onCpu hcpu).2.1
    · rwa [hother hip] at hi
  · rw [hother hi] at hw ⊢
    exact ⟨hw, rfl⟩
  · rwa [hother hi] at hz
  · rintro q next (hk | hk)
    · exact absurd hk (hprev q next).1
    · exact absurd hk (hprev q next).2
  · have hcp : c ≠ p := fun heq => (h.pid (h.onCpu hcpu).2.1).2 (heq ▸ hppid)
    rw [hself'] at hw
    rw [hother hcp]
    exact hchild c hcp htarget hw hppid
  · rw [hself']
    exact (hexit q hq htarget hold hppid).imp_right Or.inl

/-- The task leaves the processor, outside of the two sequences, and will go on at `k`. -/
theorem WakeInv.leave (k : Pc) (cpu : Cpu) (current : Option ℕ) (timer : ℕ) (hnotask : ∀ q, cpu ≠ .task q)
    (hcur : (∀ msg, cpu ≠ .panicked msg) → current = none) (hpc : ¬(s.conts p).Critical) (hk : ¬k.Critical)
    (htarget : k.target = (s.conts p).target) (hchildEq : k.child = (s.conts p).child)
    (hprev : ∀ q next, k = .switchClear q next → q = p) (hgone : ∀ q next, k ≠ .switchGo q next) :
    WakeInv { s with timer := timer, current := current, conts := Function.update s.conts p k, cpu := cpu } := by
  have hat : Function.update s.conts p k p = k := Function.update_self _ _ _
  have hoff {q : ℕ} (hq : q ≠ p) : Function.update s.conts p k q = s.conts q := Function.update_of_ne hq _ _
  have hcalm (q : ℕ) : ¬(Function.update s.conts p k q).Critical := by
    by_cases hqp : q = p
    · rw [hqp, hat]
      exact hk
    · rw [hoff hqp]
      exact fun hcrit => hqp (Cpu.task.inj ((h.critical hcrit).symm.trans hcpu))
  have hsame (q : ℕ) : (Function.update s.conts p k q).target = (s.conts q).target ∧
      (Function.update s.conts p k q).child = (s.conts q).child := by
    by_cases hqp : q = p
    · rw [hqp, hat]
      exact ⟨htarget, hchildEq⟩
    · rw [hoff hqp]
      exact ⟨rfl, rfl⟩
  refine ⟨h.pid, fun {q} hq => absurd hq (hnotask q), fun {i} hi => hcur fun msg hmsg => ?_,
    fun {q} hq => absurd hq (hcalm q), fun {q} hq => ?_, fun {q place} hq _ => absurd hq (hnotask q),
    fun {q} hq => ?_, fun {q parent} hq => ?_, fun {q q' next} hq => ?_, fun {q q' next} hq => ?_,
    fun {q c} hq => ?_, fun {q c} htgt hwait hppid => ?_⟩
  · rcases hi with hi | hi | hi | ⟨found, hi⟩ <;>
    · rw [show cpu = _ from hi] at hmsg
      cases hmsg
  · obtain ⟨c, hc, hpid⟩ := h.waiting hq
    refine ⟨c, (hsame q).1.trans hc, Or.inl (hpid.resolve_right ?_)⟩
    rintro ⟨st, hst⟩
    have hcrit := Pc.critical_of_waiting (Or.inr hst)
    obtain rfl : q = p := Cpu.task.inj ((h.critical hcrit).symm.trans hcpu)
    exact hpc hcrit
  · exact absurd (Pc.critical_of_exiting hq) (hcalm q)
  · exact absurd (Pc.critical_of_exiting (Or.inr ⟨_, hq⟩)) (hcalm q)
  · by_cases hqp : q = p
    · subst hqp
      simp only [hat] at hq
      exact hprev q' next (hq.resolve_right (hgone q' next))
    · simp only [hoff hqp] at hq
      exact h.prev hq
  · by_cases hqp : q = p
    · subst hqp
      simp only [hat] at hq
      exact absurd hq (hgone q' next)
    · simp only [hoff hqp] at hq
      exact absurd (Cpu.task.inj ((h.gone hq).1.symm.trans hcpu)) hqp
  · exact h.notSelf ((hsame q).2.symm.trans hq)
  · left
    have hwaits : (s.tasks q).state = .waiting := by
      refine hwait.resolve_right ?_
      rintro ⟨st, hst⟩
      exact hcalm q (Pc.critical_of_waiting (Or.inl hst))
    refine (h.child ((hsame q).1.symm.trans htgt) (Or.inl hwaits) hppid).resolve_right ?_
    rintro ⟨hc, hex⟩
    obtain rfl : c = p := Cpu.task.inj (hc.symm.trans hcpu)
    exact hpc (Pc.critical_of_exiting (hex.imp_right fun hex => ⟨_, hex⟩))

/-- The task goes on behind a statement of `sched_switch`. -/
theorem WakeInv.along (k : Pc) (current : Option ℕ)
    (hcur : current = some p ∨ current = none ∧ ∃ next, k = .switchGo p next) (hpc : ¬(s.conts p).Critical)
    (hk : ¬k.Critical) (htarget : k.target = (s.conts p).target) (hchild : k.child = (s.conts p).child)
    (hbehind : ∀ place, k ≠ .behind place) (hgone : ∀ q next, k = .switchGo q next → current = none)
    (hprev : ∀ q next, k = .switchClear q next ∨ k = .switchGo q next → q = p) :
    WakeInv { s with current := current, conts := Function.update s.conts p k } := by
  have hexit : s.conts p ≠ .exitTest ∧ ∀ q, s.conts p ≠ .exitWake q :=
    ⟨fun heq => hpc (Pc.critical_of_exiting (Or.inl heq)),
      fun q heq => hpc (Pc.critical_of_exiting (Or.inr ⟨q, heq⟩))⟩
  refine h.goto hcpu k s.tasks current (fun _ => ⟨rfl, rfl⟩) (fun _ => id) (h.onCpu hcpu).2.1 hcur
    (fun _ _ hw => ⟨hw, rfl⟩) (fun _ _ => id) (fun hw => ?_) hbehind
    (fun hex => absurd (Pc.critical_of_exiting hex) hk)
    (fun parent hex => absurd (Pc.critical_of_exiting (Or.inr ⟨parent, hex⟩)) hk) hprev hgone
    (fun c hc => h.notSelf (hchild.symm.trans hc)) (fun c hc hw hppid => ?_)
    fun q _ hq hw _ hppid => Or.inl (h.not_missed hexit hq hw hppid)
  · obtain ⟨c, hc, hpid⟩ := h.waiting hw
    refine ⟨c, htarget.trans hc, Or.inl (hpid.resolve_right ?_)⟩
    rintro ⟨st, hst⟩
    exact hpc (Pc.critical_of_waiting (Or.inr hst))
  · have hw' : (s.tasks p).state = .waiting := by
      refine hw.resolve_right ?_
      rintro ⟨st, hst⟩
      exact hk (Pc.critical_of_waiting (Or.inl hst))
    refine (h.child (htarget.symm.trans hc) (Or.inl hw') hppid).resolve_right ?_
    rintro ⟨hc', -⟩
    obtain rfl : c = p := Cpu.task.inj (hc'.symm.trans hcpu)
    exact (h.pid (h.onCpu hcpu).2.1).2 hppid

/-- Every statement keeps the invariant. -/
theorem WakeInv.exec : WakeInv (exec s p) := by
  obtain ⟨hindex, hself, hcur⟩ := h.onCpu hcpu
  -- a task that waits is at a place where it waits for a child
  have hnot (htarget : (s.conts p).target = none) : (s.tasks p).state ≠ .waiting := fun hw => by
    obtain ⟨c, hc, -⟩ := h.waiting hw
    rw [htarget] at hc
    cases hc
  unfold HeavenOS.exec
  cases hpc : s.conts p with
  | user => exact h
  | waitChild c st =>
      have hwait := hnot (by rw [hpc]; rfl)
      simp only
      split_ifs with hppid
      · exact h.move hcpu .user (by simp [hpc]) hwait (by simp) (by simp) (by simp) (by simp [Pc.child, Pc.target]) (by simp)
      · refine h.move hcpu (.waitState c st) (by simp [hpc]) hwait (by simp) (by simp) (by simp) (fun c' hc' => ?_)
          (by simp)
        obtain rfl : c = c' := Option.some.inj hc'
        rintro rfl
        rw [not_not, (h.pid hself).1] at hppid
        exact (h.pid hself).2 hppid
  | waitState c st =>
      have hwait := hnot (by rw [hpc]; rfl)
      have hne : c ≠ p := h.notSelf (by rw [hpc]; rfl)
      simp only
      split_ifs with hstate
      · refine h.move hcpu (.waitMark c st) (by simp [hpc]) hwait (by simp) (by simp) (by simp) (fun c' hc' => ?_)
          (fun c' st' hk _ => ?_)
        · obtain rfl : c = c' := Option.some.inj hc'
          exact hne
        · obtain ⟨rfl, -⟩ := Pc.waitMark.inj hk
          exact hstate
      · refine h.move hcpu (.waitStatus c st) (by simp [hpc]) hwait (by simp) (by simp) (by simp) (fun c' hc' => ?_)
          (by simp)
        obtain rfl : c = c' := Option.some.inj hc'
        exact hne
  | waitMark c st =>
      have hne : c ≠ p := h.notSelf (by rw [hpc]; rfl)
      refine h.own hcpu (.waitPid c st) (fun t => { t with state := .waiting }) (by simp [hpc])
        (fun _ => ⟨rfl, rfl⟩) (by simp) (fun _ => ⟨c, rfl, Or.inr ⟨st, rfl⟩⟩) (by simp) (by simp) (by simp) (by simp)
        (fun c' hc' => ?_) (fun c' hne' htarget _ hppid => ?_) (fun q _ _ _ _ => Or.inl (by simp))
      · obtain rfl : c = c' := Option.some.inj hc'
        exact hne
      · obtain rfl : c = c' := Option.some.inj htarget
        refine (h.child (p := p) (by rw [hpc]; rfl) (Or.inr ⟨st, hpc⟩) hppid).resolve_right ?_
        exact fun hex => hne (Cpu.task.inj (hex.1.symm.trans hcpu))
  | waitPid c st =>
      have hne : c ≠ p := h.notSelf (by rw [hpc]; rfl)
      refine h.own hcpu (.switchRead (.waited c st)) (fun t => { t with waitPid := c }) (by simp [hpc])
        (fun _ => ⟨rfl, rfl⟩) hself (fun _ => ⟨c, rfl, Or.inl rfl⟩) (by simp) (by simp) (by simp) (by simp)
        (fun c' hc' => ?_) (fun c' hne' htarget hw hppid => ?_) (fun q _ htarget hw hppid => Or.inl ?_)
      · obtain rfl : c = c' := Option.some.inj hc'
        exact hne
      · obtain rfl : c = c' := Option.some.inj htarget
        have hw' : (s.tasks p).state = .waiting := hw.resolve_right (by simp)
        refine (h.child (p := p) (by rw [hpc]; rfl) (Or.inl hw') hppid).resolve_right ?_
        exact fun hex => hne (Cpu.task.inj (hex.1.symm.trans hcpu))
      · exact h.not_missed (by simp [hpc]) htarget hw hppid
  | waitStatus c st =>
      have hwait := hnot (by rw [hpc]; rfl)
      have hne : c ≠ p := h.notSelf (by rw [hpc]; rfl)
      simp only
      split_ifs with hstate
      · exact h.move hcpu .user (by simp [hpc]) hwait (by simp) (by simp) (by simp) (by simp [Pc.child, Pc.target]) (by simp)
      · refine h.move hcpu (.waitReap c) (by simp [hpc]) hwait (by simp) (by simp) (by simp) (fun c' hc' => ?_)
          (by simp)
        obtain rfl : c = c' := Option.some.inj hc'
        exact hne
  | waitReap c =>
      have hwait := hnot (by rw [hpc]; rfl)
      have hne : c ≠ p := h.notSelf (by rw [hpc]; rfl)
      have hcur' : s.current = some p := hcur.resolve_right (by simp [hpc])
      have happly (i : ℕ) := TaskTable.modify_apply s.tasks (fun t => { t with state := .notAllocated }) c i
      have hsame : s.tasks.modify c (fun t => { t with state := .notAllocated }) p = s.tasks p :=
        TaskTable.modify_of_ne _ _ hne.symm
      refine h.goto hcpu .user _ s.current (modify_ids c fun _ => ⟨rfl, rfl⟩) (fun i hi => ?_) (by rwa [hsame])
        (Or.inl hcur') (fun i _ hw => ?_) (fun i _ hz => ?_) (by rw [hsame]; exact fun hw => absurd hw hwait)
        (by simp) (by simp) (by simp) (by simp) (by simp) (by simp [Pc.child, Pc.target]) (by simp [Pc.target])
        fun q _ htarget hw _ hppid => Or.inl ?_
      · rw [happly] at hi
        split_ifs at hi
        · exact absurd rfl hi
        · exact hi
      · rw [happly] at hw ⊢
        split_ifs at hw ⊢
        exact ⟨hw, rfl⟩
      · rw [happly] at hz
        split_ifs at hz
        exact hz
      · rw [hsame]
        exact h.not_missed (by simp [hpc]) htarget hw hppid
  | exitCode code =>
      have hwait := hnot (by rw [hpc]; rfl)
      exact h.own hcpu .exitState (fun t => { t with exitcode := code.truncate 32 }) (by simp [hpc])
        (fun _ => ⟨rfl, rfl⟩) hself (fun hw => absurd hw hwait) (by simp) (by simp) (by simp) (by simp)
        (by simp [Pc.child, Pc.target]) (by simp [Pc.target])
        fun q _ htarget hw hppid => Or.inl (h.not_missed (by simp [hpc]) htarget hw hppid)
  | exitState =>
      exact h.own hcpu .exitTest (fun t => { t with state := .zombie }) (by simp [hpc])
        (fun _ => ⟨rfl, rfl⟩) (by simp) (by simp) (by simp) (by simp) (by simp) (by simp)
        (by simp [Pc.child, Pc.target]) (by simp [Pc.target]) fun _ _ _ _ _ => Or.inr rfl
  | exitTest =>
      have hz := h.exiting (Or.inl hpc)
      have hcur' : s.current = some p := hcur.resolve_right (by simp [hpc])
      have hpid := (h.pid hself).1
      -- the parent that waits for this task is the one that the test finds
      have hfound {q : ℕ} (htarget : (s.conts q).target = some p) (hw : (s.tasks q).state = .waiting) :
          (s.tasks q).waitPid = (s.tasks p).pid := by
        obtain ⟨c, hc, hcase⟩ := h.waiting hw
        obtain rfl : p = c := Option.some.inj (htarget.symm.trans hc)
        rw [hpid]
        refine hcase.resolve_right ?_
        rintro ⟨st, hst⟩
        have hq := h.critical (Pc.critical_of_waiting (Or.inr hst))
        obtain rfl : p = q := Cpu.task.inj (hcpu.symm.trans hq)
        rw [hpc] at hst
        cases hst
      simp only
      split_ifs with htest
      · refine h.goto hcpu (.exitWake (s.tasks p).ppid) s.tasks s.current (fun _ => ⟨rfl, rfl⟩) (fun _ => id) hself
          (Or.inl hcur') (fun _ _ hw => ⟨hw, rfl⟩) (fun _ _ => id) (by simp [hz]) (by simp) (fun _ => hz)
          (fun parent hk => ⟨Pc.exitWake.inj hk, Pc.exitWake.inj hk ▸ htest.1⟩) (by simp) (by simp) (by simp [Pc.child, Pc.target]) (by simp [Pc.target])
          fun q _ _ _ _ hppid => Or.inr (Or.inr (by rw [hppid]))
      · refine h.goto hcpu (.switchRead .exited) s.tasks s.current (fun _ => ⟨rfl, rfl⟩) (fun _ => id) hself
          (Or.inl hcur') (fun _ _ hw => ⟨hw, rfl⟩) (fun _ _ => id) (by simp [hz]) (by simp) (by simp) (by simp)
          (by simp) (by simp) (by simp [Pc.child, Pc.target]) (by simp [Pc.target]) fun q _ htarget hw _ hppid => ?_
        exact absurd ⟨hppid ▸ hw, hppid ▸ hfound htarget hw⟩ htest
  | exitWake parent =>
      have hz := h.exiting (Or.inr ⟨parent, hpc⟩)
      have hcur' : s.current = some p := hcur.resolve_right (by simp [hpc])
      obtain ⟨hppid, hwaits⟩ := h.parent hpc
      have hne : parent ≠ p := fun heq => (h.pid hself).2 (hppid.trans heq)
      have happly (i : ℕ) := TaskTable.modify_apply s.tasks (fun t => { t with state := .runnable }) parent i
      have hsame : s.tasks.modify parent (fun t => { t with state := .runnable }) p = s.tasks p :=
        TaskTable.modify_of_ne _ _ hne.symm
      refine h.goto hcpu (.switchRead .exited) _ s.current (modify_ids parent fun _ => ⟨rfl, rfl⟩) (fun i hi => ?_)
        (by rwa [hsame]) (Or.inl hcur') (fun i _ hw => ?_) (fun i _ hzi => ?_) (by rw [hsame, hz]; simp)
        (by simp) (by simp) (by simp) (by simp) (by simp) (by simp [Pc.child, Pc.target]) (by simp [Pc.target])
        fun q _ _ _ hw hq => ?_
      · rw [happly] at hi
        split_ifs at hi with hip
        · rw [hip, hwaits]
          simp
        · exact hi
      · rw [happly] at hw ⊢
        split_ifs at hw ⊢
        exact ⟨hw, rfl⟩
      · rw [happly] at hzi
        split_ifs at hzi
        exact hzi
      · rw [happly, if_pos (hq.symm.trans hppid)] at hw
        cases hw
  | switchRead next =>
      have hcur' : s.current = some p := hcur.resolve_right (by simp [hpc])
      simp only [hcur']
      exact h.along hcpu (.switchClear p next) (some p) (Or.inl rfl) (by simp [hpc, Pc.Critical])
        (by simp [Pc.Critical]) (by cases next <;> simp [hpc, Pc.target])
        (by cases next <;> simp [hpc, Pc.child, Pc.target]) (by simp) (by simp) (by simp +contextual)
  | switchClear prev next =>
      obtain rfl : prev = p := h.prev (Or.inl hpc)
      exact h.along hcpu (.switchGo prev next) none (Or.inr ⟨rfl, next, rfl⟩) (by simp [hpc, Pc.Critical])
        (by simp [Pc.Critical]) (by cases next <;> simp [hpc, Pc.target])
        (by cases next <;> simp [hpc, Pc.child, Pc.target]) (by simp) (fun _ _ _ => rfl) (by simp +contextual)
  | switchGo prev next =>
      obtain rfl : prev = p := h.prev (Or.inr hpc)
      exact h.leave hcpu (.behind next) (.returned s.schedIndex) s.current s.timer (by simp)
        (fun _ => (h.gone hpc).2) (by simp [hpc, Pc.Critical]) (by simp [Pc.Critical])
        (by cases next <;> simp [hpc, Pc.target]) (by cases next <;> simp [hpc, Pc.child, Pc.target])
        (by simp) (by simp)
  | behind place =>
      have hwait := h.resumed hcpu hpc
      have hpanic (msg : Panic) : WakeInv { s with cpu := .panicked msg } := by
        have hleave := h.leave hcpu (s.conts p) (.panicked msg) s.current s.timer (by simp) (by simp)
          (by simp [hpc, Pc.Critical]) (by simp [hpc, Pc.Critical]) rfl rfl (by simp [hpc]) (by simp [hpc])
        rwa [Function.update_eq_self] at hleave
      cases place with
      | slept =>
          exact h.move hcpu .user (by simp [hpc]) hwait (by simp) (by simp) (by simp)
            (by simp [Pc.child, Pc.target]) (by simp)
      | waited c st =>
          simp only
          split_ifs
          · refine h.move hcpu (.waitStatus c st) (by simp [hpc]) hwait (by simp) (by simp) (by simp) (fun c' hc' => ?_)
              (by simp)
            obtain rfl : c = c' := Option.some.inj hc'
            exact h.notSelf (by rw [hpc]; rfl)
          · exact hpanic _
      | exited => exact hpanic _

end Statements

section Steps

variable {s t : System Pc} (h : WakeInv s)

include h

theorem WakeInv.setTimer (timer : ℕ) : WakeInv { s with timer := timer } :=
  ⟨h.pid, h.onCpu, h.inSched, h.critical, h.waiting, h.resumed, h.exiting, h.parent, h.prev, h.gone, h.notSelf,
    h.child⟩

/-- Nobody is inside the two sequences while the scheduler has the processor. -/
theorem WakeInv.calm_of_sched (hfrom : ∀ p, s.cpu ≠ .task p) (p : ℕ) :
    ¬(s.conts p).Critical ∧ ∀ q next, s.conts p ≠ .switchGo q next :=
  ⟨fun hcrit => hfrom p (h.critical hcrit), fun _ _ hgo => hfrom p (h.gone hgo).1⟩

/-- Who waits while the scheduler has the processor has not missed anything. -/
theorem WakeInv.child_of_sched (hfrom : ∀ p, s.cpu ≠ .task p) {p c : ℕ} (htarget : (s.conts p).target = some c)
    (hwait : (s.tasks p).state = .waiting ∨ ∃ st, s.conts p = .waitMark c st) (hppid : (s.tasks c).ppid = p) :
    (s.tasks p).state = .waiting ∧ (s.tasks c).state ≠ .zombie := by
  constructor
  · refine hwait.resolve_right ?_
    rintro ⟨st, hst⟩
    exact (h.calm_of_sched hfrom p).1 (Pc.critical_of_waiting (Or.inl hst))
  · exact (h.child htarget hwait hppid).resolve_right fun hc => hfrom c hc.1

/-- A step of the scheduler that gives the processor to no task. -/
theorem WakeInv.schedule (tasks : TaskTable) (currVmem : Option ℕ) (cpu : Cpu) (timer : ℕ)
    (hfrom : ∀ p, s.cpu ≠ .task p) (hto : ∀ p, cpu ≠ .task p) (hcur : s.current = none)
    (htasks : ∀ i, (tasks i).pid = (s.tasks i).pid ∧ (tasks i).ppid = (s.tasks i).ppid ∧
      (tasks i).state = (s.tasks i).state ∧ (tasks i).waitPid = (s.tasks i).waitPid) :
    WakeInv { s with tasks := tasks, timer := timer, currVmem := currVmem, cpu := cpu } := by
  have hcalm := h.calm_of_sched hfrom
  refine ⟨fun {i} hi => ?_, fun {p} hp => absurd hp (hto p), fun _ => hcur, fun {p} hp => absurd hp (hcalm p).1,
    fun {p} hp => ?_, fun {p _} hp _ => absurd hp (hto p), fun {p} hp => absurd (Pc.critical_of_exiting hp) (hcalm p).1,
    fun {p parent} hp => absurd (Pc.critical_of_exiting (Or.inr ⟨parent, hp⟩)) (hcalm p).1, h.prev,
    fun {p q next} hp => absurd hp ((hcalm p).2 q next), h.notSelf, fun {p c} htarget hwait hppid => Or.inl ?_⟩
  · obtain ⟨hpid, hppid, hstate, -⟩ := htasks i
    simp only [hpid, hppid]
    exact h.pid (hstate ▸ hi)
  · obtain ⟨-, -, hstate, hwp⟩ := htasks p
    simp only [hwp]
    exact h.waiting (hstate.symm.trans hp)
  · simp only [(htasks c).2.2.1]
    simp only [(htasks p).2.2.1] at hwait
    exact (h.child_of_sched hfrom htarget hwait ((htasks c).2.1.symm.trans hppid)).2

/-- The scheduler gives the processor to a task. -/
theorem WakeInv.run {i : ℕ} {found : Bool} (hcpu : s.cpu = .examine i found)
    (hstate : (wakeSleeping s.tasks s.timer i i).state = .runnable) :
    WakeInv (schedSwitchTo { s with tasks := wakeSleeping s.tasks s.timer i } i) := by
  obtain ⟨hold, htasks⟩ := schedSwitchTo_tasks hstate
  generalize hs' : schedSwitchTo { s with tasks := wakeSleeping s.tasks s.timer i } i = s' at htasks
  have hcpu' : s'.cpu = .task i := by rw [← hs']; rfl
  have hcur' : s'.current = some i := by rw [← hs']; rfl
  have hindex' : s'.schedIndex = i := by rw [← hs']; rfl
  have hconts' : s'.conts = s.conts := by rw [← hs']; rfl
  have hfrom (p : ℕ) : s.cpu ≠ .task p := by simp [hcpu]
  have hcalm := h.calm_of_sched hfrom
  have halloc : (s.tasks i).state ≠ .notAllocated := by
    rcases hold with hr | ⟨hsl, -⟩
    · simp [hr]
    · simp [hsl]
  have hrun : (s'.tasks i).state = .runnable := by rw [htasks, if_pos rfl]
  have hids (j : ℕ) : (s'.tasks j).pid = (s.tasks j).pid ∧ (s'.tasks j).ppid = (s.tasks j).ppid := by
    rw [htasks]
    split_ifs with hj
    · rw [hj]
      exact ⟨rfl, rfl⟩
    · exact ⟨rfl, rfl⟩
  have hother {j : ℕ} (hj : j ≠ i) : s'.tasks j = s.tasks j := by rw [htasks, if_neg hj]
  have hwaits {j : ℕ} (hj : (s'.tasks j).state = .waiting) : s'.tasks j = s.tasks j := by
    refine hother ?_
    rintro rfl
    rw [hrun] at hj
    cases hj
  refine ⟨fun {j} hj => ?_, fun {p} hp => ?_, fun {j} hj => ?_, fun {p} hp => ?_, fun {p} hp => ?_,
    fun {p place} hp _ => ?_, fun {p} hp => ?_, fun {p parent} hp => ?_, fun {p q next} hp => ?_,
    fun {p q next} hp => ?_, fun {p c} hp => ?_, fun {p c} htarget hwait hppid => Or.inl ?_⟩
  · rw [(hids j).1, (hids j).2]
    apply h.pid
    by_cases hji : j = i
    · rw [hji]
      exact halloc
    · rwa [hother hji] at hj
  · obtain rfl : i = p := Cpu.task.inj (hcpu'.symm.trans hp)
    exact ⟨hindex', by simp [hrun], Or.inl hcur'⟩
  · rw [hcpu'] at hj
    rcases hj with hj | hj | hj | ⟨_, hj⟩ <;> cases hj
  · rw [hconts'] at hp
    exact absurd hp (hcalm p).1
  · rw [hconts', hwaits hp]
    exact h.waiting (hwaits hp ▸ hp)
  · obtain rfl : i = p := Cpu.task.inj (hcpu'.symm.trans hp)
    simp [hrun]
  · rw [hconts'] at hp
    exact absurd (Pc.critical_of_exiting hp) (hcalm p).1
  · rw [hconts'] at hp
    exact absurd (Pc.critical_of_exiting (Or.inr ⟨parent, hp⟩)) (hcalm p).1
  · rw [hconts'] at hp
    exact h.prev hp
  · rw [hconts'] at hp
    exact absurd hp ((hcalm p).2 q next)
  · rw [hconts'] at hp
    exact h.notSelf hp
  · rw [hconts'] at htarget hwait
    rw [(hids c).2] at hppid
    by_cases hci : c = i
    · rw [hci, hrun]
      simp
    · rw [hother hci]
      refine (h.child_of_sched hfrom htarget (hwait.imp_left fun hw => ?_) hppid).2
      exact hwaits hw ▸ hw

/-- The timer does no harm outside of the two sequences. -/
theorem WakeInv.tick (hsafe : ∀ msg, s.cpu ≠ .panicked msg)
    (hcalm : ∀ p, s.cpu = .task p → (s.conts p).Critical → ¬Preempts s) : WakeInv (tickAt s) := by
  -- in the scheduler the tick does nothing but end the halt
  have hidle (hfrom : ∀ p, s.cpu ≠ .task p) (hcur : s.current = none) :
      WakeInv (schedTimerTick s (s.conts s.schedIndex)).wake := by
    rw [schedTimerTick_idle _ hcur, System.wake]
    split_ifs
    · exact h.schedule s.tasks s.currVmem (.examine 0 false) _ hfrom (by simp) hcur fun _ => ⟨rfl, rfl, rfl, rfl⟩
    · exact h.setTimer _
  unfold tickAt
  cases hcpu : s.cpu with
  | task p =>
      simp only
      cases hcur : s.current with
      | none =>
          rw [schedTimerTick_idle _ hcur]
          exact h.setTimer _
      | some q =>
          obtain ⟨-, -, hcase⟩ := h.onCpu hcpu
          rw [hcur] at hcase
          obtain rfl : q = p := Option.some.inj (hcase.resolve_right (by simp))
          by_cases hdue : (s.timer + 1) % 2 ^ 64 ≤ (s.tasks q).preemptDeadline
          · have hnocrit : ¬(s.conts q).Critical := fun hcrit => hcalm q hcpu hcrit ⟨q, hcur, hdue⟩
            rw [schedTimerTick_switch _ hcur hdue]
            refine h.leave hcpu (s.conts q) _ none _ (by simp) (fun _ => rfl) hnocrit hnocrit rfl rfl
              (fun q' next hq => h.prev (Or.inl hq)) (fun q' next hgo => ?_)
            have hnone := (h.gone hgo).2
            rw [hcur] at hnone
            cases hnone
          · rw [schedTimerTick_stay _ hcur hdue]
            exact h.setTimer _
  | panicked msg => exact absurd hcpu (hsafe msg)
  | halted => exact hidle (by simp [hcpu]) (h.inSched (i := 0) (Or.inl hcpu))
  | returned i => exact hidle (by simp [hcpu]) (h.inSched (Or.inr (Or.inl hcpu)))
  | torn i => exact hidle (by simp [hcpu]) (h.inSched (Or.inr (Or.inr (Or.inl hcpu))))
  | examine i found => exact hidle (by simp [hcpu]) (h.inSched (Or.inr (Or.inr (Or.inr ⟨found, hcpu⟩))))

theorem WakeInv.sched {a : Action} (hstep : SchedStep s a t) : WakeInv t := by
  cases hstep with
  | @pass i found hcpu hi hstate =>
      rw [wakeSleeping_of_pass hstate]
      exact h.schedule s.tasks s.currVmem _ s.timer (by simp [hcpu]) (by simp)
        (h.inSched (Or.inr (Or.inr (Or.inr ⟨found, hcpu⟩)))) fun _ => ⟨rfl, rfl, rfl, rfl⟩
  | @passEnd found hcpu =>
      refine h.schedule s.tasks s.currVmem _ s.timer (by simp [hcpu]) (fun p => ?_)
        (h.inSched (Or.inr (Or.inr (Or.inr ⟨found, hcpu⟩)))) fun _ => ⟨rfl, rfl, rfl, rfl⟩
      split_ifs <;> simp
  | run hcpu hi hstate => exact h.run hcpu hstate
  | @keep i hcpu hstate =>
      exact h.schedule s.tasks s.currVmem _ s.timer (by simp [hcpu]) (by simp) (h.inSched (Or.inr (Or.inl hcpu)))
        fun _ => ⟨rfl, rfl, rfl, rfl⟩
  | @destroyVmem i hcpu hstate =>
      simp only [HeavenOS.destroyVmem, reduceCtorEq, if_false]
      refine h.schedule _ none (.torn i) s.timer (by simp [hcpu]) (by simp) (h.inSched (Or.inr (Or.inl hcpu)))
        fun j => ?_
      rw [TaskTable.modify_apply]
      split_ifs <;> exact ⟨rfl, rfl, rfl, rfl⟩
  | @destroyKstack i hcpu =>
      refine h.schedule _ s.currVmem (.examine (i + 1) true) s.timer (by simp [hcpu]) (by simp)
        (h.inSched (Or.inr (Or.inr (Or.inl hcpu)))) fun j => ?_
      rw [TaskTable.modify_apply]
      split_ifs <;> exact ⟨rfl, rfl, rfl, rfl⟩

theorem WakeInv.fork {p child : ℕ} {vm : Vmem} {tasks : TaskTable} (hcpu : s.cpu = .task p)
    (huser : s.conts p = .user) (hfork : sysFork s.tasks p vm = some (child, tasks)) :
    WakeInv { s with tasks := tasks, conts := Function.update s.conts child .user } := by
  obtain ⟨hindex, hself, hcur⟩ := h.onCpu hcpu
  obtain ⟨-, -, hfree, htasks⟩ := sysFork_spec hfork
  have hne : p ≠ child := by
    rintro rfl
    exact hself hfree
  have hat : (Function.update s.conts child Pc.user) child = .user := Function.update_self _ _ _
  have hoff {q : ℕ} (hq : q ≠ child) : Function.update s.conts child Pc.user q = s.conts q :=
    Function.update_of_ne hq _ _
  have hnew : (tasks child).state = .runnable ∧ (tasks child).pid = child ∧ (tasks child).ppid = p := by
    rw [htasks hne, TaskTable.modify_self]
    exact ⟨rfl, rfl, (h.pid hself).1⟩
  have hother {i : ℕ} (hi : i ≠ child) : tasks i = s.tasks i := by
    rw [htasks hne, TaskTable.modify_of_ne _ _ hi]
  -- the task is in user mode, so nobody is inside the two sequences
  have hcalm (q : ℕ) : ¬(Function.update s.conts child Pc.user q).Critical := by
    by_cases hq : q = child
    · rw [hq, hat]
      exact id
    · rw [hoff hq]
      intro hcrit
      obtain rfl : q = p := Cpu.task.inj ((h.critical hcrit).symm.trans hcpu)
      rw [huser] at hcrit
      exact hcrit
  have hwaits {q : ℕ} (hq : (tasks q).state = .waiting) : q ≠ child := by
    rintro rfl
    rw [hnew.1] at hq
    cases hq
  refine ⟨fun {i} hi => ?_, fun {q} hq => ?_, fun {i} hi => ?_, fun {q} hq => absurd hq (hcalm q), fun {q} hq => ?_,
    fun {q place} hq hplace => ?_, fun {q} hq => absurd (Pc.critical_of_exiting hq) (hcalm q),
    fun {q parent} hq => absurd (Pc.critical_of_exiting (Or.inr ⟨parent, hq⟩)) (hcalm q), fun {q q' next} hq => ?_,
    fun {q q' next} hq => ?_, fun {q c} hq => ?_, fun {q c} htarget hwait hppid => Or.inl ?_⟩
  · by_cases hic : i = child
    · subst hic
      exact ⟨hnew.2.1, hnew.2.2 ▸ hne⟩
    · simp only [hother hic] at hi ⊢
      exact h.pid hi
  · obtain rfl : p = q := Cpu.task.inj (hcpu.symm.trans hq)
    simp only [hother hne, hoff hne]
    exact ⟨hindex, hself, hcur⟩
  · exact h.inSched hi
  · simp only [hoff (hwaits hq), hother (hwaits hq)] at hq ⊢
    exact h.waiting hq
  · obtain rfl : p = q := Cpu.task.inj (hcpu.symm.trans hq)
    simp only [hoff hne, huser] at hplace
    cases hplace
  · by_cases hqc : q = child
    · subst hqc
      simp only [hat] at hq
      rcases hq with hq | hq <;> cases hq
    · simp only [hoff hqc] at hq
      exact h.prev hq
  · by_cases hqc : q = child
    · subst hqc
      simp only [hat] at hq
      cases hq
    · simp only [hoff hqc] at hq
      exact h.gone hq
  · by_cases hqc : q = child
    · subst hqc
      simp only [hat] at hq
      cases hq
    · simp only [hoff hqc] at hq
      exact h.notSelf hq
  · have hw : (tasks q).state = .waiting := by
      refine hwait.resolve_right ?_
      rintro ⟨st, hst⟩
      exact hcalm q (Pc.critical_of_waiting (Or.inl hst))
    by_cases hcc : c = child
    · simp [hcc, hnew.1]
    · simp only [hoff (hwaits hw)] at htarget
      simp only [hother hcc] at hppid ⊢
      refine (h.child htarget (Or.inl (hother (hwaits hw) ▸ hw)) hppid).resolve_right ?_
      rintro ⟨hc, hex⟩
      have hcrit := Pc.critical_of_exiting (hex.imp_right fun hex => ⟨_, hex⟩)
      exact hcalm c (by rwa [hoff hcc])

theorem WakeInv.step {l : StmtLabel} (hstep : CalmStep s l t) : WakeInv t := by
  obtain ⟨hstep, hcalm⟩ := hstep
  -- in user mode a task does not wait
  have huserState {p : ℕ} (huser : s.conts p = .user) : (s.tasks p).state ≠ .waiting := fun hw => by
    obtain ⟨c, hc, -⟩ := h.waiting hw
    rw [huser] at hc
    cases hc
  cases hstep with
  | tick hsafe => exact h.tick hsafe fun p => hcalm p rfl
  | sched hstep => exact h.sched hstep
  | wait hcpu huser hchild =>
      exact h.move hcpu _ (by simp [huser]) (huserState huser) (by simp) (by simp) (by simp)
        (by simp [Pc.child, Pc.target]) (by simp)
  | exit hcpu huser =>
      exact h.move hcpu _ (by simp [huser]) (huserState huser) (by simp) (by simp) (by simp)
        (by simp [Pc.child, Pc.target]) (by simp)
  | sleep hcpu huser =>
      exact h.own hcpu (.switchRead .slept) _ (by simp [huser]) (fun _ => ⟨rfl, rfl⟩) (by simp) (by simp) (by simp)
        (by simp) (by simp) (by simp) (by simp [Pc.child, Pc.target]) (by simp [Pc.target])
        fun _ _ _ _ _ => Or.inl (by simp)
  | fork hcpu huser hfork => exact h.fork hcpu huser hfork
  | stmt hcpu => exact h.exec hcpu

end Steps

/-! ## Lost wakeups -/

/-- The child is inside the notification and about to make the parent runnable. -/
def System.Notifies (s : System Pc) (c p : ℕ) : Prop :=
  s.cpu = .task c ∧ (s.conts c = .exitWake p ∨ s.conts c = .exitTest ∧ (exec s c).conts c = .exitWake p)

/-- The parent that waits for a child in its notification is the one that is notified. -/
theorem WakeInv.notifies {s : System Pc} {p c : ℕ} (h : WakeInv s) (hoff : s.cpu ≠ .task p) (hcpu : s.cpu = .task c)
    (hwait : (s.tasks p).state = .waiting) (htarget : (s.conts p).target = some c) (hppid : (s.tasks c).ppid = p)
    (hex : s.conts c = .exitTest ∨ s.conts c = .exitWake p) : s.Notifies c p := by
  refine ⟨hcpu, hex.symm.imp_right fun htest => ⟨htest, ?_⟩⟩
  have hwaitPid : (s.tasks p).waitPid = c := by
    obtain ⟨c', hc', hcase⟩ := h.waiting hwait
    obtain rfl : c = c' := Option.some.inj (htarget.symm.trans hc')
    refine hcase.resolve_right ?_
    rintro ⟨st, hst⟩
    exact hoff (h.critical (Pc.critical_of_waiting (Or.inr hst)))
  have hpid : (s.tasks c).pid = c := (h.pid (h.onCpu hcpu).2.1).1
  simp [HeavenOS.exec, htest, hppid, hwait, hwaitPid, hpid]

/-- Without a switch inside the two sequences, a parent that waits off the processor for its
child waits for a child that is not a zombie, or that notifies it right now. -/
theorem no_lost_wakeup {vm : Vmem} {labels : List StmtLabel} {s : System Pc} {p c : ℕ}
    (hrun : Run CalmStep (System.boot vm .user) labels s) (hoff : s.cpu ≠ .task p)
    (hwait : (s.tasks p).state = .waiting) (htarget : (s.conts p).target = some c)
    (hppid : (s.tasks c).ppid = p) : (s.tasks c).state ≠ .zombie ∨ s.Notifies c p := by
  have h : WakeInv s := hrun.invariant WakeInv (WakeInv.boot vm) fun _ _ _ h hstep => h.step hstep
  refine (h.child htarget (Or.inl hwait) hppid).imp_right ?_
  rintro ⟨hcpu, hex⟩
  exact h.notifies hoff hcpu hwait htarget hppid hex

/-- The first task has blocked on its child, and the child is running. -/
theorem no_lost_wakeup_child :
    ∃ labels s, Run CalmStep (System.boot ⟨[], 0⟩ Pc.user) labels s ∧ s.cpu = .task 2 ∧
      (s.tasks 1).state = .waiting ∧ ((s.tasks 2).state ≠ .zombie ∨ s.Notifies 2 1) := by
  have h0 := @Run.nil _ _ CalmStep (System.boot ⟨[], 0⟩ Pc.user)
  have h1 := h0.snoc ⟨.sched (.pass rfl (by decide) (by decide)), by simp⟩
  have h2 := h1.snoc ⟨.sched (.run rfl (by decide) (by decide)), by simp⟩
  have h3 := h2.snoc ⟨@StmtStep.fork _ 1 2 ⟨[], 0⟩ _ rfl rfl rfl, by simp⟩
  have h4 := h3.snoc ⟨@StmtStep.wait _ 1 2 0 rfl rfl (by decide), by simp⟩
  have h5 := h4.snoc ⟨@StmtStep.stmt _ 1 rfl, by simp⟩
  have h6 := h5.snoc ⟨@StmtStep.stmt _ 1 rfl, by simp⟩
  have h7 := h6.snoc ⟨@StmtStep.stmt _ 1 rfl, by simp⟩
  have h8 := h7.snoc ⟨@StmtStep.stmt _ 1 rfl, by simp⟩
  have h9 := h8.snoc ⟨@StmtStep.stmt _ 1 rfl, by simp⟩
  have h10 := h9.snoc ⟨@StmtStep.stmt _ 1 rfl, by simp⟩
  have h11 := h10.snoc ⟨@StmtStep.stmt _ 1 rfl, by simp⟩
  have h12 := h11.snoc ⟨.sched (@SchedStep.keep _ _ 1 rfl (by decide)), by simp⟩
  have h13 := h12.snoc ⟨.sched (@SchedStep.run _ _ 2 true rfl (by decide) (by decide)), by simp⟩
  exact ⟨_, _, h13, rfl, by decide, no_lost_wakeup h13 (by decide) (by decide) (by decide) (by decide)⟩

/-- The timer fires right after the child has become a zombie. The scheduler tears the child
down and never runs it again, and the parent waits for it. -/
theorem wakeup_lost :
    ∃ labels s, Run StmtStep (System.boot ⟨[], 0⟩ Pc.user) labels s ∧ s.cpu = .examine 3 true ∧
      (s.tasks 1).state = .waiting ∧ (s.conts 1).target = some 2 ∧ (s.tasks 2).ppid = 1 ∧
      (s.tasks 2).state = .zombie ∧ (s.tasks 2).kstackLive = false := by
  have h0 := @Run.nil _ _ StmtStep (System.boot ⟨[], 0⟩ Pc.user)
  have h1 := h0.snoc (.sched (.pass rfl (by decide) (by decide)))
  have h2 := h1.snoc (.sched (.run rfl (by decide) (by decide)))
  have h3 := h2.snoc (@StmtStep.fork _ 1 2 ⟨[], 0⟩ _ rfl rfl rfl)
  have h4 := h3.snoc (@StmtStep.wait _ 1 2 0 rfl rfl (by decide))
  have h5 := h4.snoc (@StmtStep.stmt _ 1 rfl)
  have h6 := h5.snoc (@StmtStep.stmt _ 1 rfl)
  have h7 := h6.snoc (@StmtStep.stmt _ 1 rfl)
  have h8 := h7.snoc (@StmtStep.stmt _ 1 rfl)
  have h9 := h8.snoc (@StmtStep.stmt _ 1 rfl)
  have h10 := h9.snoc (@StmtStep.stmt _ 1 rfl)
  have h11 := h10.snoc (@StmtStep.stmt _ 1 rfl)
  have h12 := h11.snoc (.sched (@SchedStep.keep _ _ 1 rfl (by decide)))
  have h13 := h12.snoc (.sched (@SchedStep.run _ _ 2 true rfl (by decide) (by decide)))
  have h14 := h13.snoc (@StmtStep.exit _ 2 7 rfl rfl)
  have h15 := h14.snoc (@StmtStep.stmt _ 2 rfl)
  have h16 := h15.snoc (@StmtStep.stmt _ 2 rfl)
  have h17 := h16.snoc (StmtStep.tick fun msg hmsg => (by cases hmsg))
  have h18 := h17.snoc (.sched (@SchedStep.destroyVmem _ _ 2 rfl (by decide)))
  have h19 := h18.snoc (.sched (@SchedStep.destroyKstack _ _ 2 rfl))
  exact ⟨_, _, h19, rfl, by decide, by decide, by decide, by decide, by decide⟩

end HeavenOS
