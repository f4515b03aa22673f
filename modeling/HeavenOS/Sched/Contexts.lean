/-
# Saved contexts

The context of a task is stored by `sched_switch`, whoever executes it. `sched_switch_to`
makes a task current before it leaves the stack of the scheduler, with interrupts enabled:
a tick there that ends the time slice stores the stack pointer of the scheduler as the
context of the task. Without such a tick every context points into the stack it belongs to.
-/

import HeavenOS.Sched.Machine

namespace HeavenOS

open Lib

/-! ## What is to hold -/

/-- The contexts belong to their tasks. -/
structure Machine.ContextsOwn (m : Machine) : Prop where
  /-- `arch_thread_switch(&t->arch_thread, &sched_context)` is executed on the stack of `t`. -/
  onStack : ∀ {t next rest}, m.frames = .switch next :: rest → next = .rsp0 t ∨ next = .go t → m.stack = m.kstacks t
  context : ∀ t, (m.tasks t).state ≠ .notAllocated → ∃ sp, m.ctx t = some sp ∧ sp.stack = m.kstacks t
  /-- Away from the stack of the scheduler, `sched_context` has where the scheduler was left. -/
  sched : m.stack ≠ 0 → ∃ sp, m.schedCtx = some sp ∧ m.lastSched = some sp
  user : ∀ {t rest}, m.frames = .user t :: rest →
    m.current = some t ∧ m.currVmem = some t ∧ m.cr3 = some t ∧ m.rsp0 = some (m.kstacks t)

/-- A call of `sched_switch_to` is on top. -/
def Machine.InSwitchTo (m : Machine) : Prop := ∃ n next rest, m.frames = .switchTo n next :: rest

/-- The next tick calls `sched_switch`. -/
def Machine.TickSwitches (m : Machine) : Prop :=
  ∃ p, m.current = some p ∧ (m.timer + 1) % 2 ^ 64 ≤ (m.tasks p).preemptDeadline

/-- A step that is no tick inside `sched_switch_to` that calls `sched_switch`. -/
def SafeStep (m : Machine) (l : MachineLabel) (m' : Machine) : Prop :=
  MachineStep m l m' ∧ (l = .tick → m.InSwitchTo → ¬m.TickSwitches)

/-! ## Shapes of a stack -/

namespace Call

/-- The entry that `sys_fork` has chosen. -/
def child : Call → Option ℕ
  | .forkVmem c | .forkThread c | .forkPpid c | .forkState c | .forkRax c => some c
  | _ => none

/-- The entry that is to become runnable, and has a context by now. -/
def made : Call → Option ℕ
  | .forkPpid c | .forkState c | .exitWake c => some c
  | _ => none

/-- The child that `sys_wait` was called for, once the caller was found to be its parent. -/
def waits : Call → Option ℕ
  | .waitState c _ | .waitMark c _ | .waitPid c _ | .waited c _ | .waitStatus c _ | .waitReap c => some c
  | _ => none

/-- The call is inside `sched_switch` before this statement. -/
def Behind : Call → Prop
  | .slept | .exited | .waited _ _ => True
  | _ => False

end Call

namespace Machine

/-- The entry has been chosen by `sys_fork`, or belongs to the first task. -/
def Named (m : Machine) (i : ℕ) : Prop := 1 ≤ i ∧ (m.tasks i).pid = i

/-- What a call of the task `p` relies on about other entries. -/
structure CallOk (m : Machine) (p : ℕ) (call : Call) : Prop where
  child : ∀ {c}, call.child = some c → c ≠ p ∧ m.Named c
  made : ∀ {c}, call.made = some c → m.Named c ∧ (m.ctx c).isSome
  waits : ∀ {c}, call.waits = some c → c ≠ p

/-- The stack of the task `p` when it can go on with interrupts enabled: user mode or a system
call, maybe inside `sched_switch`, under handlers on their way back. -/
inductive Resumable (m : Machine) (p : ℕ) : List Frame → Prop
  | user : Resumable m p [.user p]
  | call {call : Call} (hcall : m.CallOk p call) : Resumable m p [.call call, .user p]
  | switch {call : Call} {next : Switch} (hcall : m.CallOk p call) (hbehind : call.Behind)
      (hnext : next = .check ∨ next = .read ∨ next = .clear p ∨ next = .ret) :
      Resumable m p [.switch next, .call call, .user p]
  | irq {frames : List Frame} (h : Resumable m p frames) : Resumable m p (.tick .iret :: frames)
  | irqSwitch {frames : List Frame} (h : Resumable m p frames) :
      Resumable m p (.switch .ret :: .tick .iret :: frames)

/-- The stack of a task that waits for the processor. -/
def Suspended (frames : List Frame) : Prop := ∃ rest, frames = .switch .ret :: rest ∨ frames = .tick .iret :: rest

/-- Inside `arch_thread_switch` in `sched_switch`. -/
inductive Leaving (m : Machine) (p : ℕ) : Bool → List Frame → Prop
  | call {intr : Bool} {call : Call} {next : Switch} (hcall : m.CallOk p call) (hbehind : call.Behind)
      (hnext : next = .rsp0 p ∨ next = .go p) : Leaving m p intr [.switch next, .call call, .user p]
  | irq {frames : List Frame} {next : Switch} (h : Resumable m p frames) (hnext : next = .rsp0 p ∨ next = .go p) :
      Leaving m p false (.switch next :: .tick .iret :: frames)

/-- The task `p` has the processor. -/
inductive OnTask (m : Machine) (p : ℕ) : Prop
  | resumed (hcur : m.current = some p) (h : m.Resumable p m.frames)
  | handler {next : Tick} {frames : List Frame} (hcur : m.current = some p) (hintr : m.intr = false)
      (hframes : m.frames = .tick next :: frames) (h : m.Resumable p frames)
  | switching {next : Switch} {frames : List Frame} (hcur : m.current = some p) (hintr : m.intr = false)
      (hframes : m.frames = .switch next :: .tick .iret :: frames)
      (hnext : next = .check ∨ next = .read ∨ next = .clear p) (h : m.Resumable p frames)
  | leaving (hcur : m.current = none) (h : m.Leaving p m.intr m.frames)
  | leavingHandler {next : Tick} {frames : List Frame} (hcur : m.current = none) (hintr : m.intr = false)
      (hframes : m.frames = .tick next :: frames) (hnext : next ≠ .deadline) (h : m.Leaving p true frames)

/-- What belongs to the task on the processor. -/
structure TaskCpu (m : Machine) (p : ℕ) : Prop where
  onTask : m.OnTask p
  stack : m.stack = m.kstacks p
  state : (m.tasks p).state ≠ .notAllocated
  inTable : p < maxTaskCount
  sched : m.schedCtx = some ⟨0, [.switchTo p .ret, .loop (.found p)]⟩ ∧ m.lastSched = m.schedCtx
  space : m.currVmem = some p ∧ m.cr3 = some p
  rsp0 : m.current = some p → m.rsp0 = some (m.kstacks p)

/-- How far `sched_switch_to(n)` has come. -/
structure Switched (m : Machine) (n : ℕ) (next : SwitchTo) : Prop where
  cr3 : next = .currVmem ∨ next = .rsp0 ∨ next = .go → m.cr3 = some n
  currVmem : next = .rsp0 ∨ next = .go → m.currVmem = some n
  rsp0 : next = .go → m.rsp0 = some (m.kstacks n)

/-- What the scheduler loop relies on about the entry that it examines. -/
structure LoopOk (m : Machine) (next : Loop) : Prop where
  inTable : ∀ {i found}, next = .sleeping i found ∨ next = .wake i found ∨ next = .runnable i found → i < maxTaskCount
  wake : ∀ {i found}, next = .wake i found → (m.tasks i).state ≠ .notAllocated

/-- The calls in progress on the stack of the scheduler, without a handler. -/
inductive Scheduling (m : Machine) : List Frame → Prop
  | loop {next : Loop} (hcur : m.current = none) (hnext : m.LoopOk next) : Scheduling m [.loop next]
  | enter {n : ℕ} (hcur : m.current = none) (hn : n < maxTaskCount) (hstate : (m.tasks n).state ≠ .notAllocated) :
      Scheduling m [.switchTo n .current, .loop (.found n)]
  | going {n : ℕ} {next : SwitchTo} (hcur : m.current = some n) (hn : n < maxTaskCount)
      (hstate : (m.tasks n).state ≠ .notAllocated) (hnext : next ≠ .current ∧ next ≠ .ret)
      (hdone : m.Switched n next) : Scheduling m [.switchTo n next, .loop (.found n)]
  | back {n : ℕ} (hcur : m.current = none) : Scheduling m [.switchTo n .ret, .loop (.found n)]

/-- A handler on the stack of the scheduler will not call `sched_switch`. -/
def Passes (m : Machine) (next : Tick) : Prop :=
  match m.current, next with
  | none, next => next ≠ .deadline
  | some n, .count => ¬(m.timer + 1) % 2 ^ 64 ≤ (m.tasks n).preemptDeadline
  | some n, .test | some n, .deadline => ¬m.timer ≤ (m.tasks n).preemptDeadline
  | some _, .iret => True

/-- What the processor is doing. -/
inductive OnCpu (m : Machine) : Prop
  | stopped (hframes : m.frames = [])
  | sched (hstack : m.stack = 0) (h : m.Scheduling m.frames)
  | handler {next : Tick} {frames : List Frame} (hstack : m.stack = 0) (hintr : m.intr = false)
      (hframes : m.frames = .tick next :: frames) (hpasses : m.Passes next) (h : m.Scheduling frames)
  | task {p : ℕ} (h : m.TaskCpu p)

/-! ## The invariant -/

structure CtxInv (m : Machine) : Prop where
  pid : ∀ {i}, (m.tasks i).state ≠ .notAllocated → m.Named i ∧ (m.ctx i).isSome
  ppid : ∀ {i}, 1 ≤ i → (m.tasks i).ppid ≠ i
  ctx : ∀ {i sp}, m.ctx i = some sp → sp.stack = m.kstacks i ∧ m.Resumable i sp.frames ∧ Suspended sp.frames
  sched : m.stack ≠ 0 → ∃ sp, m.schedCtx = some sp ∧ m.lastSched = some sp
  cpu : m.OnCpu

section Keeps

variable {m m' : Machine} {p : ℕ}

theorem withCurrent_some (hcur : m.current = some p) (f : ℕ → Machine) : m.withCurrent f = f p := by
  rw [withCurrent, hcur]

theorem CallOk.mono {call : Call} (h : m.CallOk p call) (hnamed : ∀ i, m.Named i → m'.Named i)
    (hmade : ∀ i, (m.ctx i).isSome → (m'.ctx i).isSome) : m'.CallOk p call :=
  ⟨fun hc => ⟨(h.child hc).1, hnamed _ (h.child hc).2⟩,
    fun hc => ⟨hnamed _ (h.made hc).1, hmade _ (h.made hc).2⟩, h.waits⟩

/-- A call that is about no other entry. -/
theorem CallOk.plain {call : Call} (hchild : call.child = none) (hmade : call.made = none)
    (hwaits : call.waits = none) : m.CallOk p call where
  child hc := by
    rw [hchild] at hc
    cases hc
  made hc := by
    rw [hmade] at hc
    cases hc
  waits hc := by
    rw [hwaits] at hc
    cases hc

theorem CallOk.wait {call : Call} {c : ℕ} (hne : c ≠ p) (hchild : call.child = none) (hmade : call.made = none)
    (hwaits : call.waits = some c) : m.CallOk p call where
  child hc := by
    rw [hchild] at hc
    cases hc
  made hc := by
    rw [hmade] at hc
    cases hc
  waits hc := by
    rw [hwaits] at hc
    rwa [← Option.some.inj hc]

theorem Resumable.mono {frames : List Frame} (h : m.Resumable p frames) (hnamed : ∀ i, m.Named i → m'.Named i)
    (hmade : ∀ i, (m.ctx i).isSome → (m'.ctx i).isSome) : m'.Resumable p frames := by
  induction h with
  | user => exact .user
  | call hcall => exact .call (hcall.mono hnamed hmade)
  | switch hcall hbehind hnext => exact .switch (hcall.mono hnamed hmade) hbehind hnext
  | irq _ ih => exact .irq ih
  | irqSwitch _ ih => exact .irqSwitch ih

theorem Leaving.mono {intr : Bool} {frames : List Frame} (h : m.Leaving p intr frames)
    (hnamed : ∀ i, m.Named i → m'.Named i) (hmade : ∀ i, (m.ctx i).isSome → (m'.ctx i).isSome) :
    m'.Leaving p intr frames := by
  cases h with
  | call hcall hbehind hnext => exact .call (hcall.mono hnamed hmade) hbehind hnext
  | irq hres hnext => exact .irq (hres.mono hnamed hmade) hnext

/-- What every step does to the table and to the contexts. -/
structure Keeps (m m' : Machine) : Prop where
  named : ∀ i, m.Named i → m'.Named i
  made : ∀ i, (m.ctx i).isSome → (m'.ctx i).isSome
  alloc : ∀ {i}, (m'.tasks i).state ≠ .notAllocated →
    (m.tasks i).state ≠ .notAllocated ∨ m.Named i ∧ (m.ctx i).isSome
  ppid : ∀ {i}, 1 ≤ i → (m'.tasks i).ppid ≠ i
  ctx : ∀ {i sp}, m'.ctx i = some sp →
    m.ctx i = some sp ∧ m'.kstacks i = m.kstacks i ∨
      sp.stack = m'.kstacks i ∧ m.Resumable i sp.frames ∧ Suspended sp.frames

/-- The invariant behind such a step. -/
theorem CtxInv.keep (h : m.CtxInv) (hkeeps : Keeps m m')
    (hsched : m'.stack ≠ 0 → ∃ sp, m'.schedCtx = some sp ∧ m'.lastSched = some sp) (hcpu : m'.OnCpu) : m'.CtxInv where
  pid := by
    intro i hi
    have hold : m.Named i ∧ (m.ctx i).isSome := (hkeeps.alloc hi).elim h.pid id
    exact ⟨hkeeps.named i hold.1, hkeeps.made i hold.2⟩
  ppid := hkeeps.ppid
  ctx := by
    intro i sp hsp
    rcases hkeeps.ctx hsp with ⟨hold, hstack⟩ | ⟨hstack, hres, hsusp⟩
    · obtain ⟨hs, hres, hsusp⟩ := h.ctx hold
      exact ⟨hs.trans hstack.symm, hres.mono hkeeps.named hkeeps.made, hsusp⟩
    · exact ⟨hstack, hres.mono hkeeps.named hkeeps.made, hsusp⟩
  sched := hsched
  cpu := hcpu

/-- Assignments to the table that leave the contexts alone. -/
theorem CtxInv.keeps (h : m.CtxInv) (hctx : m'.ctx = m.ctx) (hkstacks : m'.kstacks = m.kstacks)
    (hids : ∀ i, (m'.tasks i).pid = (m.tasks i).pid ∧ (m'.tasks i).ppid = (m.tasks i).ppid)
    (hstate : ∀ i, (m'.tasks i).state ≠ .notAllocated →
      (m.tasks i).state ≠ .notAllocated ∨ m.Named i ∧ (m.ctx i).isSome) : Keeps m m' where
  named i hi := ⟨hi.1, (hids i).1.trans hi.2⟩
  made i hi := by rwa [hctx]
  alloc hi := hstate _ hi
  ppid hi := by
    rw [(hids _).2]
    exact h.ppid hi
  ctx hsp := Or.inl ⟨hctx ▸ hsp, by rw [hkstacks]⟩

/-- A panic. -/
theorem CtxInv.stop (h : m.CtxInv) (msg : Panic) : (m.stop msg).CtxInv :=
  h.keep (h.keeps rfl rfl (fun _ => ⟨rfl, rfl⟩) fun _ => Or.inl) h.sched (.stopped rfl)

end Keeps

/-! ## Steps of a task -/

section Task

variable {m : Machine} {p : ℕ} (h : m.CtxInv) (hp : m.TaskCpu p)

include h hp

/-- The task on the processor goes on, and is current. -/
theorem CtxInv.goOn (hcur : m.current = some p) {frames : List Frame} (tasks : TaskTable) (intr : Bool)
    (hids : ∀ i, (tasks i).pid = (m.tasks i).pid ∧ (tasks i).ppid = (m.tasks i).ppid)
    (hstate : ∀ i, (tasks i).state ≠ .notAllocated →
      (m.tasks i).state ≠ .notAllocated ∨ m.Named i ∧ (m.ctx i).isSome)
    (hself : (tasks p).state ≠ .notAllocated) (hres : m.Resumable p frames) :
    CtxInv { m with tasks := tasks, intr := intr, frames := frames } := by
  have hkeeps : Keeps m { m with tasks := tasks, intr := intr, frames := frames } :=
    h.keeps rfl rfl hids hstate
  refine h.keep hkeeps h.sched (.task (p := p) ⟨?_, hp.stack, hself, hp.inTable, hp.sched, hp.space, hp.rsp0⟩)
  exact .resumed hcur (hres.mono hkeeps.named hkeeps.made)

/-- It goes on without having written to the table. -/
theorem CtxInv.goTo (hcur : m.current = some p) {frames : List Frame} (intr : Bool) (hres : m.Resumable p frames) :
    CtxInv { m with intr := intr, frames := frames } :=
  h.goOn hp hcur m.tasks intr (fun _ => ⟨rfl, rfl⟩) (fun _ => Or.inl) hp.state hres

/-- A statement that assigns to one entry of the table. -/
theorem CtxInv.assign (hcur : m.current = some p) {frames : List Frame} (i : ℕ) (f : Task → Task)
    (hids : ∀ t : Task, (f t).pid = t.pid ∧ (f t).ppid = t.ppid)
    (hstate : (f (m.tasks i)).state ≠ .notAllocated →
      (m.tasks i).state ≠ .notAllocated ∨ m.Named i ∧ (m.ctx i).isSome)
    (hself : i = p → (f (m.tasks i)).state ≠ .notAllocated) (hres : m.Resumable p frames) :
    CtxInv { m with tasks := m.tasks.modify i f, frames := frames } := by
  refine h.goOn hp hcur (m.tasks.modify i f) m.intr (fun j => ?_) (fun j hj => ?_) ?_ hres
  · rw [TaskTable.modify_apply]
    split_ifs
    · exact hids _
    · exact ⟨rfl, rfl⟩
  · rw [TaskTable.modify_apply] at hj
    split_ifs at hj with hji
    · subst hji
      exact hstate hj
    · exact Or.inl hj
  · rw [TaskTable.modify_apply]
    split_ifs with hpi
    · subst hpi
      exact hself rfl
    · exact hp.state

/-- `sys_fork` chooses an entry. -/
theorem CtxInv.choose (hcur : m.current = some p) {m' : Machine}
    (hexec : m.execCall [.user p] .forkChoose = some m') : m'.CtxInv := by
  unfold Machine.execCall at hexec
  simp only at hexec
  cases hfound : schedAllocateTask m.tasks with
  | none =>
      rw [hfound] at hexec
      exact Option.some.inj hexec ▸ h.stop _
  | some found =>
      obtain ⟨c, tasks⟩ := found
      rw [hfound] at hexec
      obtain ⟨hpos, -, hfree, rfl⟩ := schedAllocateTask_spec hfound
      have hne : c ≠ p := by
        rintro rfl
        exact hp.state hfree
      have htask (i : ℕ) : (m.tasks.modify c fun t => { t with pid := c }) i =
          if i = c then { m.tasks i with pid := c } else m.tasks i := TaskTable.modify_apply _ _ _ _
      have hkeeps : Keeps m ({ m with tasks := m.tasks.modify c fun t => { t with pid := c } }.goto
          [.call (.forkVmem c), .user p]) := by
        refine ⟨fun i hi => ⟨hi.1, ?_⟩, fun _ => id, fun {i} hi => ?_, fun {i} hi => ?_, fun hsp => Or.inl ⟨hsp, rfl⟩⟩
        · show ((m.tasks.modify c fun t => { t with pid := c }) i).pid = i
          rw [htask]
          split_ifs with hic
          · exact hic.symm
          · exact hi.2
        · change ((m.tasks.modify c fun t => { t with pid := c }) i).state ≠ _ at hi
          rw [htask] at hi
          split_ifs at hi
          · exact Or.inl hi
          · exact Or.inl hi
        · show ((m.tasks.modify c fun t => { t with pid := c }) i).ppid ≠ i
          rw [htask]
          split_ifs
          · exact h.ppid hi
          · exact h.ppid hi
      have hnamed : Named ({ m with tasks := m.tasks.modify c fun t => { t with pid := c } }.goto
          [.call (.forkVmem c), .user p]) c := by
        refine ⟨hpos, ?_⟩
        show ((m.tasks.modify c fun t => { t with pid := c }) c).pid = c
        rw [TaskTable.modify_self]
      refine Option.some.inj hexec ▸ h.keep hkeeps h.sched
        (.task (p := p) ⟨.resumed hcur (.call ⟨fun hc => ?_, fun hc => (by cases hc), fun hc => (by cases hc)⟩), hp.stack,
          ?_, hp.inTable, hp.sched, hp.space, hp.rsp0⟩)
      · obtain rfl := Option.some.inj hc
        exact ⟨hne, hnamed⟩
      · show ((m.tasks.modify c fun t => { t with pid := c }) p).state ≠ _
        rw [TaskTable.modify_of_ne _ _ hne.symm]
        exact hp.state

/-- The child gets its parent, which is another task. -/
theorem CtxInv.setPpid (hcur : m.current = some p) {c : ℕ} (hchild : c ≠ p ∧ m.Named c)
    (hmade : m.Named c ∧ (m.ctx c).isSome) :
    CtxInv ({ m with tasks := m.tasks.modify c fun t => { t with ppid := (m.tasks p).pid } }.goto
      [.call (.forkState c), .user p]) := by
  obtain ⟨⟨-, hpid⟩, -⟩ := h.pid hp.state
  have htask (i : ℕ) : (m.tasks.modify c fun t => { t with ppid := (m.tasks p).pid }) i =
      if i = c then { m.tasks i with ppid := p } else m.tasks i := by
    rw [TaskTable.modify_apply, hpid]
  have hkeeps : Keeps m ({ m with tasks := m.tasks.modify c fun t => { t with ppid := (m.tasks p).pid } }.goto
      [.call (.forkState c), .user p]) := by
    refine ⟨fun i hi => ⟨hi.1, ?_⟩, fun _ => id, fun {i} hi => ?_, fun {i} hi => ?_, fun hsp => Or.inl ⟨hsp, rfl⟩⟩
    · show ((m.tasks.modify c fun t => { t with ppid := (m.tasks p).pid }) i).pid = i
      rw [htask]
      split_ifs
      · exact hi.2
      · exact hi.2
    · change ((m.tasks.modify c fun t => { t with ppid := (m.tasks p).pid }) i).state ≠ _ at hi
      rw [htask] at hi
      split_ifs at hi
      · exact Or.inl hi
      · exact Or.inl hi
    · show ((m.tasks.modify c fun t => { t with ppid := (m.tasks p).pid }) i).ppid ≠ i
      rw [htask]
      split_ifs with hic
      · rw [hic]
        exact hchild.1.symm
      · exact h.ppid hi
  refine h.keep hkeeps h.sched (.task (p := p) ⟨.resumed hcur (.call ?_), hp.stack, ?_, hp.inTable, hp.sched, hp.space,
    hp.rsp0⟩)
  · refine CallOk.mono (m := m) ⟨fun hc => ?_, fun hc => ?_, fun hc => (by cases hc)⟩ hkeeps.named hkeeps.made
    · obtain rfl := Option.some.inj hc
      exact hchild
    · obtain rfl := Option.some.inj hc
      exact hmade
  · show ((m.tasks.modify c fun t => { t with ppid := (m.tasks p).pid }) p).state ≠ _
    rw [TaskTable.modify_of_ne _ _ hchild.1.symm]
    exact hp.state

/-- The next statement of a system call. -/
theorem CtxInv.execCall (hcur : m.current = some p) {call : Call} (hcall : m.CallOk p call) {m' : Machine}
    (hexec : m.execCall [.user p] call = some m') : m'.CtxInv := by
  have hcallTo {call' : Call} (hcall' : m.CallOk p call') : CtxInv (m.goto [.call call', .user p]) :=
    h.goTo hp hcur m.intr (.call hcall')
  have hswitch {call' : Call} (hcall' : m.CallOk p call') (hbehind : call'.Behind) :
      m.Resumable p [.switch .check, .call call', .user p] :=
    .switch hcall' hbehind (Or.inl rfl)
  cases call with
  | getpid =>
      simp only [Machine.execCall, withCurrent_some hcur, goto, Option.some.injEq] at hexec
      subst hexec
      exact hcallTo (.plain rfl rfl rfl)
  | sleepUntil ms =>
      simp only [Machine.execCall, withCurrent_some hcur, goto, Option.some.injEq] at hexec
      subst hexec
      exact h.assign hp hcur p _ (fun _ => ⟨rfl, rfl⟩) (fun _ => Or.inl hp.state) (fun _ => hp.state) (.call (.plain rfl rfl rfl))
  | sleepState =>
      simp only [Machine.execCall, withCurrent_some hcur, goto, Option.some.injEq] at hexec
      subst hexec
      exact h.assign hp hcur p _ (fun _ => ⟨rfl, rfl⟩) (fun _ => Or.inl hp.state) (fun _ => by simp) (hswitch (.plain rfl rfl rfl) trivial)
  | slept =>
      simp only [Machine.execCall, goto, Option.some.injEq] at hexec
      subst hexec
      exact hcallTo (.plain rfl rfl rfl)
  | forkChoose => exact h.choose hp hcur hexec
  | forkVmem c => cases hexec
  | forkThread c => cases hexec
  | forkPpid c =>
      simp only [Machine.execCall, withCurrent_some hcur, goto, Option.some.injEq] at hexec
      subst hexec
      exact h.setPpid hp hcur (hcall.child rfl) (hcall.made rfl)
  | forkState c =>
      simp only [Machine.execCall, goto, Option.some.injEq] at hexec
      obtain ⟨hne, hnamed⟩ := hcall.child (c := c) rfl
      subst hexec
      exact h.assign hp hcur c _ (fun _ => ⟨rfl, rfl⟩) (fun _ => Or.inr (hcall.made rfl))
        (fun heq => absurd heq hne) (.call ⟨fun hc => hcall.child hc, fun hc => (by cases hc), fun hc => (by cases hc)⟩)
  | forkRax c =>
      simp only [Machine.execCall, goto, Option.some.injEq] at hexec
      subst hexec
      exact hcallTo (.plain rfl rfl rfl)
  | exitCode code =>
      simp only [Machine.execCall, withCurrent_some hcur, goto, Option.some.injEq] at hexec
      subst hexec
      exact h.assign hp hcur p _ (fun _ => ⟨rfl, rfl⟩) (fun _ => Or.inl hp.state) (fun _ => hp.state) (.call (.plain rfl rfl rfl))
  | exitState =>
      simp only [Machine.execCall, withCurrent_some hcur, goto, Option.some.injEq] at hexec
      subst hexec
      exact h.assign hp hcur p _ (fun _ => ⟨rfl, rfl⟩) (fun _ => Or.inl hp.state) (fun _ => by simp) (.call (.plain rfl rfl rfl))
  | exitTest =>
      simp only [Machine.execCall, withCurrent_some hcur, goto, Option.some.injEq] at hexec
      split_ifs at hexec with hwake
      · subst hexec
        refine hcallTo ⟨fun hc => (by cases hc), fun hc => ?_, fun hc => (by cases hc)⟩
        obtain rfl := Option.some.inj hc
        exact h.pid (by rw [hwake.1]; simp)
      · subst hexec
        exact h.goTo hp hcur m.intr (hswitch (.plain rfl rfl rfl) trivial)
  | exitWake parent =>
      simp only [Machine.execCall, goto, Option.some.injEq] at hexec
      subst hexec
      exact h.assign hp hcur parent _ (fun _ => ⟨rfl, rfl⟩) (fun _ => Or.inr (hcall.made rfl))
        (fun _ => by simp) (hswitch (.plain rfl rfl rfl) trivial)
  | exited =>
      simp only [Machine.execCall, Option.some.injEq] at hexec
      subst hexec
      exact h.stop _
  | waitChild c st =>
      simp only [Machine.execCall, withCurrent_some hcur, goto, Option.some.injEq] at hexec
      split_ifs at hexec with hppid
      · subst hexec
        exact hcallTo (.plain rfl rfl rfl)
      · subst hexec
        refine hcallTo (.wait (c := c) ?_ rfl rfl rfl)
        rintro rfl
        obtain ⟨⟨hpos, hpid⟩, -⟩ := h.pid hp.state
        exact h.ppid hpos ((not_not.mp hppid).trans hpid)
  | waitState c st =>
      simp only [Machine.execCall, goto] at hexec
      split_ifs at hexec
      · obtain rfl := Option.some.inj hexec
        exact hcallTo (.wait (hcall.waits rfl) rfl rfl rfl)
      · obtain rfl := Option.some.inj hexec
        exact hcallTo (.wait (hcall.waits rfl) rfl rfl rfl)
  | waitMark c st =>
      simp only [Machine.execCall, withCurrent_some hcur, goto, Option.some.injEq] at hexec
      subst hexec
      exact h.assign hp hcur p _ (fun _ => ⟨rfl, rfl⟩) (fun _ => Or.inl hp.state) (fun _ => by simp)
        (.call (.wait (hcall.waits rfl) rfl rfl rfl))
  | waitPid c st =>
      simp only [Machine.execCall, withCurrent_some hcur, goto, Option.some.injEq] at hexec
      subst hexec
      exact h.assign hp hcur p _ (fun _ => ⟨rfl, rfl⟩) (fun _ => Or.inl hp.state) (fun _ => hp.state)
        (hswitch (.wait (hcall.waits rfl) rfl rfl rfl) trivial)
  | waited c st =>
      simp only [Machine.execCall, goto] at hexec
      split_ifs at hexec
      · obtain rfl := Option.some.inj hexec
        exact hcallTo (.wait (hcall.waits rfl) rfl rfl rfl)
      · obtain rfl := Option.some.inj hexec
        exact h.stop _
  | waitStatus c st =>
      simp only [Machine.execCall, withCurrent_some hcur, goto, Option.some.injEq] at hexec
      split_ifs at hexec
      · subst hexec
        exact hcallTo (.plain rfl rfl rfl)
      · subst hexec
        exact hcallTo (.wait (hcall.waits rfl) rfl rfl rfl)
  | waitReap c =>
      simp only [Machine.execCall, goto, Option.some.injEq] at hexec
      subst hexec
      exact h.assign hp hcur c _ (fun _ => ⟨rfl, rfl⟩) (fun hno => absurd rfl hno)
        (fun heq => absurd heq (hcall.waits rfl)) (.call (.plain rfl rfl rfl))
  | sysret =>
      simp only [Machine.execCall, goto, Option.some.injEq] at hexec
      subst hexec
      exact h.goTo hp hcur true .user

/-- The task leaves the processor to the scheduler. -/
theorem CtxInv.leave (hcur : m.current = none) {rest : List Frame} (hrest : m.Resumable p (.switch .ret :: rest)) :
    CtxInv (m.execSwitch rest (.go p)) := by
  obtain ⟨hctx, hlast⟩ := hp.sched
  have hgo : m.execSwitch rest (.go p) = { m with
      ctx := Function.update m.ctx p (some ⟨m.stack, .switch .ret :: rest⟩)
      stack := 0
      frames := [.switchTo p .ret, .loop (.found p)]
      lastSched := if m.stack = 0 then some ⟨m.stack, .switch .ret :: rest⟩ else m.lastSched } := by
    simp only [Machine.execSwitch, load, hctx]
  rw [hgo]
  refine h.keep ⟨fun _ => id, fun i hi => ?_, fun hi => Or.inl hi, fun hi => h.ppid hi, fun {i sp} hsp => ?_⟩
    (fun hne => absurd rfl hne) (.sched rfl (.back hcur))
  · simp only [Function.update_apply]
    split_ifs
    · rfl
    · exact hi
  · simp only [Function.update_apply] at hsp
    split_ifs at hsp with hip
    · subst hip
      obtain rfl := Option.some.inj hsp
      exact Or.inr ⟨hp.stack, hrest, _, Or.inl rfl⟩
    · exact Or.inl ⟨hsp, rfl⟩

/-- A step inside `sched_switch` or in the handler. -/
theorem CtxInv.onward (intr : Bool) {frames : List Frame} (current rsp0 : Option ℕ) (timer : ℕ)
    (hon : OnTask { m with timer := timer, current := current, rsp0 := rsp0, intr := intr, frames := frames } p)
    (hrsp0 : current = some p → rsp0 = some (m.kstacks p)) :
    CtxInv { m with timer := timer, current := current, rsp0 := rsp0, intr := intr, frames := frames } :=
  h.keep (h.keeps rfl rfl (fun _ => ⟨rfl, rfl⟩) fun _ => Or.inl) h.sched
    (.task (p := p) ⟨hon, hp.stack, hp.state, hp.inTable, hp.sched, hp.space, hrsp0⟩)

/-- The next statement of `sched_switch` in a system call. -/
theorem CtxInv.execSwitchCall (hcur : m.current = some p) {call : Call} (hcall : m.CallOk p call)
    (hbehind : call.Behind) {next : Switch}
    (hnext : next = .check ∨ next = .read ∨ next = .clear p ∨ next = .ret) :
    CtxInv (m.execSwitch [.call call, .user p] next) := by
  rcases hnext with rfl | rfl | rfl | rfl
  · simp only [Machine.execSwitch, hcur, reduceCtorEq, if_false]
    exact h.goTo hp hcur m.intr (.switch hcall hbehind (Or.inr (Or.inl rfl)))
  · simp only [Machine.execSwitch, withCurrent_some hcur]
    exact h.goTo hp hcur m.intr (.switch hcall hbehind (Or.inr (Or.inr (Or.inl rfl))))
  · refine h.onward hp m.intr none m.rsp0 m.timer (.leaving rfl ?_) (fun hc => by cases hc)
    exact (Leaving.call hcall hbehind (Or.inl rfl)).mono (fun _ => id) fun _ => id
  · exact h.goTo hp hcur m.intr (.call hcall)

/-- The next statement behind `_current = NULL`. -/
theorem CtxInv.execLeaving (hcur : m.current = none) {frames : List Frame} (hframes : m.frames = frames)
    (hleaving : m.Leaving p m.intr frames) {m' : Machine} (hexec : m.exec = some m') : m'.CtxInv := by
  have hback {rest : List Frame} {next : Switch} (hret : m.Resumable p (.switch .ret :: rest))
      (hmore : ∀ intr, m.intr = intr → m.Leaving p intr (.switch (.go p) :: rest)) (hnext : next = .rsp0 p ∨ next = .go p)
      (hrun : some (m.execSwitch rest next) = some m') : m'.CtxInv := by
    rcases hnext with rfl | rfl
    · obtain rfl := Option.some.inj hrun
      refine h.onward hp m.intr m.current none m.timer (.leaving hcur ?_) (fun hc => ?_)
      · exact (hmore m.intr rfl).mono (fun _ => id) fun _ => id
      · rw [hcur] at hc
        cases hc
    · obtain rfl := Option.some.inj hrun
      exact h.leave hp hcur hret
  rw [exec, hframes] at hexec
  generalize hintr : m.intr = intr at hleaving
  cases hleaving with
  | call hcall hbehind hnext =>
      exact hback (.switch hcall hbehind (Or.inr (Or.inr (Or.inr rfl)))) (fun _ _ => .call hcall hbehind (Or.inr rfl)) hnext hexec
  | irq hres hnext =>
      refine hback (.irqSwitch hres) (fun intr heq => ?_) hnext hexec
      rw [hintr] at heq
      subst heq
      exact .irq hres (Or.inr rfl)

/-- The next statement of a task. -/
theorem CtxInv.execTask {m' : Machine} (hexec : m.exec = some m') : m'.CtxInv := by
  cases hp.onTask with
  | resumed hcur hres =>
      rw [exec] at hexec
      generalize hframes : m.frames = frames at hres hexec
      cases hres with
      | user => cases hexec
      | call hcall => exact h.execCall hp hcur hcall hexec
      | switch hcall hbehind hnext => exact Option.some.inj hexec ▸ h.execSwitchCall hp hcur hcall hbehind hnext
      | irq hres => exact Option.some.inj hexec ▸ h.goTo hp hcur true hres
      | irqSwitch hres => exact Option.some.inj hexec ▸ h.goTo hp hcur m.intr (.irq hres)
  | @handler next frames hcur hintr hframes hres =>
      rw [exec, hframes] at hexec
      obtain rfl := Option.some.inj hexec
      cases next with
      | count =>
          exact h.onward hp m.intr m.current m.rsp0 _
            (.handler hcur hintr rfl (hres.mono (fun _ => id) fun _ => id)) fun hc => hp.rsp0 hc
      | test =>
          simp only [Machine.execTick, hcur, reduceCtorEq, if_false]
          refine h.onward hp m.intr m.current m.rsp0 m.timer ?_ fun hc => hp.rsp0 hc
          exact .handler hcur hintr rfl (hres.mono (fun _ => id) fun _ => id)
      | deadline =>
          simp only [Machine.execTick, withCurrent_some hcur]
          split_ifs
          · refine h.onward hp m.intr m.current m.rsp0 m.timer ?_ fun hc => hp.rsp0 hc
            exact .switching hcur hintr rfl (Or.inl rfl) (hres.mono (fun _ => id) fun _ => id)
          · exact h.goTo hp hcur m.intr (.irq hres)
      | iret => exact h.goTo hp hcur true hres
  | @switching next frames hcur hintr hframes hnext hres =>
      rw [exec, hframes] at hexec
      obtain rfl := Option.some.inj hexec
      have hmono {m'' : Machine} (hids : ∀ i, m.Named i → m''.Named i) (hmade : ∀ i, (m.ctx i).isSome → (m''.ctx i).isSome) :
          m''.Resumable p frames := hres.mono hids hmade
      rcases hnext with rfl | rfl | rfl
      · simp only [Machine.execSwitch, hcur, reduceCtorEq, if_false]
        exact h.onward hp m.intr m.current m.rsp0 m.timer
          (.switching hcur hintr rfl (Or.inr (Or.inl rfl)) (hmono (fun _ => id) fun _ => id)) fun hc => hp.rsp0 hc
      · simp only [Machine.execSwitch, withCurrent_some hcur]
        exact h.onward hp m.intr m.current m.rsp0 m.timer
          (.switching hcur hintr rfl (Or.inr (Or.inr rfl)) (hmono (fun _ => id) fun _ => id)) fun hc => hp.rsp0 hc
      · have hgo : m.Leaving p m.intr (.switch (.rsp0 p) :: .tick .iret :: frames) := by
          rw [hintr]
          exact .irq hres (Or.inl rfl)
        exact h.onward hp m.intr none m.rsp0 m.timer (.leaving rfl (hgo.mono (fun _ => id) fun _ => id))
          fun hc => by cases hc
  | leaving hcur hleaving => exact h.execLeaving hp hcur rfl hleaving hexec
  | @leavingHandler next frames hcur hintr hframes hnext hleaving =>
      rw [exec, hframes] at hexec
      obtain rfl := Option.some.inj hexec
      have hrsp0 : m.current = some p → m.rsp0 = some (m.kstacks p) := fun hc => by rw [hcur] at hc; cases hc
      cases next with
      | count =>
          exact h.onward hp m.intr m.current m.rsp0 _
            (.leavingHandler hcur hintr rfl (by simp) (hleaving.mono (fun _ => id) fun _ => id)) hrsp0
      | test =>
          simp only [Machine.execTick, hcur, if_true]
          exact h.onward hp m.intr m.current m.rsp0 m.timer
            (.leavingHandler hcur hintr rfl (by simp) (hleaving.mono (fun _ => id) fun _ => id)) hrsp0
      | deadline => exact absurd rfl hnext
      | iret =>
          exact h.onward hp true m.current m.rsp0 m.timer
            (.leaving hcur (hleaving.mono (fun _ => id) fun _ => id)) hrsp0

end Task

/-! ## Steps of the scheduler -/

theorem loopAt_ok (m : Machine) (i : ℕ) (found : Bool) : m.LoopOk (loopAt i found) := by
  unfold loopAt
  split_ifs with hi
  · refine ⟨fun {j b} hj => ?_, fun hj => (by cases hj)⟩
    rcases hj with hj | hj | hj
    · obtain ⟨rfl, -⟩ := Loop.sleeping.inj hj
      exact hi
    · cases hj
    · cases hj
  · exact ⟨fun hj => (by rcases hj with hj | hj | hj <;> cases hj), fun hj => (by cases hj)⟩

/-- A place where no entry is examined. -/
theorem LoopOk.plain {m : Machine} {next : Loop}
    (hnext : ∀ i found, next ≠ .sleeping i found ∧ next ≠ .wake i found ∧ next ≠ .runnable i found) : m.LoopOk next where
  inTable {i found} hi := by
    obtain ⟨h1, h2, h3⟩ := hnext i found
    rcases hi with hi | hi | hi
    · exact absurd hi h1
    · exact absurd hi h2
    · exact absurd hi h3
  wake {i found} hi := absurd hi (hnext i found).2.1

section Sched

variable {m : Machine} (h : m.CtxInv) (hstack : m.stack = 0)

include h hstack

/-- A statement of the loop. -/
theorem CtxInv.inLoop (hcur : m.current = none) {next : Loop} (tasks : TaskTable) (currVmem cr3 : Option ℕ)
    (hids : ∀ i, (tasks i).pid = (m.tasks i).pid ∧ (tasks i).ppid = (m.tasks i).ppid)
    (hstate : ∀ i, (tasks i).state ≠ .notAllocated → (m.tasks i).state ≠ .notAllocated)
    (hnext : ({ m with tasks := tasks } : Machine).LoopOk next) :
    CtxInv { m with tasks := tasks, currVmem := currVmem, cr3 := cr3, frames := [.loop next] } :=
  h.keep (h.keeps rfl rfl hids fun i hi => Or.inl (hstate i hi)) h.sched
    (.sched hstack (.loop hcur ⟨hnext.inTable, hnext.wake⟩))

/-- A statement that assigns to the entry that is examined. -/
theorem CtxInv.inEntry (hcur : m.current = none) {next : Loop} (i : ℕ) (f : Task → Task)
    (hids : ∀ t : Task, (f t).pid = t.pid ∧ (f t).ppid = t.ppid)
    (hstate : (f (m.tasks i)).state ≠ .notAllocated → (m.tasks i).state ≠ .notAllocated)
    (hnext : ({ m with tasks := m.tasks.modify i f } : Machine).LoopOk next) :
    CtxInv { m with tasks := m.tasks.modify i f, frames := [.loop next] } := by
  refine h.inLoop hstack hcur (m.tasks.modify i f) m.currVmem m.cr3 (fun j => ?_) (fun j hj => ?_) hnext
  · rw [TaskTable.modify_apply]
    split_ifs
    · exact hids _
    · exact ⟨rfl, rfl⟩
  · rw [TaskTable.modify_apply] at hj
    split_ifs at hj with hji
    · subst hji
      exact hstate hj
    · exact hj

theorem CtxInv.execLoop (hcur : m.current = none) {next : Loop} (hnext : m.LoopOk next) {m' : Machine}
    (hexec : m.execLoop [] next = some m') : m'.CtxInv := by
  have hgo {next' : Loop} (hnext' : m.LoopOk next') : CtxInv { m with frames := [.loop next'] } :=
    h.inLoop hstack hcur m.tasks m.currVmem m.cr3 (fun _ => ⟨rfl, rfl⟩) (fun _ => id) hnext'
  cases next with
  | sleeping i found =>
      have hi := hnext.inTable (Or.inl rfl)
      simp only [Machine.execLoop, goto] at hexec
      split_ifs at hexec with hsleep
      · refine Option.some.inj hexec ▸ hgo ⟨fun {j b} hj => ?_, fun {j b} hj => ?_⟩
        · simp at hj
          omega
        · obtain ⟨rfl, -⟩ := Loop.wake.inj hj
          rw [hsleep.1]
          simp
      · refine Option.some.inj hexec ▸ hgo ⟨fun {j b} hj => ?_, fun hj => (by cases hj)⟩
        simp at hj
        omega
  | wake i found =>
      have hi := hnext.inTable (Or.inr (Or.inl rfl))
      simp only [Machine.execLoop, goto, Option.some.injEq] at hexec
      subst hexec
      refine h.inEntry hstack hcur i _ (fun _ => ⟨rfl, rfl⟩) (fun _ => hnext.wake rfl)
        ⟨fun {j b} hj => ?_, fun hj => (by cases hj)⟩
      simp at hj
      omega
  | runnable i found =>
      have hi := hnext.inTable (Or.inr (Or.inr rfl))
      simp only [Machine.execLoop, goto] at hexec
      split_ifs at hexec with hrun
      · refine Option.some.inj hexec ▸ h.keep (h.keeps rfl rfl (fun _ => ⟨rfl, rfl⟩) fun _ => Or.inl) h.sched
          (.sched hstack (.enter hcur hi ?_))
        rw [show (m.tasks i).state = _ from hrun]
        simp
      · exact Option.some.inj hexec ▸ hgo (loopAt_ok m _ _)
  | found i =>
      simp only [Machine.execLoop, goto, Option.some.injEq] at hexec
      exact hexec ▸ hgo (.plain (by simp))
  | zombie i =>
      simp only [Machine.execLoop, goto] at hexec
      split_ifs at hexec
      · exact Option.some.inj hexec ▸ hgo (.plain (by simp))
      · exact Option.some.inj hexec ▸ hgo (loopAt_ok m _ _)
  | cr3 i =>
      simp only [Machine.execLoop, goto, Option.some.injEq] at hexec
      subst hexec
      exact h.inLoop hstack hcur m.tasks m.currVmem none (fun _ => ⟨rfl, rfl⟩) (fun _ => id) (.plain (by simp))
  | currVmem i =>
      simp only [Machine.execLoop, goto, Option.some.injEq] at hexec
      subst hexec
      exact h.inLoop hstack hcur m.tasks none m.cr3 (fun _ => ⟨rfl, rfl⟩) (fun _ => id) (.plain (by simp))
  | destroyVmem i =>
      simp only [Machine.execLoop, goto] at hexec
      split_ifs at hexec
      · exact Option.some.inj hexec ▸ h.stop _
      · obtain rfl := Option.some.inj hexec
        exact h.inEntry hstack hcur i _ (fun _ => ⟨rfl, rfl⟩) id (.plain (by simp))
  | destroyThread i =>
      simp only [Machine.execLoop, goto, Option.some.injEq] at hexec
      subst hexec
      exact h.inEntry hstack hcur i _ (fun _ => ⟨rfl, rfl⟩) id (loopAt_ok _ _ _)
  | passEnd found =>
      simp only [Machine.execLoop, goto] at hexec
      split_ifs at hexec
      · exact Option.some.inj hexec ▸ hgo (loopAt_ok m _ _)
      · exact Option.some.inj hexec ▸ hgo (.plain (by simp))
  | hlt => cases hexec

/-- A statement of `sched_switch_to`. -/
theorem CtxInv.onSwitchTo {n : ℕ} {next : SwitchTo} (tasks : TaskTable) (currVmem cr3 rsp0 : Option ℕ)
    (hcur : m.current = some n) (hn : n < maxTaskCount) (hnstate : (m.tasks n).state ≠ .notAllocated)
    (hids : ∀ i, (tasks i).pid = (m.tasks i).pid ∧ (tasks i).ppid = (m.tasks i).ppid ∧
      (tasks i).state = (m.tasks i).state)
    (hnext : next ≠ .current ∧ next ≠ .ret)
    (hdone : Switched { m with currVmem := currVmem, cr3 := cr3, rsp0 := rsp0 } n next) :
    CtxInv { m with
      tasks := tasks, currVmem := currVmem, cr3 := cr3, rsp0 := rsp0, frames := [.switchTo n next, .loop (.found n)] } := by
  refine h.keep (h.keeps rfl rfl (fun i => ⟨(hids i).1, (hids i).2.1⟩) fun i hi => Or.inl ?_) h.sched
    (.sched hstack (.going hcur hn ?_ hnext ⟨hdone.cr3, hdone.currVmem, hdone.rsp0⟩))
  · rw [← (hids i).2.2]
    exact hi
  · show (tasks n).state ≠ _
    rw [(hids n).2.2]
    exact hnstate

/-- The scheduler gives the processor to a task. -/
theorem CtxInv.give {n : ℕ} (hcur : m.current = some n) (hn : n < maxTaskCount)
    (hnstate : (m.tasks n).state ≠ .notAllocated) (hdone : m.Switched n .go) :
    CtxInv (m.execSwitchTo [.loop (.found n)] n .go) := by
  obtain ⟨-, hmade⟩ := h.pid hnstate
  obtain ⟨sp, hsp⟩ := Option.isSome_iff_exists.mp hmade
  obtain ⟨hown, hres, -⟩ := h.ctx hsp
  have hgo : m.execSwitchTo [.loop (.found n)] n .go = { m with
      schedCtx := some ⟨0, [.switchTo n .ret, .loop (.found n)]⟩
      lastSched := some ⟨0, [.switchTo n .ret, .loop (.found n)]⟩
      stack := sp.stack
      frames := sp.frames } := by
    simp only [Machine.execSwitchTo, load, hsp, hstack, if_true]
  rw [hgo]
  have hkeeps : Keeps m { m with
      schedCtx := some ⟨0, [.switchTo n .ret, .loop (.found n)]⟩
      lastSched := some ⟨0, [.switchTo n .ret, .loop (.found n)]⟩
      stack := sp.stack
      frames := sp.frames } := h.keeps rfl rfl (fun _ => ⟨rfl, rfl⟩) fun _ => Or.inl
  refine h.keep hkeeps (fun _ => ⟨_, rfl, rfl⟩) (.task (p := n) ⟨.resumed hcur ?_, hown, hnstate, hn, ⟨rfl, rfl⟩,
    ⟨hdone.currVmem (Or.inr rfl), hdone.cr3 (Or.inr (Or.inr rfl))⟩, fun _ => hdone.rsp0 rfl⟩)
  exact hres.mono (fun _ => id) fun _ => id

theorem CtxInv.execSched {frames : List Frame} (hframes : m.frames = frames) (hsched : m.Scheduling frames) {m' : Machine}
    (hexec : m.exec = some m') : m'.CtxInv := by
  rw [exec, hframes] at hexec
  cases hsched with
  | loop hcur hnext => exact h.execLoop hstack hcur hnext hexec
  | @enter n hcur hn hstate =>
      obtain rfl := Option.some.inj hexec
      refine h.keep (h.keeps rfl rfl (fun _ => ⟨rfl, rfl⟩) fun _ => Or.inl) h.sched
        (.sched hstack (.going rfl hn hstate (by simp) ⟨fun hc => ?_, fun hc => ?_, fun hc => (by cases hc)⟩))
      · rcases hc with hc | hc | hc <;> cases hc
      · rcases hc with hc | hc <;> cases hc
  | @going n next hcur hn hstate hnext hdone =>
      obtain rfl := Option.some.inj hexec
      cases next with
      | current => exact absurd rfl hnext.1
      | deadline =>
          simp only [execSwitchTo, withCurrent_some hcur, goto]
          refine h.onSwitchTo hstack _ m.currVmem m.cr3 m.rsp0 hcur hn hstate (fun i => ?_) (by simp)
            ⟨fun hc => ?_, fun hc => ?_, fun hc => (by cases hc)⟩
          · rw [TaskTable.modify_apply]
            split_ifs <;> exact ⟨rfl, rfl, rfl⟩
          · rcases hc with hc | hc | hc <;> cases hc
          · rcases hc with hc | hc <;> cases hc
      | cr3 =>
          refine h.onSwitchTo hstack m.tasks m.currVmem (some n) m.rsp0 hcur hn hstate (fun _ => ⟨rfl, rfl, rfl⟩) (by simp)
            ⟨fun _ => rfl, fun hc => ?_, fun hc => (by cases hc)⟩
          rcases hc with hc | hc <;> cases hc
      | currVmem =>
          exact h.onSwitchTo hstack m.tasks (some n) m.cr3 m.rsp0 hcur hn hstate (fun _ => ⟨rfl, rfl, rfl⟩) (by simp)
            ⟨fun _ => hdone.cr3 (Or.inl rfl), fun _ => rfl, fun hc => (by cases hc)⟩
      | rsp0 =>
          exact h.onSwitchTo hstack m.tasks m.currVmem m.cr3 (some (m.kstacks n)) hcur hn hstate
            (fun _ => ⟨rfl, rfl, rfl⟩) (by simp)
            ⟨fun _ => hdone.cr3 (Or.inr (Or.inl rfl)), fun _ => hdone.currVmem (Or.inl rfl), fun _ => rfl⟩
      | go => exact h.give hstack hcur hn hstate hdone
      | ret => exact absurd rfl hnext.2
  | @back n hcur =>
      obtain rfl := Option.some.inj hexec
      exact h.inLoop hstack hcur m.tasks m.currVmem m.cr3 (fun _ => ⟨rfl, rfl⟩) (fun _ => id) (.plain (by simp))

omit h hstack in
/-- What the scheduler is doing does not depend on the timer and the flag. -/
theorem Scheduling.frame {frames : List Frame} (hsched : m.Scheduling frames) (timer : ℕ) (intr : Bool)
    (frames' : List Frame) : Scheduling { m with timer := timer, intr := intr, frames := frames' } frames := by
  cases hsched with
  | loop hcur hnext => exact .loop hcur ⟨hnext.inTable, hnext.wake⟩
  | enter hcur hn hstate => exact .enter hcur hn hstate
  | going hcur hn hstate hnext hdone => exact .going hcur hn hstate hnext ⟨hdone.cr3, hdone.currVmem, hdone.rsp0⟩
  | back hcur => exact .back hcur

/-- The next statement of a handler on the stack of the scheduler. -/
theorem CtxInv.execHandler {next : Tick} {frames : List Frame} (hintr : m.intr = false)
    (hframes : m.frames = .tick next :: frames) (hpasses : m.Passes next) (hsched : m.Scheduling frames)
    {m' : Machine} (hexec : m.exec = some m') : m'.CtxInv := by
  have hnext (next' : Tick) (timer : ℕ)
      (hpasses' : Passes { m with timer := timer, frames := .tick next' :: frames } next') :
      CtxInv { m with timer := timer, frames := .tick next' :: frames } :=
    h.keep (h.keeps rfl rfl (fun _ => ⟨rfl, rfl⟩) fun _ => Or.inl) h.sched
      (.handler hstack hintr rfl hpasses' (hsched.frame timer m.intr _))
  rw [exec, hframes] at hexec
  obtain rfl := Option.some.inj hexec
  unfold Passes at hpasses
  cases hcur : m.current with
  | none =>
      rw [hcur] at hpasses
      cases next with
      | count =>
          refine hnext .test _ ?_
          simp only [Passes, hcur]
          simp
      | test =>
          simp only [Machine.execTick, hcur, if_true]
          refine hnext .iret m.timer ?_
          simp only [Passes, hcur]
          simp
      | deadline => exact absurd rfl hpasses
      | iret =>
          exact h.keep (h.keeps rfl rfl (fun _ => ⟨rfl, rfl⟩) fun _ => Or.inl) h.sched
            (.sched hstack (hsched.frame m.timer true _))
  | some n =>
      rw [hcur] at hpasses
      cases next with
      | count =>
          refine hnext .test _ ?_
          simp only [Passes, hcur]
          exact hpasses
      | test =>
          simp only [Machine.execTick, hcur, reduceCtorEq, if_false]
          refine hnext .deadline m.timer ?_
          simp only [Passes, hcur]
          exact hpasses
      | deadline =>
          simp only [Machine.execTick, withCurrent_some hcur, if_neg hpasses]
          refine hnext .iret m.timer ?_
          simp only [Passes, hcur]
      | iret =>
          exact h.keep (h.keeps rfl rfl (fun _ => ⟨rfl, rfl⟩) fun _ => Or.inl) h.sched
            (.sched hstack (hsched.frame m.timer true _))

end Sched

/-! ## Interrupts -/

/-- In user mode the handler gets the stack of the TSS. -/
theorem interrupt_user {m : Machine} {p stack : ℕ} {rest : List Frame} (hframes : m.frames = .user p :: rest)
    (hrsp0 : m.rsp0 = some stack) : m.interrupt =
      { m with intr := false, stack := stack, frames := .tick .count :: .user p :: rest } := by
  simp [interrupt, hframes, hrsp0]

/-- On a task with interrupts enabled the handler runs on the kernel stack of the task. -/
theorem interrupt_task {m : Machine} {p : ℕ} (hp : m.TaskCpu p) (hcur : m.current = some p)
    (hres : m.Resumable p m.frames) : m.interrupt = { m with intr := false, frames := .tick .count :: m.frames } := by
  generalize hframes : m.frames = frames at hres
  cases hres with
  | user =>
      rw [interrupt_user hframes (hp.rsp0 hcur)]
      exact congrArg (fun stack => { m with intr := false, stack := stack, frames := [.tick .count, .user p] })
        hp.stack.symm
  | _ =>
      unfold interrupt
      rw [hframes]

section Interrupt

variable {m : Machine} (h : m.CtxInv) (hintr : m.intr = true)

include h hintr

/-- The timer fires while a task has the processor. -/
theorem CtxInv.interruptTask {p : ℕ} (hp : m.TaskCpu p) : m.interrupt.CtxInv := by
  have hkeeps (frames : List Frame) : Keeps m { m with intr := false, frames := frames } :=
    h.keeps rfl rfl (fun _ => ⟨rfl, rfl⟩) fun _ => Or.inl
  have hpush {frames : List Frame} (hon : OnTask { m with intr := false, frames := frames } p) :
      CtxInv { m with intr := false, frames := frames } :=
    h.keep (hkeeps frames) h.sched
      (.task (p := p) ⟨hon, hp.stack, hp.state, hp.inTable, hp.sched, hp.space, hp.rsp0⟩)
  cases hp.onTask with
  | resumed hcur hres =>
      rw [interrupt_task hp hcur hres]
      exact hpush (.handler hcur rfl rfl (hres.mono (fun _ => id) fun _ => id))
  | handler hcur hoff hframes hres =>
      rw [hintr] at hoff
      cases hoff
  | switching hcur hoff hframes hnext hres =>
      rw [hintr] at hoff
      cases hoff
  | leaving hcur hleaving =>
      rw [hintr] at hleaving
      unfold interrupt
      generalize hframes : m.frames = frames at hleaving
      cases hleaving with
      | call hcall hbehind hnext =>
          exact hpush (.leavingHandler hcur rfl rfl (by simp)
            ((Leaving.call hcall hbehind hnext).mono (fun _ => id) fun _ => id))
  | leavingHandler hcur hoff hframes hnext hleaving =>
      rw [hintr] at hoff
      cases hoff

omit hintr in
/-- The timer fires while the scheduler has the processor; a tick inside `sched_switch_to` does
not end a time slice. -/
theorem CtxInv.interruptSched (hstack : m.stack = 0) (hsched : m.Scheduling m.frames)
    (hsafe : m.InSwitchTo → ¬m.TickSwitches) : m.interrupt.CtxInv := by
  have hpush {frames : List Frame} (hs : m.Scheduling frames)
      (hpasses : Passes { m with intr := false, frames := .tick .count :: frames } .count) :
      CtxInv { m with intr := false, frames := .tick .count :: frames } :=
    h.keep (h.keeps rfl rfl (fun _ => ⟨rfl, rfl⟩) fun _ => Or.inl) h.sched
      (.handler hstack rfl rfl hpasses (hs.frame m.timer false _))
  have hidle (frames : List Frame) (hcur : m.current = none) :
      Passes { m with intr := false, frames := frames } .count := by
    simp only [Passes, hcur]
    simp
  unfold interrupt
  generalize hframes : m.frames = frames at hsched
  cases hsched with
  | @loop next hcur hnext =>
      cases next with
      | hlt => exact hpush (.loop hcur (loopAt_ok m _ _)) (hidle _ hcur)
      | _ => exact hpush (.loop hcur hnext) (hidle _ hcur)
  | enter hcur hn hstate => exact hpush (.enter hcur hn hstate) (hidle _ hcur)
  | @going n next hcur hn hstate hnext hdone =>
      refine hpush (.going hcur hn hstate hnext hdone) ?_
      simp only [Passes, hcur]
      exact fun hdue => hsafe ⟨n, next, _, hframes⟩ ⟨n, hcur, hdue⟩
  | back hcur => exact hpush (.back hcur) (hidle _ hcur)

end Interrupt

/-! ## Runs -/

section Run

variable {m : Machine} (h : m.CtxInv)

include h

/-- Only a task executes system calls. -/
theorem CtxInv.inCall {call : Call} {rest : List Frame} (hat : m.frames = .call call :: rest) :
    ∃ p, m.TaskCpu p ∧ m.current = some p ∧ rest = [.user p] ∧ m.CallOk p call := by
  cases h.cpu with
  | stopped hframes =>
      rw [hat] at hframes
      cases hframes
  | sched hstack hsched =>
      rw [hat] at hsched
      cases hsched
  | handler hstack hintr hframes hpasses hsched =>
      rw [hat] at hframes
      cases hframes
  | @task p hp =>
      refine ⟨p, hp, ?_⟩
      cases hp.onTask with
      | resumed hcur hres =>
          rw [hat] at hres
          cases hres with
          | call hcall => exact ⟨hcur, rfl, hcall⟩
      | handler hcur hoff hframes hres =>
          rw [hat] at hframes
          cases hframes
      | switching hcur hoff hframes hnext hres =>
          rw [hat] at hframes
          cases hframes
      | leaving hcur hleaving =>
          rw [hat] at hleaving
          generalize m.intr = intr at hleaving
          cases hleaving
      | leavingHandler hcur hoff hframes hnext hleaving =>
          rw [hat] at hframes
          cases hframes

/-- In user mode the task is the current one. -/
theorem CtxInv.inUser {p : ℕ} {rest : List Frame} (huser : m.frames = .user p :: rest) :
    m.TaskCpu p ∧ m.current = some p ∧ rest = [] := by
  cases h.cpu with
  | stopped hframes =>
      rw [huser] at hframes
      cases hframes
  | sched hstack hsched =>
      rw [huser] at hsched
      cases hsched
  | handler hstack hintr hframes hpasses hsched =>
      rw [huser] at hframes
      cases hframes
  | @task q hq =>
      cases hq.onTask with
      | resumed hcur hres =>
          rw [huser] at hres
          cases hres with
          | user => exact ⟨hq, hcur, rfl⟩
      | handler hcur hoff hframes hres =>
          rw [huser] at hframes
          cases hframes
      | switching hcur hoff hframes hnext hres =>
          rw [huser] at hframes
          cases hframes
      | leaving hcur hleaving =>
          rw [huser] at hleaving
          generalize m.intr = intr at hleaving
          cases hleaving
      | leavingHandler hcur hoff hframes hnext hleaving =>
          rw [huser] at hframes
          cases hframes

/-- Who calls `sched_switch`: a handler, or a system call that blocks. -/
theorem CtxInv.inSwitch {next : Switch} {rest : List Frame} (hat : m.frames = .switch next :: rest) :
    ∃ p, m.TaskCpu p ∧ (∀ q, next = .clear q ∨ next = .rsp0 q ∨ next = .go q → q = p) ∧
      ((∃ rest', rest = .tick .iret :: rest') ∨ ∃ call rest', rest = .call call :: rest' ∧ call.Behind) := by
  cases h.cpu with
  | stopped hnil =>
      rw [hat] at hnil
      cases hnil
  | sched hstack hsched =>
      rw [hat] at hsched
      cases hsched
  | handler hstack hintr htick hpasses hsched =>
      rw [hat] at htick
      cases htick
  | @task p hp =>
      refine ⟨p, hp, ?_⟩
      cases hp.onTask with
      | resumed hcur hres =>
          rw [hat] at hres
          cases hres with
          | switch hcall hbehind hnext =>
              refine ⟨fun q hq => ?_, Or.inr ⟨_, _, rfl, hbehind⟩⟩
              rcases hnext with rfl | rfl | rfl | rfl <;> simp_all
          | irqSwitch hres => exact ⟨fun q hq => by simp at hq, Or.inl ⟨_, rfl⟩⟩
      | handler hcur hoff htick hres =>
          rw [hat] at htick
          cases htick
      | switching hcur hoff hframes hnext hres =>
          obtain ⟨rfl, rfl⟩ : next = _ ∧ rest = _ := by simpa using hat.symm.trans hframes
          refine ⟨fun q hq => ?_, Or.inl ⟨_, rfl⟩⟩
          rcases hnext with rfl | rfl | rfl <;> simp_all
      | leaving hcur hleaving =>
          rw [hat] at hleaving
          generalize m.intr = intr at hleaving
          cases hleaving with
          | call hcall hbehind hnext =>
              refine ⟨fun q hq => ?_, Or.inr ⟨_, _, rfl, hbehind⟩⟩
              rcases hnext with rfl | rfl <;> simp_all
          | irq hres hnext =>
              refine ⟨fun q hq => ?_, Or.inl ⟨_, rfl⟩⟩
              rcases hnext with rfl | rfl <;> simp_all
      | leavingHandler hcur hoff htick hnext hleaving =>
          rw [hat] at htick
          cases htick

/-- `sched_switch_to` is called by the loop, on the stack of the scheduler. -/
theorem CtxInv.inSwitchTo {n : ℕ} {next : SwitchTo} {rest : List Frame} (hat : m.frames = .switchTo n next :: rest) :
    m.stack = 0 ∧ rest = [.loop (.found n)] := by
  cases h.cpu with
  | stopped hnil =>
      rw [hat] at hnil
      cases hnil
  | sched hstack hsched =>
      rw [hat] at hsched
      exact ⟨hstack, by cases hsched <;> rfl⟩
  | handler hstack hintr htick hpasses hsched =>
      rw [hat] at htick
      cases htick
  | @task p hp =>
      cases hp.onTask with
      | resumed hcur hres =>
          rw [hat] at hres
          cases hres
      | handler hcur hoff htick hres =>
          rw [hat] at htick
          cases htick
      | switching hcur hoff hframes hnext hres =>
          rw [hat] at hframes
          cases hframes
      | leaving hcur hleaving =>
          rw [hat] at hleaving
          generalize m.intr = intr at hleaving
          cases hleaving
      | leavingHandler hcur hoff htick hnext hleaving =>
          rw [hat] at htick
          cases htick

/-- A task is current, and not on its way out: then it goes on when it can be interrupted. -/
theorem CtxInv.inTask {p : ℕ} (hintr : m.intr = true) (hruns : m.frames ≠ []) (hstack : m.stack ≠ 0)
    (hcur : m.current = some p) : m.TaskCpu p ∧ m.Resumable p m.frames := by
  cases h.cpu with
  | stopped hframes => exact absurd hframes hruns
  | sched hno hsched => exact absurd hno hstack
  | handler hno hoff hframes hpasses hsched => exact absurd hno hstack
  | @task q hq =>
      cases hq.onTask with
      | resumed hcur' hres =>
          obtain rfl : p = q := Option.some.inj (hcur.symm.trans hcur')
          exact ⟨hq, hres⟩
      | handler hcur' hoff hframes hres => cases hintr.symm.trans hoff
      | switching hcur' hoff hframes hnext hres => cases hintr.symm.trans hoff
      | leaving hnone hleaving => cases hcur.symm.trans hnone
      | leavingHandler hnone hoff hframes hnext hleaving => cases hcur.symm.trans hnone

/-- A child gets its kernel stack and its context. -/
theorem CtxInv.cloneThread {child stack : ℕ} {rest : List Frame} (hat : m.frames = .call (.forkThread child) :: rest) :
    CtxInv ({ m with
        tasks := m.tasks.modify child fun t => { t with kstackLive := true }
        kstacks := Function.update m.kstacks child stack
        ctx := Function.update m.ctx child (some ⟨stack, [.tick .iret, .user child]⟩) }.goto
      (.call (.forkPpid child) :: rest)) := by
  obtain ⟨p, hp, hcur, rfl, hcall⟩ := h.inCall hat
  obtain ⟨hne, hnamed⟩ := hcall.child (c := child) rfl
  have htask (i : ℕ) : ((m.tasks.modify child fun t => { t with kstackLive := true }) i).state = (m.tasks i).state ∧
      ((m.tasks.modify child fun t => { t with kstackLive := true }) i).pid = (m.tasks i).pid ∧
      ((m.tasks.modify child fun t => { t with kstackLive := true }) i).ppid = (m.tasks i).ppid := by
    rw [TaskTable.modify_apply]
    split_ifs <;> exact ⟨rfl, rfl, rfl⟩
  have hkstack : Function.update m.kstacks child stack p = m.kstacks p := Function.update_of_ne hne.symm _ _
  have hkeeps : Keeps m ({ m with
        tasks := m.tasks.modify child fun t => { t with kstackLive := true }
        kstacks := Function.update m.kstacks child stack
        ctx := Function.update m.ctx child (some ⟨stack, [.tick .iret, .user child]⟩) }.goto
      [.call (.forkPpid child), .user p]) := by
    refine ⟨fun i hi => ⟨hi.1, (htask i).2.1.trans hi.2⟩, fun i hi => ?_, fun {i} hi => Or.inl ?_, fun {i} hi => ?_,
      fun {i sp} hsp => ?_⟩
    · simp only [goto, Function.update_apply]
      split_ifs
      · rfl
      · exact hi
    · rw [← (htask i).1]
      exact hi
    · exact (htask i).2.2 ▸ h.ppid hi
    · simp only [goto, Function.update_apply] at hsp ⊢
      split_ifs at hsp ⊢ with hic
      · obtain rfl := Option.some.inj hsp
        exact Or.inr ⟨rfl, hic ▸ .irq .user, _, Or.inr rfl⟩
      · exact Or.inl ⟨hsp, rfl⟩
  refine h.keep hkeeps h.sched (.task (p := p) ⟨.resumed hcur (.call ⟨fun hc => ?_, fun hc => ?_, fun hc => (by cases hc)⟩),
    hp.stack.trans hkstack.symm, ?_, hp.inTable, hp.sched, hp.space, fun hc => ?_⟩)
  · obtain rfl := Option.some.inj hc
    exact ⟨hne, hkeeps.named _ hnamed⟩
  · obtain rfl := Option.some.inj hc
    exact ⟨hkeeps.named _ hnamed, by simp [goto]⟩
  · exact (htask p).1 ▸ hp.state
  · exact (hp.rsp0 hc).trans (congrArg some hkstack.symm)

/-- `syscall_entry` -/
theorem CtxInv.enter {p : ℕ} {rest : List Frame} {call : Call} (huser : m.frames = .user p :: rest)
    (hcall : call.IsFirst) :
    CtxInv (m.withCurrent fun q =>
      { m with intr := true, stack := m.kstacks q, frames := .call call :: .user p :: rest }) := by
  obtain ⟨hp, hcur, rfl⟩ := h.inUser huser
  rw [withCurrent_some hcur, ← hp.stack]
  refine h.goTo hp hcur true (.call ?_)
  cases call <;> first | exact hcall.elim | exact .plain rfl rfl rfl

theorem CtxInv.step {l : MachineLabel} {m' : Machine} (hstep : SafeStep m l m') : m'.CtxInv := by
  obtain ⟨hstep, hsafe⟩ := hstep
  cases hstep with
  | tick hruns hintr =>
      cases h.cpu with
      | stopped hframes => exact absurd hframes hruns
      | sched hstack hsched => exact h.interruptSched hstack hsched (hsafe rfl)
      | handler hstack hoff hframes hpasses hsched =>
          rw [hintr] at hoff
          cases hoff
      | task hp => exact h.interruptTask hintr hp
  | enter huser hcall => exact h.enter huser hcall
  | @cloneVmem child vm rest hat =>
      obtain ⟨p, hp, hcur, rfl, hcall⟩ := h.inCall hat
      exact h.assign hp hcur child (fun t => { t with vmem := vm, vmemLive := true }) (fun _ => ⟨rfl, rfl⟩) Or.inl
        (fun heq => absurd heq (hcall.child rfl).1)
        (.call ⟨fun hc => hcall.child hc, fun hc => (by cases hc), fun hc => (by cases hc)⟩)
  | cloneThread hat hnew => exact h.cloneThread hat
  | cloneFails hat hcall =>
      obtain ⟨p, hp, hcur, rfl, -⟩ := h.inCall hat
      exact h.goTo hp hcur m.intr (.call (.plain rfl rfl rfl))
  | stmt hexec =>
      cases h.cpu with
      | stopped hframes =>
          rw [exec, hframes] at hexec
          cases hexec
      | sched hstack hsched => exact h.execSched hstack rfl hsched hexec
      | handler hstack hoff hframes hpasses hsched => exact h.execHandler hstack hoff hframes hpasses hsched hexec
      | task hp => exact h.execTask hp hexec

/-- The invariant is more than enough. -/
theorem CtxInv.contextsOwn : m.ContextsOwn where
  onStack := by
    intro t next rest hframes hnext
    obtain ⟨p, hp, hself, -⟩ := h.inSwitch hframes
    obtain rfl := hself t (Or.inr hnext)
    exact hp.stack
  context t ht := by
    obtain ⟨sp, hsp⟩ := Option.isSome_iff_exists.mp (h.pid ht).2
    exact ⟨sp, hsp, (h.ctx hsp).1⟩
  sched := h.sched
  user huser := by
    obtain ⟨hp, hcur, -⟩ := h.inUser huser
    exact ⟨hcur, hp.space.1, hp.space.2, hp.rsp0 hcur⟩

end Run

theorem CtxInv.boot (vm : Vmem) : (Machine.boot vm).CtxInv := by
  have htask (i : ℕ) : (Machine.boot vm).tasks i =
      if i = 1 then { Task.zero with pid := 1, state := .runnable, vmem := vm, vmemLive := true,
                                     kstackLive := true } else Task.zero := by
    simp only [Machine.boot, Function.update_apply]
  have hctx (i : ℕ) : (Machine.boot vm).ctx i = if i = 1 then some ⟨1, [.tick .iret, .user 1]⟩ else none := rfl
  refine ⟨fun {i} hi => ?_, fun {i} hi => ?_, fun {i sp} hsp => ?_, fun hne => absurd rfl hne,
    .sched rfl (.loop rfl ⟨fun {i found} hi => ?_, fun {i found} hi => (by cases hi)⟩)⟩
  · rw [htask] at hi
    split_ifs at hi with h1
    · subst h1
      exact ⟨⟨le_refl 1, by rw [htask]; rfl⟩, rfl⟩
    · exact absurd rfl hi
  · rw [htask]
    split_ifs with h1
    · rw [h1]
      exact Nat.zero_ne_one
    · show 0 ≠ i
      omega
  · rw [hctx] at hsp
    split_ifs at hsp with h1
    obtain rfl := Option.some.inj hsp
    subst h1
    exact ⟨rfl, .irq .user, _, Or.inr rfl⟩
  · rcases hi with hi | hi | hi
    · obtain ⟨rfl, -⟩ := Loop.sleeping.inj hi
      decide
    · cases hi
    · cases hi

end Machine

/-- In every run without a tick inside `sched_switch_to` that ends a time slice, the contexts
belong to their tasks. -/
theorem contexts_own {vm : Vmem} {labels : List MachineLabel} {m : Machine}
    (hrun : Run SafeStep (Machine.boot vm) labels m) : m.ContextsOwn :=
  (hrun.invariant Machine.CtxInv (Machine.CtxInv.boot vm) fun _ _ _ h hstep => h.step hstep).contextsOwn

/-! Runs by statements alone. -/

/-- The next `n` statements. -/
def Machine.execs : ℕ → Machine → Option Machine
  | 0, m => some m
  | n + 1, m => m.exec.bind (execs n)

theorem run_execs {R : Machine → MachineLabel → Machine → Prop} (hstmt : ∀ m m', m.exec = some m' → R m .stmt m')
    {n : ℕ} {m0 m k : Machine} {labels : List MachineLabel} (hrun : Run R m0 labels m)
    (hexecs : Machine.execs n m = some k) : ∃ labels', Run R m0 labels' k := by
  induction n generalizing m labels with
  | zero =>
      obtain rfl := Option.some.inj hexecs
      exact ⟨labels, hrun⟩
  | succ n ih =>
      obtain ⟨m1, hexec, hrest⟩ := Option.bind_eq_some_iff.mp hexecs
      exact ih (hrun.snoc (hstmt _ _ hexec)) hrest

namespace Machine

/-- The first task in user mode for the first time. -/
def firstUser : Machine :=
  { boot ⟨[], 0⟩ with
    tasks := (boot ⟨[], 0⟩).tasks.modify 1 fun t => { t with preemptDeadline := preemptTicks }
    current := some 1
    currVmem := some 1
    cr3 := some 1
    rsp0 := some 1
    schedCtx := some ⟨0, [.switchTo 1 .ret, .loop (.found 1)]⟩
    lastSched := some ⟨0, [.switchTo 1 .ret, .loop (.found 1)]⟩
    stack := 1
    frames := [.user 1] }

/-- The first task in user mode again, after one tick. -/
def secondUser : Machine :=
  { firstUser with
    tasks := firstUser.tasks.modify 1 fun t => { t with preemptDeadline := 1 + preemptTicks }
    timer := 1
    ctx := Function.update firstUser.ctx 1 (some ⟨1, [.switch .ret, .tick .iret, .user 1]⟩) }

theorem firstUser_idle {q : ℕ} (hq : q ≠ 1) (timer : ℕ) : (firstUser.tasks q).state ≠ .runnable ∧
    ¬((firstUser.tasks q).state = .sleeping ∧ (firstUser.tasks q).sleepUntil ≤ timer) := by
  have hzero : firstUser.tasks q = Task.zero := by
    simp only [firstUser, boot, TaskTable.modify_of_ne _ _ hq, Function.update_of_ne hq]
  rw [hzero]
  exact ⟨by decide, fun hsleep => by cases hsleep.1⟩

end Machine

theorem SafeStep.stmt {m m' : Machine} (hexec : m.exec = some m') : SafeStep m .stmt m' :=
  ⟨.stmt hexec, fun hl => by cases hl⟩

section Statements

variable {R : Machine → MachineLabel → Machine → Prop} (hstmt : ∀ m m', m.exec = some m' → R m .stmt m')

include hstmt

/-- The part of a pass from `i` to `j`, by entries with nothing to do. -/
theorem run_pass {m0 m : Machine} {i j : ℕ} {found : Bool} (hij : i ≤ j) (hj : j ≤ maxTaskCount)
    (hidle : ∀ q, i ≤ q → q < j → (m.tasks q).state ≠ .runnable ∧
      ¬((m.tasks q).state = .sleeping ∧ (m.tasks q).sleepUntil ≤ m.timer)) {labels : List MachineLabel}
    (hrun : Run R m0 labels (m.goto [.loop (Machine.loopAt i found)])) :
    ∃ labels', Run R m0 labels' (m.goto [.loop (Machine.loopAt j found)]) := by
  induction hij using Nat.decreasingInduction generalizing labels with
  | self => exact ⟨labels, hrun⟩
  | of_succ i hlt ih =>
      obtain ⟨hrunnable, hsleeping⟩ := hidle i (le_refl i) hlt
      rw [Machine.loopAt, if_pos (hlt.trans_le hj)] at hrun
      have hfirst : (m.goto [.loop (.sleeping i found)]).exec = some (m.goto [.loop (.runnable i found)]) := if_neg hsleeping
      have hsecond : (m.goto [.loop (.runnable i found)]).exec = some (m.goto [.loop (Machine.loopAt (i + 1) found)]) :=
        if_neg hrunnable
      exact ih (fun q hq => hidle q (by omega)) ((hrun.snoc (hstmt _ _ hfirst)).snoc (hstmt _ _ hsecond))

/-- The first task comes to user mode, and comes back there when a tick has ended its time
slice. -/
theorem run_preempted (htick : R Machine.firstUser .tick Machine.firstUser.interrupt) :
    ∃ before after, Run R (Machine.boot ⟨[], 0⟩) before Machine.firstUser ∧
      Run R (Machine.boot ⟨[], 0⟩) (before ++ .tick :: after) Machine.secondUser := by
  obtain ⟨before, hbefore⟩ := run_execs hstmt (n := 11) (k := Machine.firstUser) (Run.nil (s := Machine.boot ⟨[], 0⟩)) rfl
  obtain ⟨labels1, hrun1⟩ := run_execs hstmt (n := 11) (Run.nil (s := Machine.firstUser.interrupt)) rfl
  obtain ⟨labels2, hrun2⟩ := run_pass hstmt (i := 2) (j := maxTaskCount) (by decide) (le_refl _)
    (fun q hlo _ => by exact Machine.firstUser_idle (show q ≠ 1 by omega) 1) hrun1
  obtain ⟨labels3, hrun3⟩ := run_execs hstmt (n := 13) (k := Machine.secondUser) hrun2 rfl
  refine ⟨before, labels3, hbefore, ?_⟩
  have hrun := (hbefore.snoc htick).trans hrun3
  rwa [List.append_assoc] at hrun

end Statements

theorem contexts_own_preempted : ∃ before after, Machine.firstUser.TickSwitches ∧
    Run SafeStep (Machine.boot ⟨[], 0⟩) before Machine.firstUser ∧
    Run SafeStep (Machine.boot ⟨[], 0⟩) (before ++ .tick :: after) Machine.secondUser ∧ Machine.secondUser.ContextsOwn := by
  have htick : SafeStep Machine.firstUser .tick Machine.firstUser.interrupt := by
    refine ⟨.tick (by decide) rfl, ?_⟩
    rintro - ⟨_, _, _, hframes⟩
    cases hframes
  obtain ⟨before, after, hfirst, hsecond⟩ := run_preempted (fun _ _ => SafeStep.stmt) htick
  exact ⟨before, after, ⟨1, rfl, by decide⟩, hfirst, hsecond, contexts_own hsecond⟩

/-- The timer fires between `_current = next` and the switch of the stacks: `sched_switch` is
about to store the stack pointer of the scheduler as the context of the first task. -/
theorem context_misplaced : ∃ labels m, Run MachineStep (Machine.boot ⟨[], 0⟩) labels m ∧ ¬m.ContextsOwn := by
  obtain ⟨labels, hrun⟩ := run_execs (fun _ _ => MachineStep.stmt) (n := 6) (Run.nil (s := Machine.boot ⟨[], 0⟩)) rfl
  obtain ⟨labels', hrun'⟩ := run_execs (n := 6) (fun _ _ => MachineStep.stmt)
    (hrun.snoc (.tick (by decide) rfl)) rfl
  exact ⟨labels', _, hrun', fun hown => absurd (hown.onStack (t := 1) rfl (Or.inl rfl)) (by decide)⟩

end HeavenOS
