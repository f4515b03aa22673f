/-
# The idle scheduler

`context_switch` leaves the interrupt flag alone: the scheduler goes on with the flag of
whoever switched to it, and a handler has it clear. Then no tick comes, and what keeps the
scheduler from `x86_hlt` is an entry of the table that the pass finds.
-/

import HeavenOS.Sched.Contexts

namespace HeavenOS

open Lib

namespace Machine

/-! ## What is to hold -/

/-- `x86_hlt` is executed with interrupts enabled. -/
def HltWakes (m : Machine) : Prop := ∀ rest, m.frames = .loop .hlt :: rest → m.intr = true

/-- The entry is runnable, or the scheduler makes it so at this time. -/
def Ready (m : Machine) (timer i : ℕ) : Prop :=
  (m.tasks i).state = .runnable ∨ (m.tasks i).state = .sleeping ∧ (m.tasks i).sleepUntil ≤ timer

def SomeReady (m : Machine) (timer : ℕ) : Prop := ∃ i < maxTaskCount, m.Ready timer i

end Machine

/-- A step where a tick comes in user mode or on the kernel stack of a task, or ends `x86_hlt`. -/
def TaskStep (m : Machine) (l : MachineLabel) (m' : Machine) : Prop :=
  MachineStep m l m' ∧ (l = .tick → m.stack ≠ 0 ∨ m.frames = [.loop .hlt])

/-- A step where a tick that calls `sched_switch` leaves something to do for the scheduler. -/
def AwakeStep (m : Machine) (l : MachineLabel) (m' : Machine) : Prop :=
  SafeStep m l m' ∧ (l = .tick → m.TickSwitches → m.SomeReady ((m.timer + 1) % 2 ^ 64))

/-! ## With interrupts disabled -/

/-- What a system call still has to do when it comes back from `sched_switch`. -/
def Call.Tail : Call → Prop
  | .slept | .exited | .waited _ _ | .waitStatus _ _ | .waitReap _ | .sysret => True
  | _ => False

theorem Call.Behind.tail {call : Call} (h : call.Behind) : call.Tail := by
  cases call <;> first | exact h.elim | trivial

namespace Machine

/-- A pass that has come to `i` finds an entry, or has found one. -/
def FindsFrom (m : Machine) (i : ℕ) (found : Bool) : Prop :=
  ∃ q < maxTaskCount, m.Ready m.timer q ∧ (found = false → i ≤ q)

/-- At this statement of the loop the scheduler is going to find an entry. -/
def LoopFinds (m : Machine) : Loop → Prop
  | .sleeping i found => i < maxTaskCount ∧ m.FindsFrom i found
  | .wake i _ => i < maxTaskCount
  | .runnable i found => i < maxTaskCount ∧ (m.tasks i).state = .runnable ∨ m.FindsFrom (i + 1) found
  | .passEnd found => found = true ∧ m.SomeReady m.timer
  | .hlt => False
  | _ => m.SomeReady m.timer

/-- What holds before a statement that is executed with interrupts disabled. -/
def MaskedAt (m : Machine) : List Frame → Prop
  | .loop next :: _ => m.LoopFinds next
  | .switchTo _ _ :: _ => m.SomeReady m.timer
  | .switch .ret :: _ => True
  | .switch _ :: _ => m.SomeReady m.timer
  | .tick .count :: _ => m.TickSwitches → m.SomeReady ((m.timer + 1) % 2 ^ 64)
  | .tick .iret :: _ => True
  | .tick _ :: _ => ∀ p, m.current = some p → m.timer ≤ (m.tasks p).preemptDeadline → m.SomeReady m.timer
  | .call call :: _ => call.Tail
  | .user _ :: _ => False
  | [] => True

def Masked (m : Machine) : Prop := m.intr = false → m.MaskedAt m.frames

theorem Masked.hltWakes {m : Machine} (h : m.Masked) : m.HltWakes := by
  intro rest hframes
  by_contra hintr
  have hat := h (by simpa using hintr)
  rw [hframes] at hat
  exact hat

theorem Masked.of_intr {m : Machine} (hintr : m.intr = true) : m.Masked := by
  intro hoff
  rw [hintr] at hoff
  cases hoff

theorem masked_stop (m : Machine) (msg : Panic) : (m.stop msg).Masked := fun _ => trivial

theorem masked_withCurrent {m : Machine} {f : ℕ → Machine} (hf : ∀ p, m.current = some p → (f p).Masked) :
    (m.withCurrent f).Masked := by
  unfold withCurrent
  split
  · exact masked_stop m _
  · next p hcur => exact hf p hcur

/-! ## Steps of the scheduler -/

section Loop

variable {m : Machine} {i : ℕ} {found : Bool}

theorem FindsFrom.some (h : m.FindsFrom i found) : m.SomeReady m.timer := by
  obtain ⟨q, hq, hready, -⟩ := h
  exact ⟨q, hq, hready⟩

theorem SomeReady.findsFrom (h : m.SomeReady m.timer) (hall : found = false → i = 0) : m.FindsFrom i found := by
  obtain ⟨q, hq, hready⟩ := h
  exact ⟨q, hq, hready, fun hno => by rw [hall hno]; exact q.zero_le⟩

/-- The head of the `for` loop. -/
theorem FindsFrom.loopAt (h : m.FindsFrom i found) : m.LoopFinds (HeavenOS.Machine.loopAt i found) := by
  obtain ⟨q, hq, hready, hfrom⟩ := h
  unfold Machine.loopAt
  split_ifs with hi
  · exact ⟨hi, q, hq, hready, hfrom⟩
  · refine ⟨?_, q, hq, hready⟩
    by_contra hno
    have := hfrom (by simpa using hno)
    omega

/-- An entry that the pass goes by is not the one to be found. -/
theorem FindsFrom.next (h : m.FindsFrom i found)
    (hawake : ¬((m.tasks i).state = .sleeping ∧ (m.tasks i).sleepUntil ≤ m.timer)) :
    i < maxTaskCount ∧ (m.tasks i).state = .runnable ∨ m.FindsFrom (i + 1) found := by
  obtain ⟨q, hq, hready, hfrom⟩ := h
  by_cases hqi : q = i
  · subst hqi
    exact Or.inl ⟨hq, hready.resolve_right hawake⟩
  · refine Or.inr ⟨q, hq, hready, fun hno => ?_⟩
    have := hfrom hno
    omega

/-- Assignments to fields that the scheduler does not look for. -/
theorem someReady_modify {m' : Machine} (j : ℕ) (f : Task → Task)
    (hf : ∀ t : Task, (f t).state = t.state ∧ (f t).sleepUntil = t.sleepUntil)
    (htasks : m'.tasks = m.tasks.modify j f) (timer : ℕ) : m'.SomeReady timer ↔ m.SomeReady timer := by
  have hready (q : ℕ) : m'.Ready timer q ↔ m.Ready timer q := by
    unfold Ready
    rw [htasks, TaskTable.modify_apply]
    split_ifs
    · rw [(hf _).1, (hf _).2]
    · rfl
  exact exists_congr fun q => and_congr_right fun _ => hready q

/-- The next statement of the loop. -/
theorem Masked.execLoop {next : Loop} (hat : m.intr = false → m.LoopFinds next) {rest : List Frame} {m' : Machine}
    (hexec : m.execLoop rest next = some m') : m'.Masked := by
  cases next with
  | sleeping i found =>
      simp only [Machine.execLoop] at hexec
      split_ifs at hexec with hsleep
      · obtain rfl := Option.some.inj hexec
        exact fun hoff => (hat hoff).1
      · obtain rfl := Option.some.inj hexec
        exact fun hoff => (hat hoff).2.next hsleep
  | wake i found =>
      obtain rfl := Option.some.inj hexec
      intro hoff
      refine Or.inl ⟨hat hoff, ?_⟩
      show ((m.tasks.modify i _) i).state = _
      rw [TaskTable.modify_self]
  | runnable i found =>
      simp only [Machine.execLoop] at hexec
      split_ifs at hexec with hrun
      · obtain rfl := Option.some.inj hexec
        exact fun hoff => (hat hoff).elim (fun hi => ⟨i, hi.1, Or.inl hi.2⟩) FindsFrom.some
      · obtain rfl := Option.some.inj hexec
        exact fun hoff => ((hat hoff).resolve_left fun hi => hrun hi.2).loopAt
  | found i =>
      obtain rfl := Option.some.inj hexec
      exact hat
  | zombie i =>
      simp only [Machine.execLoop] at hexec
      split_ifs at hexec
      · obtain rfl := Option.some.inj hexec
        exact hat
      · obtain rfl := Option.some.inj hexec
        exact fun hoff => (SomeReady.findsFrom (hat hoff) fun hno => (by cases hno)).loopAt
  | cr3 i =>
      obtain rfl := Option.some.inj hexec
      exact hat
  | currVmem i =>
      obtain rfl := Option.some.inj hexec
      exact hat
  | destroyVmem i =>
      simp only [Machine.execLoop] at hexec
      split_ifs at hexec
      · exact Option.some.inj hexec ▸ masked_stop m _
      · obtain rfl := Option.some.inj hexec
        intro hoff
        exact (someReady_modify i (fun t => { t with vmemLive := false }) (fun _ => ⟨rfl, rfl⟩) rfl _).mpr (hat hoff)
  | destroyThread i =>
      obtain rfl := Option.some.inj hexec
      intro hoff
      have hready : SomeReady { m with tasks := m.tasks.modify i fun t => { t with kstackLive := false } } m.timer :=
        (someReady_modify i (fun t => { t with kstackLive := false }) (fun _ => ⟨rfl, rfl⟩) rfl _).mpr (hat hoff)
      exact (SomeReady.findsFrom hready fun hno => (by cases hno)).loopAt
  | passEnd found =>
      simp only [Machine.execLoop] at hexec
      split_ifs at hexec with hfound
      · obtain rfl := Option.some.inj hexec
        exact fun hoff => (SomeReady.findsFrom (hat hoff).2 fun _ => rfl).loopAt
      · obtain rfl := Option.some.inj hexec
        exact fun hoff => absurd (hat hoff).1 hfound
  | hlt => cases hexec

end Loop

/-! ## The other statements -/

section Steps

variable {m : Machine}

/-- `context_switch` to a stack that waits for the processor. -/
theorem masked_load {m : Machine} (left : StackPtr) (ctx : Option StackPtr)
    (hctx : ∀ sp, ctx = some sp → m.intr = false → m.MaskedAt sp.frames) : (m.load left ctx).Masked := by
  cases ctx with
  | none => exact masked_stop m _
  | some sp => exact fun hoff => hctx sp rfl hoff

/-- The next statement of `sched_switch_to`. -/
theorem Masked.execSwitchTo {n : ℕ} {next : SwitchTo} (hinv : m.CtxInv)
    (hat : m.intr = false → m.SomeReady m.timer) {rest : List Frame} (hrest : rest = [.loop (.found n)]) :
    (m.execSwitchTo rest n next).Masked := by
  cases next with
  | current => exact hat
  | deadline =>
      refine masked_withCurrent fun p hcur hoff => ?_
      exact (someReady_modify p (fun t => { t with preemptDeadline := (m.timer + preemptTicks) % 2 ^ 64 })
        (fun _ => ⟨rfl, rfl⟩) rfl _).mpr (hat hoff)
  | cr3 => exact hat
  | currVmem => exact hat
  | rsp0 => exact hat
  | go =>
      refine masked_load _ _ fun sp hsp hoff => ?_
      obtain ⟨-, -, rest', hframes | hframes⟩ := hinv.ctx hsp
      · rw [hframes]
        trivial
      · rw [hframes]
        trivial
  | ret =>
      subst hrest
      exact hat

/-- The next statement of `sched_switch`. -/
theorem Masked.execSwitch {next : Switch} (hat : next ≠ .ret → m.intr = false → m.SomeReady m.timer)
    {rest : List Frame} (hret : (∃ rest', rest = .tick .iret :: rest') ∨ ∃ call rest', rest = .call call :: rest' ∧ call.Behind)
    (hsched : ∀ sp, m.schedCtx = some sp → ∃ n rest', sp.frames = .switchTo n .ret :: rest') :
    (m.execSwitch rest next).Masked := by
  cases next with
  | check =>
      simp only [Machine.execSwitch]
      split_ifs
      · exact masked_stop m _
      · exact hat (by simp)
  | read => exact masked_withCurrent fun p hcur => hat (by simp)
  | clear prev => exact hat (by simp)
  | rsp0 prev => exact hat (by simp)
  | go prev =>
      refine masked_load _ _ fun sp hsp hoff => ?_
      obtain ⟨n, rest', hframes⟩ := hsched sp hsp
      rw [hframes]
      exact hat (by simp) hoff
  | ret =>
      intro hoff
      rcases hret with ⟨rest', rfl⟩ | ⟨call, rest', rfl, hbehind⟩
      · trivial
      · exact hbehind.tail

/-- The next statement of the handler. -/
theorem Masked.execTick {next : Tick} {rest : List Frame} (hat : m.intr = false → m.MaskedAt (.tick next :: rest)) :
    (m.execTick rest next).Masked := by
  cases next with
  | count => exact fun hoff p hcur hdue => hat hoff ⟨p, hcur, hdue⟩
  | test =>
      simp only [Machine.execTick]
      split_ifs
      · exact fun _ => trivial
      · exact hat
  | deadline =>
      refine masked_withCurrent fun p hcur => ?_
      split_ifs with hdue
      · exact fun hoff => hat hoff p hcur hdue
      · exact fun _ => trivial
  | iret => exact .of_intr rfl

theorem withCurrent_intr {f : ℕ → Machine} (hon : m.intr = true) (hf : ∀ p, (f p).intr = true) :
    (m.withCurrent f).intr = true := by
  unfold withCurrent
  split
  · exact hon
  · exact hf _

/-- No statement of a system call disables interrupts. -/
theorem execCall_intr {call : Call} {rest : List Frame} {m' : Machine} (hon : m.intr = true)
    (hexec : m.execCall rest call = some m') : m'.intr = true := by
  unfold Machine.execCall at hexec
  cases call with
  | forkChoose =>
      cases hchoice : schedAllocateTask m.tasks with
      | none =>
          simp only [hchoice] at hexec
          exact Option.some.inj hexec ▸ hon
      | some choice =>
          simp only [hchoice] at hexec
          exact Option.some.inj hexec ▸ hon
  | forkVmem c => cases hexec
  | forkThread c => cases hexec
  | exitTest =>
      refine Option.some.inj hexec ▸ withCurrent_intr hon fun p => ?_
      dsimp only
      split_ifs <;> exact hon
  | waitChild c st =>
      refine Option.some.inj hexec ▸ withCurrent_intr hon fun p => ?_
      split_ifs <;> exact hon
  | waitState c st =>
      simp only at hexec
      split_ifs at hexec <;> exact Option.some.inj hexec ▸ hon
  | waited c st =>
      simp only at hexec
      split_ifs at hexec <;> exact Option.some.inj hexec ▸ hon
  | waitStatus c st =>
      refine Option.some.inj hexec ▸ withCurrent_intr hon fun p => ?_
      split_ifs <;> exact hon
  | getpid => exact Option.some.inj hexec ▸ withCurrent_intr hon fun _ => hon
  | sleepUntil ms => exact Option.some.inj hexec ▸ withCurrent_intr hon fun _ => hon
  | sleepState => exact Option.some.inj hexec ▸ withCurrent_intr hon fun _ => hon
  | forkPpid c => exact Option.some.inj hexec ▸ withCurrent_intr hon fun _ => hon
  | exitCode code => exact Option.some.inj hexec ▸ withCurrent_intr hon fun _ => hon
  | exitState => exact Option.some.inj hexec ▸ withCurrent_intr hon fun _ => hon
  | waitMark c st => exact Option.some.inj hexec ▸ withCurrent_intr hon fun _ => hon
  | waitPid c st => exact Option.some.inj hexec ▸ withCurrent_intr hon fun _ => hon
  | sysret => exact Option.some.inj hexec ▸ rfl
  | _ => exact Option.some.inj hexec ▸ hon

/-- The next statement of a system call. -/
theorem Masked.execCall {call : Call} {rest : List Frame} (hat : m.intr = false → call.Tail) {m' : Machine}
    (hexec : m.execCall rest call = some m') : m'.Masked := by
  cases call with
  | slept =>
      obtain rfl := Option.some.inj hexec
      exact fun _ => trivial
  | exited => exact Option.some.inj hexec ▸ masked_stop m _
  | waited c st =>
      simp only [Machine.execCall] at hexec
      split_ifs at hexec
      · obtain rfl := Option.some.inj hexec
        exact fun _ => trivial
      · exact Option.some.inj hexec ▸ masked_stop m _
  | waitStatus c st =>
      refine Option.some.inj hexec ▸ masked_withCurrent fun p hcur => ?_
      split_ifs
      · exact fun _ => trivial
      · exact fun _ => trivial
  | waitReap c =>
      obtain rfl := Option.some.inj hexec
      exact fun _ => trivial
  | sysret => exact Option.some.inj hexec ▸ .of_intr rfl
  | _ => exact .of_intr (execCall_intr (by simpa [Call.Tail] using hat) hexec)

/-- A tick comes. -/
theorem masked_interrupt (hready : m.TickSwitches → m.SomeReady ((m.timer + 1) % 2 ^ 64)) : m.interrupt.Masked := by
  have htick (stack : ℕ) (frames : List Frame) :
      Masked { m with intr := false, stack := stack, frames := .tick .count :: frames } := fun _ => hready
  unfold interrupt
  split
  · split
    · exact masked_stop m _
    · exact htick _ _
  · exact htick m.stack _
  · exact htick m.stack _

/-- The next statement, whatever is on top of the stack. -/
theorem Masked.exec (h : m.Masked) (hinv : m.CtxInv) {m' : Machine} (hexec : m.exec = some m') : m'.Masked := by
  have hat : m.intr = false → m.MaskedAt m.frames := h
  unfold Machine.exec at hexec
  split at hexec
  · cases hexec
  · next next rest hframes =>
      rw [hframes] at hat
      exact Masked.execLoop hat hexec
  · next n next rest hframes =>
      rw [hframes] at hat
      exact Option.some.inj hexec ▸ Masked.execSwitchTo hinv hat (hinv.inSwitchTo hframes).2
  · next next rest hframes =>
      rw [hframes] at hat
      obtain ⟨p, hp, -, hret⟩ := hinv.inSwitch hframes
      refine Option.some.inj hexec ▸ Masked.execSwitch (fun hnext hoff => ?_) hret fun sp hsp => ?_
      · cases next with
        | ret => exact absurd rfl hnext
        | _ => exact hat hoff
      · rw [hp.sched.1] at hsp
        obtain rfl := Option.some.inj hsp
        exact ⟨p, _, rfl⟩
  · next next rest hframes =>
      rw [hframes] at hat
      exact Option.some.inj hexec ▸ Masked.execTick hat
  · next call rest hframes =>
      rw [hframes] at hat
      exact Masked.execCall hat hexec
  · cases hexec

theorem Masked.step (h : m.Masked) (hinv : m.CtxInv) {l : MachineLabel} {m' : Machine} (hstep : AwakeStep m l m') :
    m'.Masked := by
  obtain ⟨⟨hstep, -⟩, hready⟩ := hstep
  have hfork {call : Call} {rest : List Frame} (hframes : m.frames = .call call :: rest)
      (hcall : ∃ child, call = .forkVmem child ∨ call = .forkThread child) : m.intr = true := by
    by_contra hoff
    have hat := h (by simpa using hoff)
    rw [hframes] at hat
    obtain ⟨child, rfl | rfl⟩ := hcall
    · exact hat
    · exact hat
  cases hstep with
  | tick hruns hintr => exact masked_interrupt (hready rfl)
  | enter huser hcall => exact masked_withCurrent fun p hcur => .of_intr rfl
  | cloneVmem hframes => exact .of_intr (hfork hframes ⟨_, Or.inl rfl⟩)
  | cloneThread hframes hnew => exact .of_intr (hfork hframes ⟨_, Or.inr rfl⟩)
  | cloneFails hframes hcall => exact .of_intr (hfork hframes hcall)
  | stmt hexec => exact h.exec hinv hexec

end Steps

end Machine

/-- In every run where no tick calls `sched_switch` while there is nothing to do for the
scheduler, `x86_hlt` is only executed with interrupts enabled. -/
theorem hlt_wakes {vm : Vmem} {labels : List MachineLabel} {m : Machine} (hrun : Run AwakeStep (Machine.boot vm) labels m) :
    m.HltWakes := by
  have hinv : m.CtxInv ∧ m.Masked :=
    hrun.invariant (fun m => m.CtxInv ∧ m.Masked) ⟨.boot vm, .of_intr rfl⟩
      fun _ _ _ h hstep => ⟨h.1.step hstep.1, h.2.step h.1 hstep⟩
  exact hinv.2.hltWakes

/-! ## A tick that leaves nothing to do -/

theorem TaskStep.stmt {m m' : Machine} (hexec : m.exec = some m') : TaskStep m .stmt m' :=
  ⟨.stmt hexec, fun hl => by cases hl⟩

/-- The ticks of a run are outside `sched_switch_to`. -/
theorem TaskStep.safe {m m' : Machine} {l : MachineLabel} (h : m.CtxInv) (hstep : TaskStep m l m') : SafeStep m l m' := by
  refine ⟨hstep.1, fun hl hin => ?_⟩
  obtain ⟨n, next, rest, hframes⟩ := hin
  rcases hstep.2 hl with hstack | hhlt
  · exact absurd (h.inSwitchTo hframes).1 hstack
  · rw [hhlt] at hframes
    cases hframes

namespace Machine

section Halts

variable {m m0 : Machine}

section Statements

variable {R : Machine → MachineLabel → Machine → Prop} (hstmt : ∀ m m', m.exec = some m' → R m .stmt m')

include hstmt

/-- From the middle of a pass that has found a task, when there is nothing more to do, to
`x86_hlt`. -/
theorem run_hlt (hnone : ¬m.SomeReady m.timer) (i : ℕ) {labels : List MachineLabel}
    (hrun : Run R m0 labels (m.goto [.loop (loopAt i true)])) :
    ∃ labels', Run R m0 labels' (m.goto [.loop .hlt]) := by
  have hpass {i : ℕ} {found : Bool} {labels : List MachineLabel}
      (hrun : Run R m0 labels (m.goto [.loop (loopAt i found)])) :
      ∃ labels', Run R m0 labels' (m.goto [.loop (.passEnd found)]) := by
    have hend {j : ℕ} (hj : maxTaskCount ≤ j) : loopAt j found = .passEnd found := if_neg (not_lt.mpr hj)
    rcases le_or_gt i maxTaskCount with hi | hi
    · rw [← hend (le_refl maxTaskCount)]
      exact run_pass hstmt hi (le_refl _) (fun q _ hq => not_or.mp fun hready => hnone ⟨q, hq, hready⟩) hrun
    · exact ⟨labels, hend hi.le ▸ hrun⟩
  obtain ⟨labels1, hrun1⟩ := hpass hrun
  have hagain : (m.goto [.loop (.passEnd true)]).exec = some (m.goto [.loop (loopAt 0 false)]) := rfl
  obtain ⟨labels2, hrun2⟩ := hpass (hrun1.snoc (hstmt _ _ hagain))
  have hlast : (m.goto [.loop (.passEnd false)]).exec = some (m.goto [.loop .hlt]) := rfl
  exact ⟨_, hrun2.snoc (hstmt _ _ hlast)⟩

/-- Back in the scheduler with nothing to do: it executes `x86_hlt`, and the interrupt flag is
as it was. -/
theorem run_back (hnone : ¬m.SomeReady m.timer) (p : ℕ) {labels : List MachineLabel}
    (hrun : Run R m0 labels (m.goto [.switchTo p .ret, .loop (.found p)])) :
    ∃ labels' m', Run R m0 labels' m' ∧ m'.frames = [.loop .hlt] ∧ m'.intr = m.intr := by
  have hreturn : execs 2 (m.goto [.switchTo p .ret, .loop (.found p)]) = some (m.goto [.loop (.zombie p)]) := rfl
  obtain ⟨labels1, hrun1⟩ := run_execs hstmt hrun hreturn
  by_cases hzombie : (m.tasks p).state = .zombie
  · have hfirst : (m.goto [.loop (.zombie p)]).exec = some (m.goto [.loop (.cr3 p)]) := if_pos hzombie
    let freed := (m.tasks.modify p fun t => { t with vmemLive := false }).modify p fun t => { t with kstackLive := false }
    have hfree : execs 4 (m.goto [.loop (.cr3 p)]) =
        some ({ m with cr3 := none, currVmem := none, tasks := freed }.goto [.loop (loopAt (p + 1) true)]) := rfl
    obtain ⟨labels2, hrun2⟩ := run_execs hstmt (hrun1.snoc (hstmt _ _ hfirst)) hfree
    have hnone' : ¬SomeReady { m with cr3 := none, currVmem := none, tasks := freed } m.timer := by
      intro hready
      have hthread := (someReady_modify (m := { m with tasks := m.tasks.modify p fun t => { t with vmemLive := false } })
        p (fun t => { t with kstackLive := false }) (fun _ => ⟨rfl, rfl⟩) rfl m.timer).mp hready
      exact hnone ((someReady_modify p (fun t => { t with vmemLive := false }) (fun _ => ⟨rfl, rfl⟩) rfl m.timer).mp hthread)
    obtain ⟨labels3, hrun3⟩ := run_hlt hstmt hnone' (p + 1) hrun2
    exact ⟨labels3, _, hrun3, rfl, rfl⟩
  · have hfirst : (m.goto [.loop (.zombie p)]).exec = some (m.goto [.loop (loopAt (p + 1) true)]) := if_neg hzombie
    obtain ⟨labels2, hrun2⟩ := run_hlt hstmt hnone (p + 1) (hrun1.snoc (hstmt _ _ hfirst))
    exact ⟨labels2, _, hrun2, rfl, rfl⟩

end Statements

/-- A tick on the stack of a task that calls `sched_switch` while there is nothing to do for the
scheduler: the scheduler executes `x86_hlt` with interrupts disabled. -/
theorem tick_halts (h : m.CtxInv) (hintr : m.intr = true) (hruns : m.frames ≠ []) (hstack : m.stack ≠ 0)
    (hswitches : m.TickSwitches) (hnone : ¬m.SomeReady ((m.timer + 1) % 2 ^ 64)) {labels : List MachineLabel}
    (hrun : Run TaskStep m0 labels m) : ∃ labels' m', Run TaskStep m0 labels' m' ∧ ¬m'.HltWakes := by
  obtain ⟨p, hcur, hdue⟩ := hswitches
  obtain ⟨hp, hres⟩ := h.inTask hintr hruns hstack hcur
  have hinterrupt := interrupt_task hp hcur hres
  have htick : TaskStep m .tick m.interrupt := ⟨.tick hruns hintr, fun _ => Or.inl hstack⟩
  rw [hinterrupt] at htick
  have hexecs : execs 8 { m with intr := false, frames := .tick .count :: m.frames } =
      some ({ m with
          intr := false
          timer := (m.timer + 1) % 2 ^ 64
          current := none
          rsp0 := none
          ctx := Function.update m.ctx p (some ⟨m.stack, .switch .ret :: .tick .iret :: m.frames⟩)
          lastSched := if m.stack = 0 then some ⟨m.stack, .switch .ret :: .tick .iret :: m.frames⟩ else m.lastSched
          stack := 0 }.goto [.switchTo p .ret, .loop (.found p)]) := by
    simp only [execs, exec, execTick, execSwitch, withCurrent, hcur, goto, load, hp.sched.1, if_pos hdue, reduceCtorEq,
      if_false, Option.bind_some]
  obtain ⟨labels1, hrun1⟩ := run_execs (fun _ _ => TaskStep.stmt) (hrun.snoc htick) hexecs
  obtain ⟨labels2, m', hrun2, hhlt, hintr'⟩ := run_back (fun _ _ => TaskStep.stmt) hnone p hrun1
  exact ⟨labels2, m', hrun2, fun hwakes => by cases (hwakes [] hhlt).symm.trans hintr'⟩

end Halts

end Machine

/-! The first task comes to user mode, and calls `sys_sleep(1000)`. -/

/-- In `sched_switch_to` again, behind the `context_switch` of `sys_sleep`. -/
def Machine.firstAsleep : Machine :=
  { secondUser with
    tasks := (secondUser.tasks.modify 1 fun t => { t with sleepUntil := 1 + 1000 / schedTimerPeriod }).modify 1
      fun t => { t with state := .sleeping }
    current := none
    rsp0 := none
    ctx := Function.update secondUser.ctx 1 (some ⟨1, [.switch .ret, .call .slept, .user 1]⟩)
    stack := 0
    frames := [.switchTo 1 .ret, .loop (.found 1)] }

theorem Machine.firstAsleep_idle : ¬firstAsleep.SomeReady firstAsleep.timer := by
  rintro ⟨q, -, hready⟩
  by_cases hq : q = 1
  · subst hq
    rcases hready with hstate | ⟨-, hdue⟩
    · cases hstate
    · exact absurd hdue (by decide)
  · have hsame : firstAsleep.tasks q = firstUser.tasks q := by
      simp only [firstAsleep, secondUser, TaskTable.modify_of_ne _ _ hq]
    rw [Ready, hsame] at hready
    exact not_or.mpr (firstUser_idle hq _) hready

/-- Before that a tick ends its time slice and finds it runnable; then the scheduler waits for
the task to wake up. -/
theorem hlt_wakes_slept : ∃ before after m, Machine.firstUser.TickSwitches ∧
    Run AwakeStep (Machine.boot ⟨[], 0⟩) before Machine.firstUser ∧
    Run AwakeStep (Machine.boot ⟨[], 0⟩) (before ++ .tick :: after) m ∧ m.frames = [.loop .hlt] ∧ m.HltWakes := by
  have hstmt (m m' : Machine) (hexec : m.exec = some m') : AwakeStep m .stmt m' :=
    ⟨SafeStep.stmt hexec, fun hl => by cases hl⟩
  have htick : AwakeStep Machine.firstUser .tick Machine.firstUser.interrupt := by
    refine ⟨⟨.tick (by decide) rfl, ?_⟩, fun _ _ => ⟨1, by decide, Or.inl rfl⟩⟩
    rintro - ⟨_, _, _, hframes⟩
    cases hframes
  obtain ⟨before, after, hfirst, hsecond⟩ := run_preempted hstmt htick
  have hsleep : Call.IsFirst (.sleepUntil 1000) := trivial
  have henter : AwakeStep Machine.secondUser .enter _ :=
    ⟨⟨.enter rfl hsleep, fun hl => by cases hl⟩, fun hl => by cases hl⟩
  obtain ⟨labels, hrun⟩ := run_execs hstmt (n := 7) (k := Machine.firstAsleep) (Run.single AwakeStep henter) rfl
  obtain ⟨labels', m, hrun', hhlt, -⟩ := Machine.run_back hstmt Machine.firstAsleep_idle 1 hrun
  have hall := hsecond.trans hrun'
  rw [List.append_assoc, List.cons_append] at hall
  exact ⟨before, after ++ labels', m, ⟨1, rfl, by decide⟩, hfirst, hall, hhlt, hlt_wakes hall⟩

/-- The tick comes between `sched_current()->state = TASK_SLEEPING` and `sched_switch()`. -/
theorem hlt_masked : ∃ labels m, Run TaskStep (Machine.boot ⟨[], 0⟩) labels m ∧ ¬m.HltWakes := by
  obtain ⟨labels, hrun⟩ := run_execs (fun _ _ => TaskStep.stmt) (n := 11) (Run.nil (s := Machine.boot ⟨[], 0⟩)) rfl
  have hsleep : Call.IsFirst (.sleepUntil 1000) := trivial
  have henter := hrun.snoc ⟨.enter rfl hsleep, fun hl => by cases hl⟩
  obtain ⟨labels', hrun'⟩ := run_execs (fun _ _ => TaskStep.stmt) (n := 2) henter rfl
  have hinv := hrun'.invariant Machine.CtxInv (.boot _) fun _ _ _ h hstep => h.step (hstep.safe h)
  refine Machine.tick_halts hinv rfl (List.cons_ne_nil _ _) (by decide) ⟨1, rfl, by decide⟩ ?_ hrun'
  rintro ⟨q, -, hready⟩
  by_cases hq : q = 1
  · subst hq
    rcases hready with hstate | ⟨-, hdue⟩
    · cases hstate
    · exact absurd hdue (by decide)
  · simp [Machine.Ready, Machine.boot, Machine.execSwitchTo, Machine.execTick, Machine.withCurrent, Machine.goto,
      Machine.load, TaskTable.modify_of_ne, hq, Task.zero] at hready

end HeavenOS
