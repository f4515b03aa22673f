/-
# Time slices

`sched_switch_to` sets the deadline of a task, `sched_timer_tick` compares it with the
timer. The comparison is `preempt_deadline >= sched_timer`, and so it is the first tick of
a time slice that ends it, not the last one.
-/

import HeavenOS.Sched.Wakeup

namespace HeavenOS

open Lib

/-! ## Slices -/

def StmtLabel.isTick : StmtLabel → Bool
  | .tick => true
  | _ => false

/-- The number of ticks in a run. -/
def tickCount (labels : List StmtLabel) : ℕ := labels.countP StmtLabel.isTick

/-- What a step makes of the time at which the last time slice began. -/
def StmtLabel.startAfter (start : ℕ) : StmtLabel → ℕ
  | .sched (.run _ timer) => timer
  | _ => start

/-- The value of `sched_timer` when `sched_switch_to` was called last. -/
def sliceStart (labels : List StmtLabel) : ℕ := labels.foldl StmtLabel.startAfter 0

/-- What the time slice of `p` that began at `start` asks of a tick that leads to `t`: the
task is not switched out before `start + PREEMPT_TICKS`, and it is switched out by
`start + PREEMPT_TICKS + 1`. -/
def RespectsSlice (start p : ℕ) (t : System Pc) : Prop :=
  (t.cpu ≠ .task p → start + preemptTicks ≤ t.timer) ∧ (start + preemptTicks + 1 ≤ t.timer → t.cpu ≠ .task p)

theorem tickCount_append (labels : List StmtLabel) (l : StmtLabel) :
    tickCount (labels ++ [l]) = tickCount labels + if l.isTick then 1 else 0 := by
  rw [tickCount, List.countP_append, List.countP_singleton]
  rfl

theorem sliceStart_append (labels : List StmtLabel) (l : StmtLabel) :
    sliceStart (labels ++ [l]) = l.startAfter (sliceStart labels) := by
  simp only [sliceStart, List.foldl_append, List.foldl_cons, List.foldl_nil]

/-! ## The timer and the deadline of the current task -/

/-- While a task is current, no tick has come since its time slice began. -/
structure SliceInv (labels : List StmtLabel) (s : System Pc) : Prop where
  onCpu : ∀ {p}, s.cpu = .task p →
    s.current = some p ∨ s.current = none ∧ ∃ next, s.conts p = .switchGo p next
  inSched : (∀ p, s.cpu ≠ .task p) → (∀ msg, s.cpu ≠ .panicked msg) → s.current = none
  prev : ∀ {p q next}, s.conts p = .switchClear q next ∨ s.conts p = .switchGo q next → q = p
  gone : ∀ {p q next}, s.conts p = .switchGo q next → s.cpu = .task p ∧ s.current = none
  timer : s.timer = tickCount labels
  slice : ∀ {p}, s.current = some p →
    s.timer = sliceStart labels ∧ (s.tasks p).preemptDeadline = sliceStart labels + preemptTicks

theorem SliceInv.boot (vm : Vmem) : SliceInv [] (System.boot vm Pc.user) := by
  refine ⟨fun hq => (by cases hq), fun _ _ => rfl, ?_, fun hq => (by cases hq), rfl, fun hq => (by cases hq)⟩
  rintro p q next (hq | hq) <;> cases hq

/-- No deadline changes when a task forks. -/
theorem sysFork_deadline {tasks tasks' : TaskTable} {p c : ℕ} {vm : Vmem} (hfork : sysFork tasks p vm = some (c, tasks'))
    (i : ℕ) : (tasks' i).preemptDeadline = (tasks i).preemptDeadline := by
  unfold sysFork at hfork
  cases halloc : schedAllocateTask tasks with
  | none =>
      rw [halloc] at hfork
      cases hfork
  | some found =>
      obtain ⟨child, tasks1⟩ := found
      rw [halloc] at hfork
      obtain ⟨-, -, -, rfl⟩ := schedAllocateTask_spec halloc
      obtain ⟨-, rfl⟩ := Prod.mk.inj (Option.some.inj hfork)
      rw [TaskTable.modify_apply, TaskTable.modify_apply]
      split_ifs <;> rfl

section Steps

variable {labels : List StmtLabel} {s t : System Pc} (h : SliceInv labels s)

include h

/-- The first tick of a time slice ends it. -/
theorem SliceInv.preempts {p : ℕ} (hcur : s.current = some p) (hwrap : tickCount labels + preemptTicks < 2 ^ 64) :
    (s.timer + 1) % 2 ^ 64 = s.timer + 1 ∧ (s.timer + 1) % 2 ^ 64 ≤ (s.tasks p).preemptDeadline := by
  obtain ⟨hstart, hdeadline⟩ := h.slice hcur
  have htimer := h.timer
  have hticks : preemptTicks = 10 := rfl
  have hmod : (s.timer + 1) % 2 ^ 64 = s.timer + 1 := Nat.mod_eq_of_lt (by omega)
  exact ⟨hmod, by omega⟩

/-- The task on the processor goes on at `k`. -/
theorem SliceInv.move {p : ℕ} (hcpu : s.cpu = .task p) {l : StmtLabel} (hl : l.isTick = false ∧ ∀ n, l.startAfter n = n)
    (k : Pc) (tasks : TaskTable) (current : Option ℕ)
    (hcur : current = some p ∧ s.current = some p ∧ (∀ q next, k ≠ .switchGo q next) ∨
      current = none ∧ ∃ next, k = .switchGo p next)
    (hprev : ∀ q next, k = .switchClear q next → q = p)
    (hdeadline : ∀ i, (tasks i).preemptDeadline = (s.tasks i).preemptDeadline) :
    SliceInv (labels ++ [l]) { s with tasks := tasks, current := current, conts := Function.update s.conts p k } := by
  have hat : Function.update s.conts p k p = k := Function.update_self _ _ _
  have hoff {q : ℕ} (hq : q ≠ p) : Function.update s.conts p k q = s.conts q := Function.update_of_ne hq _ _
  refine ⟨fun {q} hq => ?_, fun hno => absurd hcpu (hno p), fun {q q' next} hq => ?_, fun {q q' next} hq => ?_, ?_,
    fun {q} hq => ?_⟩
  · obtain rfl : p = q := Cpu.task.inj (hcpu.symm.trans hq)
    simp only [hat]
    exact hcur.imp And.left id
  · by_cases hqp : q = p
    · subst hqp
      simp only [hat] at hq
      rcases hq with hq | hq
      · exact hprev q' next hq
      · rcases hcur with ⟨-, -, hno⟩ | ⟨-, next', hgo⟩
        · exact absurd hq (hno q' next)
        · rw [hgo] at hq
          exact (Pc.switchGo.inj hq).1.symm
    · simp only [hoff hqp] at hq
      exact h.prev hq
  · by_cases hqp : q = p
    · subst hqp
      simp only [hat] at hq
      rcases hcur with ⟨-, -, hno⟩ | ⟨hnone, -⟩
      · exact absurd hq (hno q' next)
      · exact ⟨hcpu, hnone⟩
    · simp only [hoff hqp] at hq
      exact absurd (Cpu.task.inj ((h.gone hq).1.symm.trans hcpu)) hqp
  · rw [tickCount_append, hl.1]
    exact h.timer
  · rw [sliceStart_append, hl.2]
    rcases hcur with ⟨hsome, hold, -⟩ | ⟨hnone, -⟩
    · obtain rfl : p = q := Option.some.inj (hsome.symm.trans hq)
      simp only [hdeadline]
      exact h.slice hold
    · simp only [hnone] at hq
      cases hq

/-- The processor leaves the task, or the kernel panics. -/
theorem SliceInv.leave {p : ℕ} (hcpu : s.cpu = .task p) {l : StmtLabel} (hl : ∀ n, l.startAfter n = n) (k : Pc)
    (current : Option ℕ) (cpu : Cpu) (timer : ℕ) (hnotask : ∀ q, cpu ≠ .task q)
    (hcur : current = none ∨ current = s.current ∧ timer = s.timer ∧ ∃ msg, cpu = .panicked msg)
    (hk : (∀ q next, k ≠ .switchGo q next) ∧ ∀ q next, k = .switchClear q next → q = p)
    (htimer : timer = tickCount (labels ++ [l])) :
    SliceInv (labels ++ [l])
      { s with timer := timer, current := current, conts := Function.update s.conts p k, cpu := cpu } := by
  have hat : Function.update s.conts p k p = k := Function.update_self _ _ _
  have hoff {q : ℕ} (hq : q ≠ p) : Function.update s.conts p k q = s.conts q := Function.update_of_ne hq _ _
  refine ⟨fun {q} hq => absurd hq (hnotask q), fun _ hsafe => ?_, fun {q q' next} hq => ?_, fun {q q' next} hq => ?_,
    htimer, fun {q} hq => ?_⟩
  · rcases hcur with hnone | ⟨-, -, msg, hmsg⟩
    · exact hnone
    · exact absurd hmsg (hsafe msg)
  · by_cases hqp : q = p
    · subst hqp
      simp only [hat] at hq
      rcases hq with hq | hq
      · exact hk.2 q' next hq
      · exact absurd hq (hk.1 q' next)
    · simp only [hoff hqp] at hq
      exact h.prev hq
  · by_cases hqp : q = p
    · subst hqp
      simp only [hat] at hq
      exact absurd hq (hk.1 q' next)
    · simp only [hoff hqp] at hq
      exact absurd (Cpu.task.inj ((h.gone hq).1.symm.trans hcpu)) hqp
  · rw [sliceStart_append, hl]
    rcases hcur with hnone | ⟨hsame, htime, -⟩
    · simp only [hnone] at hq
      cases hq
    · simp only [hsame, htime] at hq ⊢
      exact h.slice hq

/-- A step of the scheduler that gives the processor to no task. -/
theorem SliceInv.schedule {l : StmtLabel} (tasks : TaskTable) (currVmem : Option ℕ) (cpu : Cpu) (timer : ℕ)
    (hfrom : ∀ p, s.cpu ≠ .task p) (hto : ∀ p, cpu ≠ .task p) (hcur : s.current = none)
    (htimer : timer = tickCount (labels ++ [l])) :
    SliceInv (labels ++ [l]) { s with tasks := tasks, timer := timer, currVmem := currVmem, cpu := cpu } := by
  refine ⟨fun {p} hp => absurd hp (hto p), fun _ _ => hcur, h.prev, fun {p q next} hp => ?_, htimer, fun {p} hp => ?_⟩
  · exact absurd (h.gone hp).1 (hfrom p)
  · simp only [hcur] at hp
    cases hp

theorem SliceInv.exec {p : ℕ} (hcpu : s.cpu = .task p) : SliceInv (labels ++ [.stmt]) (exec s p) := by
  have hl : StmtLabel.stmt.isTick = false ∧ ∀ n, StmtLabel.stmt.startAfter n = n := ⟨rfl, fun _ => rfl⟩
  have htimer : s.timer = tickCount (labels ++ [.stmt]) := by
    rw [tickCount_append]
    exact h.timer
  have hnow (hpc : ∀ next, s.conts p ≠ .switchGo p next) : s.current = some p :=
    (h.onCpu hcpu).resolve_right fun ⟨_, next, hgo⟩ => hpc next hgo
  -- every statement outside of `sched_switch`
  have hgoto (hpc : ∀ next, s.conts p ≠ .switchGo p next) (k : Pc) (tasks : TaskTable)
      (hk : (∀ q next, k ≠ .switchGo q next) ∧ ∀ q next, k = .switchClear q next → q = p)
      (hdeadline : ∀ i, (tasks i).preemptDeadline = (s.tasks i).preemptDeadline) :
      SliceInv (labels ++ [.stmt]) { s with tasks := tasks, conts := Function.update s.conts p k } :=
    h.move hcpu hl k tasks s.current (Or.inl ⟨hnow hpc, hnow hpc, hk.1⟩) hk.2 hdeadline
  have hfield (i : ℕ) (f : Task → Task) (hf : ∀ t, (f t).preemptDeadline = t.preemptDeadline) (j : ℕ) :
      (s.tasks.modify i f j).preemptDeadline = (s.tasks j).preemptDeadline := by
    rw [TaskTable.modify_apply]
    split_ifs
    · exact hf _
    · rfl
  have hpanic (hpc : ∀ q next, s.conts p ≠ .switchGo q next) (msg : Panic) :
      SliceInv (labels ++ [.stmt]) { s with cpu := .panicked msg } := by
    have hleave := h.leave hcpu hl.2 (s.conts p) s.current (.panicked msg) s.timer (by simp)
      (Or.inr ⟨rfl, rfl, msg, rfl⟩) ⟨hpc, fun q next hq => h.prev (Or.inl hq)⟩ htimer
    rwa [Function.update_eq_self] at hleave
  unfold HeavenOS.exec
  cases hpc : s.conts p with
  | user =>
      have hkeep := hgoto (by simp [hpc]) (s.conts p) s.tasks ⟨by simp [hpc], by simp [hpc]⟩ fun _ => rfl
      rwa [Function.update_eq_self] at hkeep
  | waitChild c st =>
      simp only
      split_ifs <;> exact hgoto (by simp [hpc]) _ _ ⟨by simp, by simp⟩ fun _ => rfl
  | waitState c st =>
      simp only
      split_ifs <;> exact hgoto (by simp [hpc]) _ _ ⟨by simp, by simp⟩ fun _ => rfl
  | waitMark c st => exact hgoto (by simp [hpc]) _ _ ⟨by simp, by simp⟩ (hfield p _ fun _ => rfl)
  | waitPid c st => exact hgoto (by simp [hpc]) _ _ ⟨by simp, by simp⟩ (hfield p _ fun _ => rfl)
  | waitStatus c st =>
      simp only
      split_ifs <;> exact hgoto (by simp [hpc]) _ _ ⟨by simp, by simp⟩ fun _ => rfl
  | waitReap c => exact hgoto (by simp [hpc]) _ _ ⟨by simp, by simp⟩ (hfield c _ fun _ => rfl)
  | exitCode code => exact hgoto (by simp [hpc]) _ _ ⟨by simp, by simp⟩ (hfield p _ fun _ => rfl)
  | exitState => exact hgoto (by simp [hpc]) _ _ ⟨by simp, by simp⟩ (hfield p _ fun _ => rfl)
  | exitTest =>
      simp only
      split_ifs <;> exact hgoto (by simp [hpc]) _ _ ⟨by simp, by simp⟩ fun _ => rfl
  | exitWake parent => exact hgoto (by simp [hpc]) _ _ ⟨by simp, by simp⟩ (hfield parent _ fun _ => rfl)
  | switchRead next =>
      have hcur := hnow (by simp [hpc])
      simp only [hcur]
      exact h.move hcpu hl (.switchClear p next) s.tasks (some p) (Or.inl ⟨rfl, hcur, by simp⟩) (by simp +contextual)
        fun _ => rfl
  | switchClear prev next =>
      obtain rfl : prev = p := h.prev (Or.inl hpc)
      exact h.move hcpu hl (.switchGo prev next) s.tasks none (Or.inr ⟨rfl, next, rfl⟩) (by simp) fun _ => rfl
  | switchGo prev next =>
      obtain rfl : prev = p := h.prev (Or.inr hpc)
      exact h.leave hcpu hl.2 (.behind next) s.current (.returned s.schedIndex) s.timer (by simp)
        (Or.inl (h.gone hpc).2) ⟨by simp, by simp⟩ htimer
  | behind place =>
      cases place with
      | slept => exact hgoto (by simp [hpc]) _ _ ⟨by simp, by simp⟩ fun _ => rfl
      | waited c st =>
          simp only
          split_ifs
          · exact hgoto (by simp [hpc]) _ _ ⟨by simp, by simp⟩ fun _ => rfl
          · exact hpanic (by simp [hpc]) _
      | exited => exact hpanic (by simp [hpc]) _

/-- A tick ends the time slice of the task on the processor; in the scheduler, and behind the
point where a task has given up the processor, only time goes by. -/
theorem SliceInv.tick (hsafe : ∀ msg, s.cpu ≠ .panicked msg) (hwrap : tickCount labels + preemptTicks < 2 ^ 64) :
    SliceInv (labels ++ [.tick]) (tickAt s) := by
  have htimer := h.timer
  have hticks : preemptTicks = 10 := rfl
  have hmod : (s.timer + 1) % 2 ^ 64 = tickCount (labels ++ [.tick]) := by
    rw [tickCount_append, Nat.mod_eq_of_lt (by omega), htimer]
    rfl
  by_cases htask : ∃ p, s.cpu = .task p
  · obtain ⟨p, hcpu⟩ := htask
    simp only [tickAt, hcpu]
    rcases h.onCpu hcpu with hcur | ⟨hcur, hgo⟩
    · rw [schedTimerTick_switch _ hcur (h.preempts hcur hwrap).2]
      refine h.leave hcpu (fun _ => rfl) (s.conts p) none _ _ (by simp) (Or.inl rfl) ⟨fun q next hq => ?_,
        fun q next hq => h.prev (Or.inl hq)⟩ hmod
      have hnone := (h.gone hq).2
      rw [hcur] at hnone
      cases hnone
    · rw [schedTimerTick_idle _ hcur]
      refine ⟨fun hq => ?_, fun hno => absurd hcpu (hno p), h.prev, h.gone, hmod, fun hq => ?_⟩
      · obtain rfl := Cpu.task.inj (hcpu.symm.trans hq)
        exact Or.inr ⟨hcur, hgo⟩
      · rw [show s.current = _ from hq] at hcur
        cases hcur
  · have hno (p : ℕ) : s.cpu ≠ .task p := fun hcpu => htask ⟨p, hcpu⟩
    have hcur := h.inSched hno hsafe
    rw [tickAt_idle hno hcur, System.wake]
    split_ifs
    · exact h.schedule s.tasks s.currVmem (.examine 0 false) _ hno (by simp) hcur hmod
    · exact h.schedule s.tasks s.currVmem s.cpu _ hno hno hcur hmod

theorem SliceInv.sched {a : Action} (hstep : SchedStep s a t) (hwrap : tickCount labels + preemptTicks < 2 ^ 64) :
    SliceInv (labels ++ [.sched a]) t := by
  have htimer : s.timer = tickCount (labels ++ [.sched a]) := by
    rw [tickCount_append]
    exact h.timer
  cases hstep with
  | pass hcpu hi hstate =>
      exact h.schedule _ s.currVmem _ s.timer (by simp [hcpu]) (by simp) (h.inSched (by simp [hcpu]) (by simp [hcpu]))
        htimer
  | passEnd hcpu =>
      refine h.schedule s.tasks s.currVmem _ s.timer (by simp [hcpu]) (fun p => ?_)
        (h.inSched (by simp [hcpu]) (by simp [hcpu])) htimer
      split_ifs <;> simp
  | @run i found hcpu hi hstate =>
      refine ⟨fun hq => ?_, fun hno => absurd rfl (hno i), h.prev, fun {p q next} hq => ?_, htimer, fun {p} hq => ?_⟩
      · obtain rfl := Cpu.task.inj hq
        exact Or.inl rfl
      · have hgone := (h.gone hq).1
        rw [hcpu] at hgone
        cases hgone
      · obtain rfl := Option.some.inj hq
        rw [sliceStart_append]
        refine ⟨rfl, ?_⟩
        simp only [schedSwitchTo, TaskTable.modify_self, StmtLabel.startAfter]
        exact Nat.mod_eq_of_lt (by rw [h.timer]; exact hwrap)
  | keep hcpu hstate =>
      exact h.schedule s.tasks s.currVmem _ s.timer (by simp [hcpu]) (by simp)
        (h.inSched (by simp [hcpu]) (by simp [hcpu])) htimer
  | @destroyVmem i hcpu hstate =>
      simp only [HeavenOS.destroyVmem, reduceCtorEq, if_false]
      exact h.schedule _ none (.torn i) s.timer (by simp [hcpu]) (by simp)
        (h.inSched (by simp [hcpu]) (by simp [hcpu])) htimer
  | @destroyKstack i hcpu =>
      exact h.schedule _ s.currVmem (.examine (i + 1) true) s.timer (by simp [hcpu]) (by simp)
        (h.inSched (by simp [hcpu]) (by simp [hcpu])) htimer

theorem SliceInv.fork {p child : ℕ} {vm : Vmem} {tasks : TaskTable} (hcpu : s.cpu = .task p)
    (hcur : s.current = some p) (hfork : sysFork s.tasks p vm = some (child, tasks)) :
    SliceInv (labels ++ [.call]) { s with tasks := tasks, conts := Function.update s.conts child .user } := by
  have hoff {q : ℕ} (hq : q ≠ child) : Function.update s.conts child Pc.user q = s.conts q :=
    Function.update_of_ne hq _ _
  refine ⟨fun {q} hq => ?_, fun hno => absurd hcpu (hno p), fun {q q' next} hq => ?_, fun {q q' next} hq => ?_, ?_,
    fun {q} hq => ?_⟩
  · obtain rfl : p = q := Cpu.task.inj (hcpu.symm.trans hq)
    exact Or.inl hcur
  · by_cases hqc : q = child
    · subst hqc
      simp only [Function.update_self] at hq
      rcases hq with hq | hq <;> cases hq
    · simp only [hoff hqc] at hq
      exact h.prev hq
  · by_cases hqc : q = child
    · subst hqc
      simp only [Function.update_self] at hq
      cases hq
    · simp only [hoff hqc] at hq
      exact h.gone hq
  · rw [tickCount_append]
    exact h.timer
  · rw [sliceStart_append]
    simp only [sysFork_deadline hfork]
    exact h.slice hq

theorem SliceInv.step {l : StmtLabel} (hstep : StmtStep s l t) (hwrap : tickCount labels + preemptTicks < 2 ^ 64) :
    SliceInv (labels ++ [l]) t := by
  have hl : StmtLabel.call.isTick = false ∧ ∀ n, StmtLabel.call.startAfter n = n := ⟨rfl, fun _ => rfl⟩
  have hnow {p : ℕ} (hcpu : s.cpu = .task p) (huser : s.conts p = .user) : s.current = some p := by
    refine (h.onCpu hcpu).resolve_right ?_
    rintro ⟨-, next, hgo⟩
    rw [huser] at hgo
    cases hgo
  cases hstep with
  | tick hsafe => exact h.tick hsafe hwrap
  | sched hstep => exact h.sched hstep hwrap
  | wait hcpu huser hchild =>
      exact h.move hcpu hl _ s.tasks s.current (Or.inl ⟨hnow hcpu huser, hnow hcpu huser, by simp⟩) (by simp) fun _ => rfl
  | exit hcpu huser =>
      exact h.move hcpu hl _ s.tasks s.current (Or.inl ⟨hnow hcpu huser, hnow hcpu huser, by simp⟩) (by simp) fun _ => rfl
  | @sleep p ms hcpu huser =>
      refine h.move hcpu hl _ _ s.current (Or.inl ⟨hnow hcpu huser, hnow hcpu huser, by simp⟩) (by simp) fun i => ?_
      rw [sysSleep, TaskTable.modify_apply]
      split_ifs <;> rfl
  | fork hcpu huser hfork => exact h.fork hcpu (hnow hcpu huser) hfork
  | stmt hcpu => exact h.exec hcpu

end Steps

/-! ## The first tick -/

theorem run_sliceInv {vm : Vmem} {labels : List StmtLabel} {s : System Pc}
    (hrun : Run StmtStep (System.boot vm Pc.user) labels s) (hwrap : tickCount labels + preemptTicks < 2 ^ 64) :
    SliceInv labels s := by
  induction hrun with
  | nil => exact SliceInv.boot vm
  | @snoc labels _ _ l _ hstep ih =>
      rw [tickCount_append] at hwrap
      have hbefore : tickCount labels + preemptTicks < 2 ^ 64 := by omega
      exact (ih hbefore).step hstep hbefore

/-- Every tick that finds a task on the processor switches it out, and it does so at the first
tick of the time slice, before `PREEMPT_TICKS` have passed. -/
theorem tick_ends_slice_early {vm : Vmem} {labels : List StmtLabel} {s t : System Pc} {p : ℕ}
    (hrun : Run StmtStep (System.boot vm Pc.user) labels s) (hwrap : tickCount labels + preemptTicks < 2 ^ 64)
    (hcpu : s.cpu = .task p) (hcur : s.current = some p) (htick : StmtStep s .tick t) :
    ¬RespectsSlice (sliceStart labels) p t := by
  have h := run_sliceInv hrun hwrap
  obtain ⟨hmod, hdue⟩ := h.preempts hcur hwrap
  have hstart := (h.slice hcur).1
  have hticks : preemptTicks = 10 := rfl
  have ht : t = tickAt s := by
    cases htick
    rfl
  have hout : t.cpu ≠ .task p ∧ t.timer = s.timer + 1 := by
    rw [ht]
    simp only [tickAt, hcpu, schedTimerTick_switch _ hcur hdue]
    exact ⟨by simp, hmod⟩
  rintro ⟨hnotBefore, -⟩
  have hlate := hnotBefore hout.1
  omega

/-- The first task has just been given the processor when the timer fires. -/
theorem tick_ends_slice_early_first :
    ∃ labels s t, Run StmtStep (System.boot ⟨[], 0⟩ Pc.user) labels s ∧ StmtStep s .tick t ∧
      ¬RespectsSlice (sliceStart labels) 1 t := by
  have h0 := @Run.nil _ _ StmtStep (System.boot ⟨[], 0⟩ Pc.user)
  have h1 := h0.snoc (.sched (.pass rfl (by decide) (by decide)))
  have h2 := h1.snoc (.sched (.run rfl (by decide) (by decide)))
  exact ⟨_, _, _, h2, .tick fun msg hmsg => (by cases hmsg),
    tick_ends_slice_early h2 (by decide) rfl rfl (.tick fun msg hmsg => (by cases hmsg))⟩

/-- The first task gets the processor at time 0 and loses it at time 1. -/
theorem slice_not_respected :
    ∃ labels s t, Run StmtStep (System.boot ⟨[], 0⟩ Pc.user) labels s ∧ s.cpu = .task 1 ∧ s.conts 1 = .user ∧
      sliceStart labels = 0 ∧ StmtStep s .tick t ∧ t.timer = 1 ∧ t.cpu = .returned 1 ∧
      ¬RespectsSlice (sliceStart labels) 1 t := by
  have h0 := @Run.nil _ _ StmtStep (System.boot ⟨[], 0⟩ Pc.user)
  have h1 := h0.snoc (.sched (.pass rfl (by decide) (by decide)))
  have h2 := h1.snoc (.sched (.run rfl (by decide) (by decide)))
  refine ⟨_, _, _, h2, rfl, rfl, rfl, .tick fun msg hmsg => (by cases hmsg), rfl, rfl, fun hslice => ?_⟩
  exact absurd (hslice.1 (by decide)) (by decide)

end HeavenOS
