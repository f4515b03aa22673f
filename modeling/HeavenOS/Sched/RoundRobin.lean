/-
# The scheduler serves in turn

The loop of `sched_start` examines the entries of the task table one after the other and
runs every task that it finds ready. A ready task is therefore passed over by each other
task once at most before it gets the processor, the processor halts only while nobody is
runnable, and the page table that it uses is never one that has been destroyed.
-/

import HeavenOS.Sched.Children

namespace HeavenOS

open Lib

/-! ## The place of the scheduler -/

/-- The entry that the scheduler examines next. -/
def System.pos (s : System Cont) : ℕ :=
  match s.cpu with
  | .examine i _ => i
  | .returned i | .torn i => i + 1
  | .task _ => s.schedIndex + 1
  | .halted | .panicked _ => 0

/-- What an action does to the clock, to the place of the scheduler, to the processor and to
the current address space. -/
def Advances (s t : System Cont) : Action → Prop
  | .tick =>
      t.timer = (s.timer + 1) % 2 ^ 64 ∧ t.pos = s.pos ∧ t.currVmem = s.currVmem ∧
        ∀ p, t.cpu = .task p → s.cpu = .task p
  | .pass i =>
      t.timer = s.timer ∧ i < maxTaskCount ∧ s.pos = i ∧ t.pos = i + 1 ∧ t.currVmem = s.currVmem ∧
        ∀ p, t.cpu ≠ .task p
  | .passEnd =>
      t.timer = s.timer ∧ s.pos = maxTaskCount ∧ t.pos = 0 ∧ t.currVmem = s.currVmem ∧ ∀ p, t.cpu ≠ .task p
  | .run i _ =>
      t.timer = s.timer ∧ i < maxTaskCount ∧ s.pos = i ∧ t.pos = i + 1 ∧ t.currVmem = some i ∧ t.cpu = .task i
  | .destroyVmem _ => t.timer = s.timer ∧ t.pos = s.pos ∧ t.currVmem = none ∧ ∀ p, t.cpu ≠ .task p
  | _ =>
      t.timer = s.timer ∧ t.pos = s.pos ∧ t.currVmem = s.currVmem ∧ ∀ p, t.cpu = .task p → s.cpu = .task p

section Steps

variable {s t : System Cont} {a : Action}

/-- Giving up the processor leaves the place of the scheduler behind the task. -/
theorem schedSwitch_moves (h : TaskInv s) {p : ℕ} (hcpu : s.cpu = .task p) (tasks : TaskTable) (cont : Cont) :
    (schedSwitch { s with tasks := tasks } cont).timer = s.timer ∧
      (schedSwitch { s with tasks := tasks } cont).pos = s.pos ∧
      (schedSwitch { s with tasks := tasks } cont).currVmem = s.currVmem ∧
      ∀ q, (schedSwitch { s with tasks := tasks } cont).cpu ≠ .task q := by
  obtain ⟨hcur, -, -⟩ := h.onCpu hcpu
  simp [schedSwitch, hcur, System.pos, hcpu]

theorem tick_moves (h : TaskInv s) : Advances s (schedTimerTick s .user).wake .tick := by
  cases hcpu : s.cpu with
  | task p =>
      obtain ⟨hcur, -, -⟩ := h.onCpu hcpu
      by_cases hdue : (s.timer + 1) % 2 ^ 64 ≤ (s.tasks p).preemptDeadline
      · rw [schedTimerTick_switch _ hcur hdue]
        simp [Advances, System.wake, System.pos, hcpu]
      · rw [schedTimerTick_stay _ hcur hdue]
        simp [Advances, System.wake, System.pos, hcpu]
  | examine i found | returned i | torn i | halted | panicked msg =>
      rw [schedTimerTick_idle _ (h.inSched (by simp [hcpu]))]
      simp [Advances, System.wake, System.pos, hcpu]

theorem finishWait_moves (hcpu : s.cpu = .task p) (c status : ℕ) :
    Advances s (finishWait s p c status).2 (finishWait s p c status).1 := by
  rcases finishWait_cases s p c status with heq | heq <;>
  · rw [heq]
    simp [Advances, System.pos, hcpu]

theorem Step.moves (h : TaskInv s) (hstep : Step s a t) : Advances s t a := by
  have hsafe := (h.step hstep).1.safe
  cases hstep with
  | tick hint => exact tick_moves h
  | sched hstep =>
      cases hstep with
      | pass hcpu hi hstate => simp [Advances, System.pos, hcpu, hi]
      | @passEnd found hcpu => cases found <;> simp [Advances, System.pos, hcpu]
      | run hcpu hi hstate => simp [Advances, System.pos, schedSwitchTo, hcpu, hi]
      | keep hcpu hstate => simp [Advances, System.pos, hcpu]
      | destroyVmem hcpu hstate => simp [Advances, System.pos, HeavenOS.destroyVmem, hcpu]
      | destroyKstack hcpu => simp [Advances, System.pos, HeavenOS.destroyKstack, hcpu]
  | getpid huser => exact ⟨rfl, rfl, rfl, fun _ => id⟩
  | sleep huser hms | exit huser | blocked huser hchild hwait =>
      obtain ⟨htimer, hpos, hvmem, hcpu⟩ := schedSwitch_moves h huser.1 _ _
      exact ⟨htimer, hpos, hvmem, fun q hq => absurd hq (hcpu q)⟩
  | slept hcpu hcont => exact ⟨rfl, rfl, rfl, fun _ => id⟩
  | fork huser hfork => exact ⟨rfl, rfl, rfl, fun _ => id⟩
  | exited hcpu hcont => exact absurd rfl (hsafe _)
  | refused huser hchild hwait => exact ⟨rfl, rfl, rfl, fun _ => id⟩
  | ready huser hchild hwait => exact finishWait_moves huser.1 _ _
  | waited hcpu hcont hassert => exact finishWait_moves hcpu _ _
  | waitPanic hcpu hcont hassert => exact absurd rfl (hsafe _)

/-- A task that could run and is not on the processor is left alone until it is run. -/
theorem Step.waits (h : TaskInv s) (hstep : Step s a t) {p : ℕ}
    (hstate : (s.tasks p).state = .runnable ∨ (s.tasks p).state = .sleeping) (hcpu : s.cpu ≠ .task p)
    (hnot : ∀ time, a ≠ .run p time) : t.tasks p = s.tasks p := by
  have heffect := hstep.effect h
  have hother {q : ℕ} (hq : s.cpu = .task q) : p ≠ q := fun heq => hcpu (heq ▸ hq)
  have hentry {q : ℕ} {st : TaskState} (hq : (s.tasks q).state = st) (hrun : st ≠ .runnable) (hsleep : st ≠ .sleeping) :
      p ≠ q := by
    rintro rfl
    rcases hstate with hp | hp
    · exact hrun (hq.symm.trans hp)
    · exact hsleep (hq.symm.trans hp)
  cases a with
  | run i time =>
      obtain ⟨-, -, htasks⟩ := heffect
      have hne : p ≠ i := fun heq => hnot time (heq ▸ rfl)
      rw [htasks, TaskTable.modify_of_ne _ _ hne]
  | destroyVmem i | destroyKstack i =>
      obtain ⟨hz, htasks⟩ := heffect
      rw [htasks, TaskTable.modify_of_ne _ _ (hentry hz (by simp) (by simp))]
  | sleep q time ms =>
      obtain ⟨huser, -, htasks⟩ := heffect
      rw [htasks, sysSleep, TaskTable.modify_of_ne _ _ (hother huser.1)]
  | fork q c =>
      obtain ⟨-, -, -, -, hfree, vm, htasks⟩ := heffect
      rw [htasks, TaskTable.modify_of_ne _ _ (hentry hfree (by simp) (by simp))]
  | exit q code =>
      obtain ⟨huser, htasks⟩ := heffect
      -- only a parent that waits is woken
      have hwait : (s.tasks p).state ≠ .waiting := fun hwait => hentry hwait (by simp) (by simp) rfl
      rw [htasks, sysExit_apply, if_neg (hother huser.1), if_neg fun hpar => hwait hpar.2.1]
  | blocked q c =>
      obtain ⟨huser, -, -, htasks⟩ := heffect
      rw [htasks, TaskTable.modify_of_ne _ _ (hother huser.1)]
  | reaped q c status =>
      obtain ⟨-, -, hz, -, htasks⟩ := heffect
      rw [htasks, TaskTable.modify_of_ne _ _ (hentry hz (by simp) (by simp))]
  | refused q c => rw [heffect.2.2]
  | invalid q c => rw [heffect.2.2.2]
  | tick | pass | passEnd | keep | getpid | slept | panic => rw [show t.tasks = s.tasks from heffect]

end Steps

/-! ## Ready tasks -/

/-- The task would be run if the scheduler came by. -/
def Ready (s : System Cont) (p : ℕ) : Prop :=
  (s.tasks p).state = .runnable ∨ (s.tasks p).state = .sleeping ∧ (s.tasks p).sleepUntil ≤ s.timer

/-- The tasks that got the processor, in order. -/
def runsOf (labels : List Action) : List ℕ :=
  labels.filterMap fun
    | .run i _ => some i
    | _ => none

theorem runsOf_append (labels labels' : List Action) : runsOf (labels ++ labels') = runsOf labels ++ runsOf labels' :=
  List.filterMap_append

section Ready

variable {s t : System Cont} {a : Action} {p : ℕ}

/-- An entry that is examined and not run is not runnable, also after the test for sleepers. -/
theorem Step.pass_state {i : ℕ} (hstep : Step s (.pass i) t) : (wakeSleeping s.tasks s.timer i i).state ≠ .runnable := by
  generalize ha : Action.pass i = a at hstep
  cases hstep with
  | sched hstep =>
      cases hstep with
      | pass hcpu hi hstate =>
          obtain rfl := Action.pass.inj ha
          exact hstate
      | _ => cases ha
  | @ready p c status | @waited p c status =>
      rcases finishWait_cases s p c status with heq | heq <;>
      · rw [heq] at ha
        cases ha
  | _ => cases ha

/-- The scheduler does not pass by a task that is ready. -/
theorem Step.staysReady (h : TaskInv s) (hstep : Step s a t) (hready : Ready s p) (hcpu : s.cpu ≠ .task p)
    (hnot : ∀ time, a ≠ .run p time) (hclock : s.timer ≤ t.timer) :
    Ready t p ∧ t.cpu ≠ .task p ∧ a ≠ .pass p := by
  have htask := hstep.waits h (hready.imp_right And.left) hcpu hnot
  have hmoves := hstep.moves h
  refine ⟨?_, fun hon => ?_, ?_⟩
  · rw [Ready, htask]
    exact hready.imp_right fun hsleep => ⟨hsleep.1, hsleep.2.trans hclock⟩
  · cases a with
    | run i time =>
        obtain ⟨-, -, -, -, -, hi⟩ := hmoves
        obtain rfl := Cpu.task.inj (hon.symm.trans hi)
        exact hnot time rfl
    | pass i => exact hmoves.2.2.2.2.2 p hon
    | passEnd => exact hmoves.2.2.2.2 p hon
    | destroyVmem i => exact hmoves.2.2.2 p hon
    | _ => exact hcpu (hmoves.2.2.2 p hon)
  · rintro rfl
    refine hstep.pass_state ?_
    rcases hready with hrun | hsleep
    · rw [wakeSleeping, if_neg (by simp [hrun])]
      exact hrun
    · rw [wakeSleeping, if_pos hsleep, TaskTable.modify_self]

end Ready

/-! ## Runs -/

/-- Where the scheduler is after some steps in which the ready task `p` was not run, seen from
its place `start` at the beginning: behind `start` in the same pass, or before `p` in the
next. The tasks that were run are the places in between. -/
structure Between (p start : ℕ) (labels : List Action) (t : System Cont) : Prop where
  ready : Ready t p
  offCpu : t.cpu ≠ .task p
  once : (runsOf labels).Nodup
  place : (start ≤ t.pos ∧ (p < start ∨ t.pos ≤ p) ∧ ∀ q ∈ runsOf labels, start ≤ q ∧ q < t.pos) ∨
    (p < start ∧ t.pos ≤ p ∧ ∀ q ∈ runsOf labels, start ≤ q ∨ q < t.pos)
  small : ∀ q ∈ runsOf labels, q < maxTaskCount

section Runs

variable {vm : Vmem} {labels before : List Action} {s t : System Cont} {p : ℕ}

/-- The clock does not wrap as long as it has ticks left. -/
theorem run_timer (h : TaskInv s) (hrun : Run StepInRange s labels t)
    (hclock : s.timer + labels.count .tick < 2 ^ 64) : TaskInv t ∧ t.timer = s.timer + labels.count .tick := by
  induction hrun with
  | nil => exact ⟨h, rfl⟩
  | @snoc labels t u a hprev hlast ih =>
      rw [List.count_append] at hclock ⊢
      obtain ⟨hinv, htimer⟩ := ih (by omega)
      refine ⟨(hinv.step hlast.1).1, ?_⟩
      have hmoves := hlast.1.moves hinv
      cases a with
      | tick =>
          rw [List.count_singleton_self] at hclock ⊢
          rw [hmoves.1, htimer, Nat.mod_eq_of_lt (by omega)]
          omega
      | _ => rw [List.count_singleton, hmoves.1, htimer]; rfl

/-- One step that does not run `p`. -/
theorem Between.step {start : ℕ} {a : Action} {u : System Cont} (hb : Between p start labels t) (h : TaskInv t)
    (hstep : Step t a u) (hnot : ∀ time, a ≠ .run p time) (hclock : t.timer ≤ u.timer) :
    Between p start (labels ++ [a]) u := by
  obtain ⟨hready, hcpu, hpass⟩ := hstep.staysReady h hb.ready hb.offCpu hnot hclock
  have hmoves := hstep.moves h
  have hstay (hsame : u.pos = t.pos) (hruns : runsOf (labels ++ [a]) = runsOf labels) :
      Between p start (labels ++ [a]) u := by
    refine ⟨hready, hcpu, hruns ▸ hb.once, ?_, hruns ▸ hb.small⟩
    rw [hsame, hruns]
    exact hb.place
  have hp : p < maxTaskCount := by
    refine (h.pid p fun hfree => ?_).2.1
    rcases hb.ready with hrun | ⟨hsleep, -⟩
    · rw [hfree] at hrun
      cases hrun
    · rw [hfree] at hsleep
      cases hsleep
  cases a with
  | run i time =>
      obtain ⟨-, hi, hfrom, hto, -⟩ := hmoves
      have hne : i ≠ p := fun heq => hnot time (heq ▸ rfl)
      have hruns : runsOf (labels ++ [.run i time]) = runsOf labels ++ [i] := runsOf_append _ _
      refine ⟨hready, hcpu, ?_, ?_, ?_⟩ <;> rw [hruns]
      · refine List.nodup_append.mpr ⟨hb.once, List.nodup_singleton i, fun q hq j hj hqj => ?_⟩
        obtain rfl := List.mem_singleton.mp hj
        subst hqj
        -- entry `i` is ahead of the scheduler, the tasks that were run are behind it
        rcases hb.place with ⟨-, -, hall⟩ | ⟨hlt, hle, hall⟩
        · exact absurd (hall q hq).2 (by omega)
        · rcases hall q hq with hge | hlt'
          · omega
          · omega
      · simp only [List.mem_append, List.mem_singleton]
        rcases hb.place with ⟨hle, hor, hall⟩ | ⟨hlt, hle, hall⟩
        · left
          refine ⟨by omega, by omega, ?_⟩
          rintro q (hq | rfl)
          · have := hall q hq
            omega
          · omega
        · right
          refine ⟨hlt, by omega, ?_⟩
          rintro q (hq | rfl)
          · have := hall q hq
            omega
          · omega
      · intro q hq
        rcases List.mem_append.mp hq with hq | hq
        · exact hb.small q hq
        · rwa [List.mem_singleton.mp hq]
  | pass i =>
      obtain ⟨-, hi, hfrom, hto, -⟩ := hmoves
      have hne : i ≠ p := fun heq => hpass (heq ▸ rfl)
      have hruns : runsOf (labels ++ [.pass i]) = runsOf labels := by simp [runsOf]
      refine ⟨hready, hcpu, hruns ▸ hb.once, ?_, hruns ▸ hb.small⟩
      rw [hruns]
      rcases hb.place with ⟨hle, hor, hall⟩ | ⟨hlt, hle, hall⟩
      · left
        refine ⟨by omega, by omega, fun q hq => ?_⟩
        have := hall q hq
        omega
      · right
        refine ⟨hlt, by omega, fun q hq => ?_⟩
        have := hall q hq
        omega
  | passEnd =>
      obtain ⟨-, hfrom, hto, -⟩ := hmoves
      have hruns : runsOf (labels ++ [.passEnd]) = runsOf labels := by simp [runsOf]
      refine ⟨hready, hcpu, hruns ▸ hb.once, ?_, hruns ▸ hb.small⟩
      rw [hruns]
      -- the pass ends with `p` behind it only if it began behind `p`
      rcases hb.place with ⟨hle, hor, hall⟩ | ⟨hlt, hle, hall⟩
      · exact Or.inr ⟨by omega, by omega, fun q hq => Or.inl (hall q hq).1⟩
      · omega
  | destroyVmem i => exact hstay hmoves.2.1 (by simp [runsOf])
  | _ => exact hstay hmoves.2.1 (by simp [runsOf])

/-- Nobody overtakes twice. From a moment at which a task is ready and not on the processor
to the moment at which it is run, every other task is run once at most. -/
theorem bounded_bypass (hboot : Run StepInRange (System.boot vm .user) before s) (hready : Ready s p)
    (hcpu : s.cpu ≠ .task p) (hrun : Run StepInRange s labels t) (hnot : p ∉ runsOf labels)
    (hclock : s.timer + labels.count .tick < 2 ^ 64) :
    Ready t p ∧ (runsOf labels).Nodup ∧ (runsOf labels).length < maxTaskCount := by
  have hinv := run_taskInv hboot
  have hbetween : Between p s.pos labels t := by
    induction hrun with
    | nil => exact ⟨hready, hcpu, List.nodup_nil, Or.inl ⟨le_refl _, by omega, by simp [runsOf]⟩, by simp [runsOf]⟩
    | @snoc labels t u a hprev hlast ih =>
        rw [List.count_append] at hclock
        rw [runsOf_append, List.mem_append, not_or] at hnot
        obtain ⟨hinvt, htimer⟩ := run_timer hinv hprev (by omega)
        obtain ⟨-, htimer'⟩ := run_timer hinv (hprev.snoc hlast) (by rwa [List.count_append])
        rw [List.count_append] at htimer'
        refine (ih hnot.1 (by omega)).step hinvt hlast.1 ?_ (by omega)
        rintro time rfl
        exact hnot.2 (by simp [runsOf])
  refine ⟨hbetween.ready, hbetween.once, ?_⟩
  -- the places of the other tasks
  have hsub : p :: runsOf labels ⊆ List.range maxTaskCount := by
    intro q hq
    rcases List.mem_cons.mp hq with rfl | hq
    · refine List.mem_range.mpr ((run_timer hinv hrun hclock).1.pid q fun hfree => ?_).2.1
      rcases hbetween.ready with hrun | ⟨hsleep, -⟩
      · rw [hfree] at hrun
        cases hrun
      · rw [hfree] at hsleep
        cases hsleep
    · exact List.mem_range.mpr (hbetween.small q hq)
  have hlen := ((List.nodup_cons.mpr ⟨hnot, hbetween.once⟩).subperm hsub).length_le
  rwa [List.length_cons, List.length_range] at hlen

/-! ## Idling -/

/-- The part of the pass that found nothing runnable. -/
def Searched (s : System Cont) : Prop :=
  (∀ i, s.cpu = .examine i false → ∀ j < i, (s.tasks j).state ≠ .runnable) ∧
    (s.cpu = .halted → ∀ j, (s.tasks j).state ≠ .runnable)

theorem Step.searched {a : Action} (h : TaskInv s) (hs : Searched s) (hstep : Step s a t) : Searched t := by
  have heffect := hstep.effect h
  cases hstep with
  | tick hint =>
      have htasks : (schedTimerTick s .user).wake.tasks = s.tasks := heffect
      rw [Searched, htasks]
      cases hcpu : s.cpu with
      | task p =>
          obtain ⟨hcur, -, -⟩ := h.onCpu hcpu
          by_cases hdue : (s.timer + 1) % 2 ^ 64 ≤ (s.tasks p).preemptDeadline
          · simp [schedTimerTick_switch _ hcur hdue, System.wake]
          · simp [schedTimerTick_stay _ hcur hdue, System.wake, hcpu]
      | examine i found =>
          rw [schedTimerTick_idle _ (h.inSched (by simp [hcpu]))]
          refine ⟨fun j hj => ?_, fun hhalt => by simp [System.wake, hcpu] at hhalt⟩
          simp only [System.wake, hcpu, reduceCtorEq, if_false] at hj
          exact hs.1 j (hcpu.trans hj)
      | returned i | torn i | halted | panicked msg =>
          rw [schedTimerTick_idle _ (h.inSched (by simp [hcpu]))]
          simp [System.wake, hcpu]
  | sched hstep =>
      cases hstep with
      | @pass i found hcpu hi hstate =>
          refine ⟨fun j hj q hq => ?_, fun hhalt => by cases hhalt⟩
          obtain ⟨rfl, rfl⟩ := Cpu.examine.inj hj
          rcases Nat.lt_succ_iff_lt_or_eq.mp hq with hlt | rfl
          · show (wakeSleeping s.tasks s.timer i q).state ≠ .runnable
            rw [wakeSleeping_of_pass hstate]
            exact hs.1 i hcpu q hlt
          · exact hstate
      | @passEnd found hcpu =>
          cases found with
          | true =>
              refine ⟨fun j hj => ?_, fun hhalt => by simp at hhalt⟩
              rw [if_pos rfl] at hj
              obtain ⟨rfl, -⟩ := Cpu.examine.inj hj
              exact fun q hq => absurd hq (Nat.not_lt_zero q)
          | false =>
              refine ⟨fun j hj => by simp at hj, fun _ j hrun => ?_⟩
              rcases Nat.lt_or_ge j maxTaskCount with hlt | hge
              · exact hs.1 _ hcpu j hlt hrun
              · have hlt := (h.pid j (by rw [show (s.tasks j).state = .runnable from hrun]; simp)).2.1
                omega
      | run => exact ⟨fun j hj => by simp [schedSwitchTo] at hj, fun hhalt => by simp [schedSwitchTo] at hhalt⟩
      | keep => exact ⟨fun j hj => by simp at hj, fun hhalt => by simp at hhalt⟩
      | destroyVmem =>
          exact ⟨fun j hj => by simp [HeavenOS.destroyVmem] at hj, fun hhalt => by simp [HeavenOS.destroyVmem] at hhalt⟩
      | destroyKstack =>
          exact ⟨fun j hj => by simp [HeavenOS.destroyKstack] at hj, fun hhalt => by simp [HeavenOS.destroyKstack] at hhalt⟩
  | sleep huser | exit huser | blocked huser =>
      obtain ⟨hcur, -, -⟩ := h.onCpu huser.1
      simp [Searched, schedSwitch, hcur]
  | getpid huser | fork huser | refused huser => simp [Searched, huser.1]
  | slept hcpu => simp [Searched, hcpu]
  | exited | waitPanic => exact ⟨fun j hj => by simp at hj, fun hhalt => by simp at hhalt⟩
  | @ready p c status huser =>
      rcases finishWait_cases s p c status with heq | heq <;> simp [heq, Searched, huser.1]
  | @waited p c status hcpu =>
      rcases finishWait_cases s p c status with heq | heq <;> simp [heq, Searched, hcpu]

/-- The processor halts only while no task is runnable. -/
theorem halts_only_idle (hrun : Run StepInRange (System.boot vm .user) labels s) (hhalt : s.cpu = .halted) (p : ℕ) :
    (s.tasks p).state ≠ .runnable := by
  have hboth : TaskInv s ∧ Searched s := hrun.invariant (fun s => TaskInv s ∧ Searched s)
    ⟨TaskInv.boot vm, fun i hi j hj => by obtain ⟨rfl, -⟩ := Cpu.examine.inj hi; omega, fun hhalt => by cases hhalt⟩
    fun _ _ _ h hstep => ⟨(h.1.step hstep.1).1, hstep.1.searched h.1 h.2⟩
  exact hboth.2.2 hhalt p

/-! ## The current address space -/

/-- The page table in use belongs to the task on the processor, or else to some task that has
not been torn down, or to the scheduler. -/
structure CurrentOk (s : System Cont) : Prop where
  onCpu : ∀ p, s.cpu = .task p → s.currVmem = some p
  live : ∀ i, s.currVmem = some i → (s.tasks i).vmemLive = true

theorem Step.currentOk {a : Action} (h : TaskInv s) (hc : CurrentOk s) (hstep : Step s a t) : CurrentOk t := by
  have hmoves := hstep.moves h
  have heffect := hstep.effect h
  have hinv := (h.step hstep).1
  have hsame (hvmem : t.currVmem = s.currVmem) (hcpu : ∀ p, t.cpu = .task p → s.cpu = .task p)
      (hlive : ∀ i, (s.tasks i).vmemLive = true → (t.tasks i).vmemLive = true) : CurrentOk t :=
    ⟨fun p hp => hvmem.trans (hc.onCpu p (hcpu p hp)), fun i hi => hlive i (hc.live i (hvmem ▸ hi))⟩
  have hmodify {c : ℕ} {f : Task → Task} (htasks : t.tasks = s.tasks.modify c f)
      (hf : ∀ t : Task, t.vmemLive = true → (f t).vmemLive = true) (i : ℕ) (hi : (s.tasks i).vmemLive = true) :
      (t.tasks i).vmemLive = true := by
    rw [htasks, TaskTable.modify_apply]
    split_ifs
    · exact hf _ hi
    · exact hi
  cases a with
  | run i time =>
      obtain ⟨-, -, -, -, hvmem, hcpu⟩ := hmoves
      refine ⟨fun p hp => ?_, fun j hj => ?_⟩
      · rw [hvmem, Cpu.task.inj (hcpu.symm.trans hp)]
      · obtain rfl := Option.some.inj (hvmem.symm.trans hj)
        exact (hinv.live hcpu).1
  | destroyVmem i =>
      obtain ⟨-, -, hvmem, hcpu⟩ := hmoves
      exact ⟨fun p hp => absurd hp (hcpu p), fun j hj => by rw [hvmem] at hj; cases hj⟩
  | pass i =>
      obtain ⟨-, -, -, -, hvmem, hcpu⟩ := hmoves
      exact hsame hvmem (fun p hp => absurd hp (hcpu p)) fun j hj => by rwa [show t.tasks = s.tasks from heffect]
  | passEnd =>
      obtain ⟨-, -, -, hvmem, hcpu⟩ := hmoves
      exact hsame hvmem (fun p hp => absurd hp (hcpu p)) fun j hj => by rwa [show t.tasks = s.tasks from heffect]
  | destroyKstack i => exact hsame hmoves.2.2.1 hmoves.2.2.2 (hmodify heffect.2 fun _ h => h)
  | sleep p time ms => exact hsame hmoves.2.2.1 hmoves.2.2.2 (hmodify heffect.2.2 fun _ h => h)
  | fork p c =>
      obtain ⟨-, -, -, -, -, vm, htasks⟩ := heffect
      exact hsame hmoves.2.2.1 hmoves.2.2.2 (hmodify htasks fun _ _ => rfl)
  | exit p code =>
      refine hsame hmoves.2.2.1 hmoves.2.2.2 fun i hi => ?_
      rw [heffect.2, sysExit_apply]
      split_ifs with hip
      · exact hip ▸ hi
      · exact hi
      · exact hi
  | blocked p c => exact hsame hmoves.2.2.1 hmoves.2.2.2 (hmodify heffect.2.2.2 fun _ h => h)
  | reaped p c status => exact hsame hmoves.2.2.1 hmoves.2.2.2 (hmodify heffect.2.2.2.2 fun _ h => h)
  | refused p c => exact hsame hmoves.2.2.1 hmoves.2.2.2 fun i hi => by rwa [heffect.2.2]
  | invalid p c => exact hsame hmoves.2.2.1 hmoves.2.2.2 fun i hi => by rwa [heffect.2.2.2]
  | tick | keep | getpid | slept | panic =>
      exact hsame hmoves.2.2.1 hmoves.2.2.2 fun i hi => by rwa [show t.tasks = s.tasks from heffect]

/-- In every state the page table in use has not been destroyed, and a task on the processor
uses its own. -/
theorem current_space_alive (hrun : Run StepInRange (System.boot vm .user) labels s) :
    (∀ p, s.cpu = .task p → s.currVmem = some p) ∧ ∀ i, s.currVmem = some i → (s.tasks i).vmemLive = true := by
  have hboth : TaskInv s ∧ CurrentOk s := hrun.invariant (fun s => TaskInv s ∧ CurrentOk s)
    ⟨TaskInv.boot vm, fun p hp => (by cases hp), fun i hi => by cases hi⟩
    fun _ _ _ h hstep => ⟨(h.1.step hstep.1).1, hstep.1.currentOk h.1 h.2⟩
  exact ⟨hboth.2.onCpu, hboth.2.live⟩

end Runs

/-- The first task has forked and was interrupted; the child is run before it. -/
theorem bounded_bypass_child :
    ∃ s t, Run StepInRange (System.boot ⟨[], 0⟩ Cont.user) [.pass 0, .run 1 0, .fork 1 2, .tick] s ∧
      Run StepInRange s [.keep 1, .run 2 1] t ∧ Ready t 1 ∧ (runsOf [.keep 1, .run 2 1]).Nodup := by
  have h0 := @Run.nil _ _ StepInRange (System.boot ⟨[], 0⟩ Cont.user)
  have h1 := h0.snoc ⟨.sched (.pass rfl (by decide) (by decide)), trivial⟩
  have h2 := h1.snoc ⟨.sched (.run rfl (by decide) (by decide)), trivial⟩
  have h3 := h2.snoc ⟨@Step.fork _ _ _ ⟨[], 0⟩ _ ⟨rfl, rfl⟩ rfl, trivial⟩
  have h4 := h3.snoc ⟨Step.tick rfl, trivial⟩
  generalize hs : (schedTimerTick _ Cont.user).wake = s at h4
  have hcpu : s.cpu = .returned 1 := by rw [← hs]; rfl
  have hparent : (s.tasks 1).state = .runnable := by rw [← hs]; rfl
  have hchild : (s.tasks 2).state = .runnable := by rw [← hs]; rfl
  have htimer : s.timer = 1 := by rw [← hs]; rfl
  have hwake : (wakeSleeping s.tasks s.timer 2 2).state = .runnable := by
    rw [wakeSleeping, if_neg (by simp [hchild])]
    exact hchild
  have h5 := Run.single StepInRange (s := s) ⟨.sched (.keep hcpu (by simp [hparent])), trivial⟩
  have h6 := h5.snoc ⟨.sched (.run rfl (by decide) hwake), by trivial⟩
  rw [htimer] at h6
  obtain ⟨hready, honce, -⟩ := bounded_bypass (p := 1) h4 (Or.inl hparent) (by simp [hcpu]) h6 (by decide)
    (by rw [htimer]; decide)
  exact ⟨s, _, h4, h6, hready, honce⟩

/-- The first task exits, and nobody is left. -/
theorem halts_only_idle_exited :
    ∃ labels s, Run StepInRange (System.boot ⟨[], 0⟩ Cont.user) labels s ∧ s.cpu = .halted ∧
      ∀ p, (s.tasks p).state ≠ .runnable := by
  have h0 := @Run.nil _ _ StepInRange (System.boot ⟨[], 0⟩ Cont.user)
  have h1 := h0.snoc ⟨.sched (.pass rfl (by decide) (by decide)), trivial⟩
  have h2 := h1.snoc ⟨.sched (.run rfl (by decide) (by decide)), trivial⟩
  have h3 := h2.snoc ⟨@Step.exit _ _ 0 ⟨rfl, rfl⟩, trivial⟩
  have h4 := h3.snoc ⟨.sched (.destroyVmem rfl (by decide)), trivial⟩
  have h5 := h4.snoc ⟨.sched (.destroyKstack rfl), trivial⟩
  have hfree (j : ℕ) (hj : 2 ≤ j) := not_not.mp fun hne => (((run_familyInv h5).alloc j).mp hne).1 (by
    show (if j = 1 then 1 else 0) = 0
    rw [if_neg (by omega)])
  obtain ⟨labels, h6⟩ := run_passes (i := 2) h5 rfl (by decide) hfree
  have h7 := h6.snoc ⟨.sched (.passEnd rfl), trivial⟩
  have h8 := h7.snoc ⟨.sched (@SchedStep.pass _ _ 0 false rfl (by decide) (by decide)), trivial⟩
  have h9 := h8.snoc ⟨.sched (@SchedStep.pass _ _ 1 false rfl (by decide) (by decide)), trivial⟩
  obtain ⟨labels', h10⟩ := run_passes (i := 2) h9 rfl (by decide) hfree
  have h11 := h10.snoc ⟨.sched (.passEnd rfl), trivial⟩
  exact ⟨_, _, h11, rfl, halts_only_idle h11 rfl⟩

/-- The first task has exited and its page table is still in use; then it is torn down and not
in use any more. -/
theorem current_space_alive_exited :
    ∃ s t, Run StepInRange (System.boot ⟨[], 0⟩ Cont.user) [.pass 0, .run 1 0, .exit 1 0] s ∧
      s.currVmem = some 1 ∧ (s.tasks 1).state = .zombie ∧ (s.tasks 1).vmemLive = true ∧
      Run StepInRange s [.destroyVmem 1] t ∧ (t.tasks 1).vmemLive = false ∧ t.currVmem ≠ some 1 := by
  have h0 := @Run.nil _ _ StepInRange (System.boot ⟨[], 0⟩ Cont.user)
  have h1 := h0.snoc ⟨.sched (.pass rfl (by decide) (by decide)), trivial⟩
  have h2 := h1.snoc ⟨.sched (.run rfl (by decide) (by decide)), trivial⟩
  have h3 := h2.snoc ⟨@Step.exit _ _ 0 ⟨rfl, rfl⟩, trivial⟩
  generalize hs : schedSwitch _ Cont.exit = s at h3
  have hcpu : s.cpu = .returned 1 := by rw [← hs]; rfl
  have hzombie : (s.tasks 1).state = .zombie := by rw [← hs]; rfl
  have hused : s.currVmem = some 1 := by rw [← hs]; rfl
  have h4 := Run.single StepInRange (s := s) ⟨.sched (.destroyVmem hcpu hzombie), trivial⟩
  have hgone : ((destroyVmem s 1).tasks 1).vmemLive = false := by simp [destroyVmem]
  refine ⟨s, _, h3, hused, hzombie, (current_space_alive h3).2 1 hused, h4, hgone, fun huse => ?_⟩
  have hlive := (current_space_alive (h3.trans h4)).2 1 huse
  rw [hgone] at hlive
  cases hlive

end HeavenOS
