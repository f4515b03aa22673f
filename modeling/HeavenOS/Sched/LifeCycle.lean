/-
# The life of a task

An entry of the task table is free, then holds a task, which exits, loses its address
space and its kernel stack, and is reaped. The phases and the steps between them are an
automaton over the actions of the machine. Every run of the scheduler and its tasks is
accepted by it, for every entry.
-/

import HeavenOS.Sched.System

namespace HeavenOS

open Lib

/-! ## Phases -/

/-- The life of an entry. -/
inductive Phase
  | free
  | alive
  /-- Exited; address space and kernel stack are still there. -/
  | exited
  /-- The address space is destroyed. -/
  | unmapped
  /-- The kernel stack is destroyed as well. -/
  | dead
  deriving DecidableEq

namespace Phase

def hasVmem : Phase → Bool
  | .alive | .exited => true
  | _ => false

def hasKstack : Phase → Bool
  | .alive | .exited | .unmapped => true
  | _ => false

/-- What may happen in a phase of entry `i`, and the next phase. A dead task is torn down
before any task runs, and reaped only then. -/
def next (i : ℕ) (phase : Phase) : Action → Option Phase
  | .fork _ j =>
      if j = i then (if phase = .free then some .alive else none) else some phase
  | .run j _ =>
      if phase = .exited ∨ phase = .unmapped then none
      else if j = i ∧ phase ≠ .alive then none
      else some phase
  | .exit j _ =>
      if j = i then (if phase = .alive then some .exited else none) else some phase
  | .destroyVmem j =>
      if j = i then (if phase = .exited then some .unmapped else none) else some phase
  | .destroyKstack j =>
      if j = i then (if phase = .unmapped then some .dead else none) else some phase
  | .reaped _ j _ =>
      if j = i then (if phase = .dead then some .free else none) else some phase
  | _ => some phase

end Phase

/-- The phase of entry `i` after some actions, if they are in order. -/
def life (i : ℕ) (labels : List Action) : Option Phase :=
  labels.foldlM (Phase.next i) (if i = 1 then .alive else .free)

/-- The phase of an entry in a state of the machine. -/
def phaseOf (s : System Cont) (i : ℕ) : Phase :=
  match (s.tasks i).state with
  | .notAllocated => .free
  | .zombie =>
      if s.cpu = .returned i then .exited else if s.cpu = .torn i then .unmapped else .dead
  | _ => .alive

/-- The deadline of the last `sys_sleep` of a task that has not run since. -/
def sleepDeadline (p : ℕ) (labels : List Action) : Option ℕ :=
  labels.foldl
    (fun d a =>
      match a with
      | .sleep q timer ms => if q = p then some ((timer + ms / schedTimerPeriod) % 2 ^ 64) else d
      | .run q _ => if q = p then none else d
      | _ => d) none

/-! ## The invariant -/

/-- Where a task goes on agrees with its state; one that was woken in `sys_wait` finds its
child dead. -/
def ContOk (tasks : TaskTable) (conts : ℕ → Cont) (i : ℕ) : Prop :=
  match (tasks i).state with
  | .runnable =>
      conts i = .user ∨ conts i = .sleep ∨
        ∃ c st, conts i = .wait c st ∧ (tasks c).state = .zombie ∧ (tasks c).ppid = i
  | .sleeping => conts i = .sleep
  | .waiting => ∃ st, conts i = .wait (tasks i).waitPid st
  | _ => True

theorem ContOk.congr {tasks tasks' : TaskTable} {conts conts' : ℕ → Cont} {i : ℕ}
    (h : ContOk tasks conts i) (hstate : (tasks' i).state = (tasks i).state)
    (hwait : (tasks' i).waitPid = (tasks i).waitPid) (hconts : conts' i = conts i)
    (hzombie : ∀ c, (tasks c).state = .zombie → (tasks c).ppid = i →
      (tasks' c).state = .zombie ∧ (tasks' c).ppid = i) : ContOk tasks' conts' i := by
  simp only [ContOk, hstate, hwait, hconts] at h ⊢
  cases hcase : (tasks i).state with
  | runnable =>
      simp only [hcase] at h
      refine h.imp_right (Or.imp_right ?_)
      rintro ⟨c, st, hc, hz, hpar⟩
      exact ⟨c, st, hc, hzombie c hz hpar⟩
  | waiting | sleeping => simpa only [hcase] using h
  | notAllocated | zombie => trivial

structure TaskInv (s : System Cont) : Prop where
  pid : ∀ i, (s.tasks i).state ≠ .notAllocated → 1 ≤ i ∧ i < maxTaskCount ∧ (s.tasks i).pid = i
  onCpu : ∀ {p}, s.cpu = .task p → s.current = some p ∧ s.schedIndex = p ∧ (s.tasks p).state = .runnable
  inSched : (∀ p, s.cpu ≠ .task p) → s.current = none
  returned : ∀ {i}, s.cpu = .returned i → (s.tasks i).state ≠ .notAllocated
  torn : ∀ {i}, s.cpu = .torn i → (s.tasks i).state = .zombie
  vmem : ∀ i, (s.tasks i).vmemLive = (phaseOf s i).hasVmem
  kstack : ∀ i, (s.tasks i).kstackLive = (phaseOf s i).hasKstack
  cont : ∀ i, ContOk s.tasks s.conts i
  safe : ∀ msg, s.cpu ≠ .panicked msg

theorem TaskInv.boot (vm : Vmem) : TaskInv (System.boot vm .user) := by
  have htask (i : ℕ) : (System.boot vm Cont.user).tasks i =
      if i = 1 then { Task.zero with pid := 1, state := .runnable, vmem := vm, vmemLive := true,
                                     kstackLive := true } else Task.zero := by
    simp only [System.boot, Function.update_apply]
  refine ⟨fun i hi => ?_, fun h => (by cases h), fun _ => rfl, fun h => (by cases h), fun h => (by cases h),
    fun i => ?_, fun i => ?_, fun i => ?_, fun msg h => (by cases h)⟩
  · rw [htask] at hi ⊢
    split_ifs at hi ⊢ with h1
    · subst h1
      exact ⟨le_refl 1, by decide, rfl⟩
    · exact absurd rfl hi
  · rw [phaseOf, htask]
    split_ifs <;> rfl
  · rw [phaseOf, htask]
    split_ifs <;> rfl
  · rw [ContOk, htask]
    split_ifs
    · exact Or.inl rfl
    · trivial

section Steps

variable {s : System Cont} (h : TaskInv s)

include h

/-- A task on the processor has its resources. -/
theorem TaskInv.live {p : ℕ} (hcpu : s.cpu = .task p) :
    (s.tasks p).vmemLive = true ∧ (s.tasks p).kstackLive = true := by
  have hstate := (h.onCpu hcpu).2.2
  rw [h.vmem p, h.kstack p, phaseOf, hstate]
  exact ⟨rfl, rfl⟩

/-- The scheduler goes from one place to another and changes nothing. -/
theorem TaskInv.schedule (cpu : Cpu) (timer : ℕ) (hfrom : ∀ p, s.cpu ≠ .task p) (hto : ∀ p, cpu ≠ .task p)
    (hsafe : ∀ msg, cpu ≠ .panicked msg)
    (hreturned : ∀ i, cpu = .returned i → s.cpu = .returned i) (htorn : ∀ i, cpu = .torn i → s.cpu = .torn i)
    (hleft : ∀ i, s.cpu = .returned i → cpu ≠ .returned i → (s.tasks i).state ≠ .zombie)
    (hleft' : ∀ i, s.cpu = .torn i → cpu = .torn i) :
    TaskInv { s with timer := timer, cpu := cpu } ∧ ∀ i, phaseOf { s with timer := timer, cpu := cpu } i = phaseOf s i := by
  have hphase (i : ℕ) : phaseOf { s with timer := timer, cpu := cpu } i = phaseOf s i := by
    simp only [phaseOf]
    cases hstate : (s.tasks i).state with
    | zombie =>
        have hret : (cpu = .returned i) ↔ (s.cpu = .returned i) :=
          ⟨hreturned i, fun hs => by_contra fun hne => hleft i hs hne hstate⟩
        have htorn : (cpu = .torn i) ↔ (s.cpu = .torn i) := ⟨htorn i, hleft' i⟩
        simp only [hret, htorn]
    | notAllocated | runnable | waiting | sleeping => rfl
  refine ⟨⟨h.pid, fun hcpu => absurd hcpu (hto _), fun _ => h.inSched hfrom,
    fun hcpu => h.returned (hreturned _ hcpu), fun hcpu => h.torn (htorn _ hcpu), fun i => ?_, fun i => ?_,
    h.cont, hsafe⟩, hphase⟩
  · rw [hphase]
    exact h.vmem i
  · rw [hphase]
    exact h.kstack i

/-- A task gives up the processor. Only its own entry changes, and that of its parent, which
is woken if it waits for a task that exits. -/
theorem TaskInv.switch {p : ℕ} (tasks : TaskTable) (cont : Cont) (timer : ℕ) (hcpu : s.cpu = .task p)
    (hself : (tasks p).state ≠ .notAllocated ∧ (tasks p).pid = (s.tasks p).pid ∧
      (tasks p).ppid = (s.tasks p).ppid ∧ (tasks p).vmemLive = (s.tasks p).vmemLive ∧
      (tasks p).kstackLive = (s.tasks p).kstackLive)
    (hother : ∀ j, j ≠ p → tasks j = s.tasks j ∨
      (s.tasks j).state = .waiting ∧ (s.tasks j).waitPid = p ∧ (s.tasks p).ppid = j ∧
        (tasks p).state = .zombie ∧ tasks j = { s.tasks j with state := .runnable })
    (hcont : ContOk tasks (Function.update s.conts p cont) p) :
    TaskInv (schedSwitch { s with tasks := tasks, timer := timer } cont) ∧
      (∀ j, j ≠ p → phaseOf (schedSwitch { s with tasks := tasks, timer := timer } cont) j = phaseOf s j) ∧
      phaseOf (schedSwitch { s with tasks := tasks, timer := timer } cont) p =
        if (tasks p).state = .zombie then .exited else .alive := by
  obtain ⟨hcur, hindex, hrun⟩ := h.onCpu hcpu
  obtain ⟨hvmem, hkstack⟩ := h.live hcpu
  obtain ⟨hfree, hpid, hppid, hv, hk⟩ := hself
  have hswitch : schedSwitch { s with tasks := tasks, timer := timer } cont =
      { s with tasks := tasks, timer := timer, current := none, conts := Function.update s.conts p cont,
               cpu := .returned p } := by
    simp only [schedSwitch, hcur, hindex]
  rw [hswitch]
  have hphase (j : ℕ) (hj : j ≠ p) :
      phaseOf { s with tasks := tasks, timer := timer, current := none, conts := Function.update s.conts p cont,
                       cpu := .returned p } j = phaseOf s j := by
    rcases hother j hj with heq | ⟨hwait, -, -, -, heq⟩
    · simp only [phaseOf, heq, hcpu]
      cases (s.tasks j).state <;> simp [Ne.symm hj]
    · simp only [phaseOf, heq, hwait]
  have hphasep : phaseOf { s with tasks := tasks, timer := timer, current := none, cpu := .returned p,
                                  conts := Function.update s.conts p cont } p =
      if (tasks p).state = .zombie then .exited else .alive := by
    simp only [phaseOf]
    cases hstate : (tasks p).state with
    | notAllocated => exact absurd hstate hfree
    | zombie => simp
    | runnable | waiting | sleeping => simp
  refine ⟨⟨fun i hi => ?_, fun hc => (by cases hc), fun _ => rfl, fun hc => ?_, fun hc => (by cases hc),
    fun i => ?_, fun i => ?_, fun i => ?_, fun msg hc => (by cases hc)⟩, hphase, hphasep⟩
  · by_cases hip : i = p
    · subst hip
      obtain ⟨hlo, hhi, hpid'⟩ := h.pid i (by rw [hrun]; simp)
      exact ⟨hlo, hhi, hpid.trans hpid'⟩
    · rcases hother i hip with heq | ⟨hwait, -, -, -, heq⟩
      · simp only [heq] at hi ⊢
        exact h.pid i hi
      · simp only [heq]
        exact h.pid i (by rw [hwait]; simp)
  · cases hc
    exact hfree
  · by_cases hip : i = p
    · rw [hip, hphasep]
      show (tasks p).vmemLive = _
      rw [hv, hvmem]
      split_ifs <;> rfl
    · rw [hphase i hip, ← h.vmem i]
      rcases hother i hip with heq | ⟨-, -, -, -, heq⟩ <;> simp only [heq]
  · by_cases hip : i = p
    · rw [hip, hphasep]
      show (tasks p).kstackLive = _
      rw [hk, hkstack]
      split_ifs <;> rfl
    · rw [hphase i hip, ← h.kstack i]
      rcases hother i hip with heq | ⟨-, -, -, -, heq⟩ <;> simp only [heq]
  · by_cases hip : i = p
    · rw [hip]
      exact hcont
    · have hold := h.cont i
      -- a zombie is neither the task on the processor nor woken
      have hzombie {c : ℕ} (hc : (s.tasks c).state = .zombie) : tasks c = s.tasks c := by
        have hcp : c ≠ p := fun heq => by
          rw [heq, hrun] at hc
          cases hc
        rcases hother c hcp with heq | ⟨hwait, -⟩
        · exact heq
        · rw [hc] at hwait
          cases hwait
      rcases hother i hip with heq | ⟨hwait, hpidw, hpar, hdead, heq⟩
      · show ContOk tasks (Function.update s.conts p cont) i
        refine hold.congr (by rw [heq]) (by rw [heq]) (Function.update_of_ne hip _ _) fun c hz hpp => ?_
        rw [hzombie hz]
        exact ⟨hz, hpp⟩
      · simp only [ContOk, hwait] at hold
        obtain ⟨st, hst⟩ := hold
        simp only [ContOk, heq, Function.update_of_ne hip]
        exact Or.inr (Or.inr ⟨p, st, hpidw ▸ hst, hdead, hppid.trans hpar⟩)

/-- One entry other than that of the task on the processor is taken or given free. -/
theorem TaskInv.entry {p c : ℕ} (f : Task → Task) (conts : ℕ → Cont) (hcpu : s.cpu = .task p) (hc : c ≠ p)
    (hstate : (f (s.tasks c)).state = .notAllocated ∨
      (f (s.tasks c)).state = .runnable ∧ 1 ≤ c ∧ c < maxTaskCount ∧ (f (s.tasks c)).pid = c)
    (hlive : (f (s.tasks c)).vmemLive = decide ((f (s.tasks c)).state = .runnable) ∧
      (f (s.tasks c)).kstackLive = decide ((f (s.tasks c)).state = .runnable))
    (hcont : ∀ i, ContOk (s.tasks.modify c f) conts i) :
    TaskInv { s with tasks := s.tasks.modify c f, conts := conts } ∧
      ∀ j, phaseOf { s with tasks := s.tasks.modify c f, conts := conts } j =
        if j = c then (if (f (s.tasks c)).state = .runnable then .alive else .free) else phaseOf s j := by
  have hphase (j : ℕ) : phaseOf { s with tasks := s.tasks.modify c f, conts := conts } j =
      if j = c then (if (f (s.tasks c)).state = .runnable then .alive else .free) else phaseOf s j := by
    by_cases hj : j = c
    · subst hj
      simp only [phaseOf, TaskTable.modify_self, if_true]
      rcases hstate with hfree | ⟨hrun, -⟩
      · simp [hfree]
      · simp [hrun]
    · simp only [phaseOf, TaskTable.modify_of_ne _ _ hj, if_neg hj]
  refine ⟨⟨fun i hi => ?_, fun {q} hq => ?_, h.inSched, fun {i} hi => ?_, fun {i} hi => ?_, fun i => ?_,
    fun i => ?_, hcont, h.safe⟩, hphase⟩
  · by_cases hic : i = c
    · subst hic
      simp only [TaskTable.modify_self] at hi ⊢
      exact (hstate.resolve_left hi).2
    · simp only [TaskTable.modify_of_ne _ _ hic] at hi ⊢
      exact h.pid i hi
  · obtain rfl : p = q := Cpu.task.inj (hcpu.symm.trans hq)
    simp only [TaskTable.modify_of_ne _ _ (Ne.symm hc)]
    exact h.onCpu hcpu
  · rw [show s.cpu = _ from hi] at hcpu
    cases hcpu
  · rw [show s.cpu = _ from hi] at hcpu
    cases hcpu
  · rw [hphase]
    by_cases hic : i = c
    · subst hic
      simp only [TaskTable.modify_self, if_true, hlive.1]
      split_ifs with hrun <;> simp [hrun, Phase.hasVmem]
    · simp only [TaskTable.modify_of_ne _ _ hic, if_neg hic]
      exact h.vmem i
  · rw [hphase]
    by_cases hic : i = c
    · subst hic
      simp only [TaskTable.modify_self, if_true, hlive.2]
      split_ifs with hrun <;> simp [hrun, Phase.hasKstack]
    · simp only [TaskTable.modify_of_ne _ _ hic, if_neg hic]
      exact h.kstack i

/-- A system call returns to user mode. -/
theorem TaskInv.resume {p : ℕ} (hcpu : s.cpu = .task p) :
    TaskInv { s with conts := Function.update s.conts p .user } := by
  refine ⟨h.pid, h.onCpu, h.inSched, h.returned, h.torn, h.vmem, h.kstack, fun i => ?_, h.safe⟩
  by_cases hip : i = p
  · subst hip
    have hrun := (h.onCpu hcpu).2.2
    simp only [ContOk, hrun]
    exact Or.inl (Function.update_self _ _ _)
  · exact (h.cont i).congr rfl rfl (Function.update_of_ne hip _ _) fun c hz hpar => ⟨hz, hpar⟩

end Steps

/-- While a task has the processor, every zombie has been torn down. -/
theorem phaseOf_zombie {s : System Cont} {p c : ℕ} (hcpu : s.cpu = .task p) (hz : (s.tasks c).state = .zombie) :
    phaseOf s c = .dead := by
  simp [phaseOf, hz, hcpu]

section Scheduler

variable {s : System Cont} {i : ℕ} {found : Bool}

variable (h : TaskInv s)

include h

theorem TaskInv.run (hcpu : s.cpu = .examine i found)
    (hstate : (wakeSleeping s.tasks s.timer i i).state = .runnable) :
    TaskInv (schedSwitchTo { s with tasks := wakeSleeping s.tasks s.timer i } i) ∧
      (∀ j, phaseOf (schedSwitchTo { s with tasks := wakeSleeping s.tasks s.timer i } i) j = phaseOf s j) ∧
      phaseOf s i = .alive ∧ ∀ j, phaseOf s j ≠ .exited ∧ phaseOf s j ≠ .unmapped := by
  obtain ⟨hold, htasks⟩ := schedSwitchTo_tasks hstate
  have hcpu' : (schedSwitchTo { s with tasks := wakeSleeping s.tasks s.timer i } i).cpu = .task i := rfl
  have hcur' : (schedSwitchTo { s with tasks := wakeSleeping s.tasks s.timer i } i).current = some i := rfl
  have hidx' : (schedSwitchTo { s with tasks := wakeSleeping s.tasks s.timer i } i).schedIndex = i := rfl
  have hconts' : (schedSwitchTo { s with tasks := wakeSleeping s.tasks s.timer i } i).conts = s.conts := rfl
  generalize schedSwitchTo { s with tasks := wakeSleeping s.tasks s.timer i } i = t at *
  have halive : phaseOf s i = .alive := by
    rcases hold with hr | ⟨hs, -⟩
    · rw [phaseOf, hr]
    · rw [phaseOf, hs]
  have hphase (j : ℕ) : phaseOf t j = phaseOf s j := by
    by_cases hj : j = i
    · subst hj
      rw [halive, phaseOf, htasks, if_pos rfl]
    · rw [phaseOf, phaseOf, htasks, if_neg hj, hcpu, hcpu']
      cases (s.tasks j).state <;> simp
  refine ⟨⟨fun j hj => ?_, fun {q} hq => ?_, fun hno => absurd hcpu' (hno i), fun hq => ?_, fun hq => ?_,
    fun j => ?_, fun j => ?_, fun j => ?_, fun msg hq => ?_⟩, hphase, halive, fun j => ?_⟩
  · have hne : (s.tasks j).state ≠ .notAllocated := fun hfree => by
      rw [htasks] at hj
      split_ifs at hj with hji
      · subst hji
        rcases hold with hr | ⟨hs, -⟩
        · rw [hfree] at hr
          cases hr
        · rw [hfree] at hs
          cases hs
      · exact hj hfree
    obtain ⟨hlo, hhi, hpid⟩ := h.pid j hne
    refine ⟨hlo, hhi, ?_⟩
    rw [htasks]
    split_ifs with hji
    · rw [← hpid, hji]
    · exact hpid
  · obtain rfl : i = q := Cpu.task.inj (hcpu'.symm.trans hq)
    exact ⟨hcur', hidx', by rw [htasks, if_pos rfl]⟩
  · rw [hcpu'] at hq
    cases hq
  · rw [hcpu'] at hq
    cases hq
  · rw [hphase, ← h.vmem j, htasks]
    split_ifs with hji
    · rw [hji]
    · rfl
  · rw [hphase, ← h.kstack j, htasks]
    split_ifs with hji
    · rw [hji]
    · rfl
  · have hzombie : ∀ c, (s.tasks c).state = .zombie → (s.tasks c).ppid = j →
        (t.tasks c).state = .zombie ∧ (t.tasks c).ppid = j := fun c hz hpar => by
      have hci : c ≠ i := fun heq => by
        rcases hold with hr | ⟨hs, -⟩
        · rw [← heq, hz] at hr
          cases hr
        · rw [← heq, hz] at hs
          cases hs
      rw [htasks, if_neg hci]
      exact ⟨hz, hpar⟩
    by_cases hji : j = i
    · subst hji
      have hcont := h.cont j
      rw [ContOk, htasks, if_pos rfl, hconts']
      rcases hold with hr | ⟨hs, -⟩
      · simp only [ContOk, hr] at hcont
        refine hcont.imp_right (Or.imp_right ?_)
        rintro ⟨c, st, hc, hz, hpar⟩
        exact ⟨c, st, hc, hzombie c hz hpar⟩
      · simp only [ContOk, hs] at hcont
        exact Or.inr (Or.inl hcont)
    · exact (h.cont j).congr (by rw [htasks, if_neg hji]) (by rw [htasks, if_neg hji]) (by rw [hconts']) hzombie
  · rw [hcpu'] at hq
    cases hq
  · rw [phaseOf, hcpu]
    cases (s.tasks j).state <;> simp

/-- A part of the teardown of a dead task. -/
theorem TaskInv.teardown (f : Task → Task) (currVmem : Option ℕ) {cpu : Cpu}
    (hstate : (s.tasks i).state = .zombie) (hfrom : s.cpu = .returned i ∨ s.cpu = .torn i)
    (hto : cpu = .torn i ∨ cpu = .examine (i + 1) true)
    (hkeep : ∀ t : Task, (f t).state = t.state ∧ (f t).pid = t.pid ∧ (f t).ppid = t.ppid ∧ (f t).waitPid = t.waitPid)
    (hvmem : (f (s.tasks i)).vmemLive = false)
    (hkstack : (f (s.tasks i)).kstackLive = decide (cpu = .torn i)) :
    TaskInv { s with tasks := s.tasks.modify i f, currVmem := currVmem, cpu := cpu } ∧
      ∀ j, phaseOf { s with tasks := s.tasks.modify i f, currVmem := currVmem, cpu := cpu } j =
        if j = i then (if cpu = .torn i then .unmapped else .dead) else phaseOf s j := by
  have hfield (j : ℕ) : (s.tasks.modify i f j).state = (s.tasks j).state ∧
      (s.tasks.modify i f j).pid = (s.tasks j).pid ∧ (s.tasks.modify i f j).ppid = (s.tasks j).ppid ∧
      (s.tasks.modify i f j).waitPid = (s.tasks j).waitPid := by
    rw [TaskTable.modify_apply]
    split_ifs
    · exact hkeep _
    · exact ⟨rfl, rfl, rfl, rfl⟩
  have hreturned (j : ℕ) : cpu ≠ .returned j := by
    rcases hto with rfl | rfl <;> simp
  have htask (p : ℕ) : cpu ≠ .task p ∧ s.cpu ≠ .task p := by
    rcases hto with rfl | rfl <;> rcases hfrom with hf | hf <;> simp [hf]
  have hphase (j : ℕ) : phaseOf { s with tasks := s.tasks.modify i f, currVmem := currVmem, cpu := cpu } j =
      if j = i then (if cpu = .torn i then .unmapped else .dead) else phaseOf s j := by
    by_cases hj : j = i
    · subst hj
      simp only [phaseOf, (hfield j).1, hstate, if_true, if_neg (hreturned j)]
    · simp only [phaseOf, (hfield j).1, if_neg hj, if_neg (hreturned j)]
      have hcpu : ¬cpu = .torn j ∧ ¬s.cpu = .returned j ∧ ¬s.cpu = .torn j := by
        rcases hto with rfl | rfl <;> rcases hfrom with hf | hf <;> simp [hf, Ne.symm hj]
      simp only [if_neg hcpu.1, if_neg hcpu.2.1, if_neg hcpu.2.2]
  refine ⟨⟨fun j hj => ?_, fun hq => absurd hq (htask _).1, fun _ => h.inSched fun p => (htask p).2,
    fun hq => absurd hq (hreturned _), fun {j} hq => ?_, fun j => ?_, fun j => ?_, fun j => ?_,
    fun msg hq => ?_⟩, hphase⟩
  · simp only [(hfield j).1, (hfield j).2.1] at hj ⊢
    exact h.pid j hj
  · rcases hto with rfl | rfl
    · obtain rfl : i = j := Cpu.torn.inj hq
      exact (hfield i).1.trans hstate
    · cases hq
  · rw [hphase]
    by_cases hj : j = i
    · subst hj
      simp only [TaskTable.modify_self, hvmem, if_true]
      split_ifs <;> rfl
    · simp only [TaskTable.modify_of_ne _ _ hj, if_neg hj]
      exact h.vmem j
  · rw [hphase]
    by_cases hj : j = i
    · subst hj
      simp only [TaskTable.modify_self, hkstack, if_true]
      split_ifs with htorn <;> simp [htorn, Phase.hasKstack]
    · simp only [TaskTable.modify_of_ne _ _ hj, if_neg hj]
      exact h.kstack j
  · refine (h.cont j).congr (hfield j).1 (hfield j).2.2.2 rfl fun c hz hpar => ?_
    exact ⟨(hfield c).1.trans hz, (hfield c).2.2.1.trans hpar⟩
  · rcases hto with rfl | rfl <;> cases hq

end Scheduler

/-! ## System calls -/

theorem finishWait_cases (s : System Cont) (p c status : ℕ) :
    finishWait s p c status = (.invalid p c, { s with conts := Function.update s.conts p .user }) ∨
    finishWait s p c status =
      (.reaped p c (if status ≠ 0 then some (s.tasks c).exitcode else none),
        { s with
          tasks := s.tasks.modify c fun t => { t with state := .notAllocated }
          conts := Function.update s.conts p .user }) := by
  unfold finishWait sysWaitFinish
  by_cases hbad : status ≠ 0 ∧ ¬ statusOk (s.tasks p).vmem status
  · rw [if_pos hbad]
    exact Or.inl rfl
  · rw [if_neg hbad]
    exact Or.inr rfl

section Calls

variable {s : System Cont} {p c : ℕ} (h : TaskInv s)

include h

theorem TaskInv.pid_of_cpu (hcpu : s.cpu = .task p) : (s.tasks p).pid = p :=
  (h.pid p (by rw [(h.onCpu hcpu).2.2]; simp)).2.2

/-- Who returns from `sched_switch` in `sys_wait` finds the child dead. -/
theorem TaskInv.zombie_of_waited {status : ℕ} (hcpu : s.cpu = .task p) (hcont : s.conts p = .wait c status) :
    (s.tasks c).state = .zombie ∧ (s.tasks c).ppid = p := by
  have hok := h.cont p
  simp only [ContOk, (h.onCpu hcpu).2.2, hcont] at hok
  obtain ⟨d, st, heq, hz, hpar⟩ : ∃ d st, Cont.wait c status = .wait d st ∧
      (s.tasks d).state = .zombie ∧ (s.tasks d).ppid = p := by simpa using hok
  obtain ⟨rfl, -⟩ := Cont.wait.inj heq
  exact ⟨hz, hpar⟩

theorem TaskInv.fork {vm : Vmem} {tasks : TaskTable} (huser : s.InUser p)
    (hfork : sysFork s.tasks p vm = some (c, tasks)) :
    TaskInv { s with tasks := tasks, conts := Function.update s.conts c .user } ∧
      ∀ i, (phaseOf s i).next i (.fork p c) =
        some (phaseOf { s with tasks := tasks, conts := Function.update s.conts c .user } i) := by
  obtain ⟨hlo, hhi, hfree, htasks⟩ := sysFork_spec hfork
  have hrun := (h.onCpu huser.1).2.2
  have hne : c ≠ p := fun heq => by
    rw [← heq, hfree] at hrun
    cases hrun
  rw [htasks hne.symm]
  obtain ⟨hinv, hphase⟩ := h.entry
    (fun t => { t with
      pid := c, vmem := vm, vmemLive := true, kstackLive := true, ppid := (s.tasks p).pid, state := .runnable })
    (Function.update s.conts c .user) huser.1 hne (Or.inr ⟨rfl, hlo, hhi, rfl⟩) ⟨rfl, rfl⟩ fun i => by
      by_cases hi : i = c
      · subst hi
        simp only [ContOk, TaskTable.modify_self]
        exact Or.inl (Function.update_self _ _ _)
      · refine (h.cont i).congr (by rw [TaskTable.modify_of_ne _ _ hi])
          (by rw [TaskTable.modify_of_ne _ _ hi]) (Function.update_of_ne hi _ _) fun d hz hpar => ?_
        have hd : d ≠ c := fun heq => by
          rw [heq, hfree] at hz
          cases hz
        rw [TaskTable.modify_of_ne _ _ hd]
        exact ⟨hz, hpar⟩
  refine ⟨hinv, fun i => ?_⟩
  rw [hphase i, Phase.next]
  by_cases hi : c = i
  · subst hi
    have : phaseOf s c = .free := by rw [phaseOf, hfree]
    simp [this]
  · simp [hi, Ne.symm hi]

theorem TaskInv.exit {code : BitVec 64} (huser : s.InUser p) :
    TaskInv (schedSwitch { s with tasks := sysExit s.tasks p code } .exit) ∧
      ∀ i, (phaseOf s i).next i (.exit p code) =
        some (phaseOf (schedSwitch { s with tasks := sysExit s.tasks p code } .exit) i) := by
  have hself : sysExit s.tasks p code p =
      { s.tasks p with exitcode := code.truncate 32, state := .zombie } := by
    rw [sysExit_apply, if_pos rfl]
  have hrun := (h.onCpu huser.1).2.2
  have halive : phaseOf s p = .alive := by rw [phaseOf, hrun]
  obtain ⟨hinv, hphase, hphasep⟩ := h.switch (sysExit s.tasks p code) .exit s.timer huser.1 (by rw [hself]; simp) (fun j hj => by
      rw [sysExit_apply, if_neg hj]
      split_ifs with hwake
      · refine Or.inr ⟨hwake.2.1, hwake.2.2.trans (h.pid_of_cpu huser.1), hwake.1.symm, by rw [hself], rfl⟩
      · exact Or.inl rfl)
    (by rw [ContOk, hself]; trivial)
  refine ⟨hinv, fun i => ?_⟩
  rw [Phase.next]
  by_cases hi : p = i
  · subst hi
    rw [hphasep, hself, if_pos rfl, if_pos halive, if_pos rfl]
  · rw [if_neg hi, hphase i (Ne.symm hi)]

/-- The end of `sys_wait`, for a dead child of the caller. -/
theorem TaskInv.finish {status : ℕ} (hcpu : s.cpu = .task p) (hz : (s.tasks c).state = .zombie)
    (hpar : (s.tasks c).ppid = p) :
    TaskInv (finishWait s p c status).2 ∧
      ∀ i, (phaseOf s i).next i (finishWait s p c status).1 = some (phaseOf (finishWait s p c status).2 i) := by
  have hrun := (h.onCpu hcpu).2.2
  have hne : c ≠ p := fun heq => by
    rw [heq, hrun] at hz
    cases hz
  rcases finishWait_cases s p c status with heq | heq
  · rw [heq]
    exact ⟨h.resume hcpu, fun i => rfl⟩
  · rw [heq]
    obtain ⟨hinv, hphase⟩ := h.entry (fun t => { t with state := .notAllocated })
      (Function.update s.conts p .user) hcpu hne (Or.inl rfl)
      ⟨by rw [h.vmem c, phaseOf_zombie hcpu hz]; rfl, by rw [h.kstack c, phaseOf_zombie hcpu hz]; rfl⟩
      fun i => by
        by_cases hi : i = p
        · subst hi
          simp only [ContOk, TaskTable.modify_of_ne _ _ hne.symm, hrun]
          exact Or.inl (Function.update_self _ _ _)
        · by_cases hic : i = c
          · subst hic
            simp only [ContOk, TaskTable.modify_self]
          · refine (h.cont i).congr (by rw [TaskTable.modify_of_ne _ _ hic])
              (by rw [TaskTable.modify_of_ne _ _ hic]) (Function.update_of_ne hi _ _) fun d hd hdpar => ?_
            have hdc : d ≠ c := fun heq => hi (by rw [← hdpar, heq, hpar])
            rw [TaskTable.modify_of_ne _ _ hdc]
            exact ⟨hd, hdpar⟩
    refine ⟨hinv, fun i => ?_⟩
    rw [hphase i, Phase.next]
    by_cases hi : c = i
    · subst hi
      simp [phaseOf_zombie hcpu hz]
    · simp [hi, Ne.symm hi]

end Calls

/-! ## One step -/

theorem TaskInv.tick {s : System Cont} (h : TaskInv s) (hint : s.Interruptible) :
    TaskInv (schedTimerTick s .user).wake ∧ ∀ i, phaseOf (schedTimerTick s .user).wake i = phaseOf s i := by
  by_cases hcpu : ∃ p, s.cpu = .task p
  · obtain ⟨p, hcpu⟩ := hcpu
    obtain ⟨hcur, -, hrun⟩ := h.onCpu hcpu
    have huser : s.conts p = .user := by simpa only [System.Interruptible, hcpu] using hint
    have halive : phaseOf s p = .alive := by rw [phaseOf, hrun]
    by_cases hdue : (s.timer + 1) % 2 ^ 64 ≤ (s.tasks p).preemptDeadline
    · have htick : schedTimerTick s .user =
          schedSwitch { s with tasks := s.tasks, timer := (s.timer + 1) % 2 ^ 64 } .user := by
        simp only [schedTimerTick, hcur, hdue, if_true]
      obtain ⟨hinv, hphase, hphasep⟩ := h.switch s.tasks .user
        ((s.timer + 1) % 2 ^ 64) hcpu ⟨by rw [hrun]; simp, rfl, rfl, rfl, rfl⟩ (fun j _ => Or.inl rfl)
        (by simp only [ContOk, hrun]; exact Or.inl (Function.update_self _ _ _))
      rw [← htick] at hinv hphase hphasep
      have hwake : (schedTimerTick s .user).wake = schedTimerTick s .user := by
        rw [System.wake, if_neg]
        rw [htick, schedSwitch]
        simp [hcur]
      rw [hwake]
      refine ⟨hinv, fun i => ?_⟩
      by_cases hi : i = p
      · rw [hi, hphasep, halive, hrun]
        rfl
      · exact hphase i hi
    · have htick : schedTimerTick s .user = { s with timer := (s.timer + 1) % 2 ^ 64 } := by
        simp only [schedTimerTick, hcur, hdue, if_false]
      have hwake : (schedTimerTick s .user).wake = { s with timer := (s.timer + 1) % 2 ^ 64 } := by
        rw [htick, System.wake, if_neg]
        simp [hcpu]
      rw [hwake]
      exact ⟨⟨h.pid, h.onCpu, h.inSched, h.returned, h.torn, h.vmem, h.kstack, h.cont, h.safe⟩, fun i => rfl⟩
  · have hno (p : ℕ) : s.cpu ≠ .task p := fun hp => hcpu ⟨p, hp⟩
    have htick : schedTimerTick s .user = { s with timer := (s.timer + 1) % 2 ^ 64 } := by
      simp only [schedTimerTick, h.inSched hno]
    rw [htick, System.wake]
    split_ifs with hhalt
    · exact h.schedule _ _ hno (by simp) (by simp) (by simp) (by simp) (by simp [show s.cpu = .halted from hhalt])
        (by simp [show s.cpu = .halted from hhalt])
    · exact h.schedule _ _ hno hno h.safe (fun _ hi => hi) (fun _ hi => hi) (fun _ hi hne => absurd hi hne)
        (fun _ hi => hi)

/-- Every step keeps the invariant and is in order for every entry. -/
theorem TaskInv.step {s t : System Cont} {a : Action} (h : TaskInv s) (hstep : Step s a t) :
    TaskInv t ∧ ∀ i, (phaseOf s i).next i a = some (phaseOf t i) := by
  cases hstep with
  | tick hint =>
      obtain ⟨hinv, hphase⟩ := h.tick hint
      exact ⟨hinv, fun i => congrArg some (hphase i).symm⟩
  | sched hstep =>
      cases hstep with
      | pass hcpu hi hstate =>
          rw [wakeSleeping_of_pass hstate]
          obtain ⟨hinv, hphase⟩ := h.schedule (.examine _ _) s.timer (by simp [hcpu]) (by simp)
            (by simp) (by simp) (by simp) (by simp [hcpu]) (by simp [hcpu])
          exact ⟨hinv, fun i => congrArg some (hphase i).symm⟩
      | @passEnd found hcpu =>
          obtain ⟨hinv, hphase⟩ := h.schedule (if found then .examine 0 false else .halted) s.timer
            (by simp [hcpu]) (by split_ifs <;> simp) (by split_ifs <;> simp) (by split_ifs <;> simp)
            (by split_ifs <;> simp) (by simp [hcpu]) (by simp [hcpu])
          exact ⟨hinv, fun i => congrArg some (hphase i).symm⟩
      | @run i found hcpu hi hstate =>
          obtain ⟨hinv, hphase, halive, hother⟩ := h.run hcpu hstate
          refine ⟨hinv, fun j => ?_⟩
          rw [hphase j, Phase.next, if_neg (by simp [hother j]), if_neg]
          rintro ⟨rfl, hne⟩
          exact hne halive
      | @keep i hcpu hstate =>
          obtain ⟨hinv, hphase⟩ := h.schedule (.examine (i + 1) true) s.timer (by simp [hcpu])
            (by simp) (by simp) (by simp) (by simp) (by simp [hcpu, hstate]) (by simp [hcpu])
          exact ⟨hinv, fun i => congrArg some (hphase i).symm⟩
      | @destroyVmem i hcpu hstate =>
          have hphase : phaseOf s i = .exited := by simp [phaseOf, hstate, hcpu]
          have hdestroy : destroyVmem s i = { s with
              tasks := s.tasks.modify i fun t => { t with vmemLive := false }, currVmem := none, cpu := .torn i } := by
            simp [HeavenOS.destroyVmem]
          obtain ⟨hinv, hnext⟩ := h.teardown (fun t => { t with vmemLive := false }) none hstate
            (Or.inl hcpu) (Or.inl rfl) (fun t => ⟨rfl, rfl, rfl, rfl⟩) rfl (by simp [h.kstack i, hphase, Phase.hasKstack])
          rw [hdestroy]
          refine ⟨hinv, fun j => ?_⟩
          rw [hnext j, Phase.next]
          by_cases hj : i = j
          · subst hj
            simp [hphase]
          · simp [hj, Ne.symm hj]
      | @destroyKstack i hcpu =>
          have hstate := h.torn hcpu
          have hphase : phaseOf s i = .unmapped := by simp [phaseOf, hstate, hcpu]
          obtain ⟨hinv, hnext⟩ := h.teardown (fun t => { t with kstackLive := false }) s.currVmem
            hstate (Or.inr hcpu) (Or.inr rfl) (fun t => ⟨rfl, rfl, rfl, rfl⟩)
            (by simp [h.vmem i, hphase, Phase.hasVmem]) (by simp)
          refine ⟨hinv, fun j => ?_⟩
          rw [destroyKstack, hnext j, Phase.next]
          by_cases hj : i = j
          · subst hj
            simp [hphase]
          · simp [hj, Ne.symm hj]
  | getpid huser => exact ⟨h, fun i => rfl⟩
  | @sleep p ms huser hms =>
      have hrun := (h.onCpu huser.1).2.2
      have halive : phaseOf s p = .alive := by rw [phaseOf, hrun]
      obtain ⟨hinv, hphase, hphasep⟩ := h.switch (sysSleep s.tasks s.timer p ms) .sleep s.timer
        huser.1 (by simp [sysSleep])
        (fun j hj => Or.inl (TaskTable.modify_of_ne _ _ hj))
        (by simp only [ContOk, sysSleep, TaskTable.modify_self]; exact Function.update_self _ _ _)
      refine ⟨hinv, fun i => congrArg some ?_⟩
      by_cases hi : i = p
      · rw [hi, halive]
        refine (hphasep.trans ?_).symm
        simp [sysSleep]
      · exact (hphase i hi).symm
  | slept hcpu hcont => exact ⟨h.resume hcpu, fun i => rfl⟩
  | fork huser hfork => exact h.fork huser hfork
  | exit huser => exact h.exit huser
  | @exited p hcpu hcont =>
      have hok := h.cont p
      simp [ContOk, (h.onCpu hcpu).2.2, hcont] at hok
  | refused huser hchild hwait => exact ⟨h, fun i => rfl⟩
  | @blocked p c status tasks huser hchild hwait =>
      have hrun := (h.onCpu huser.1).2.2
      have halive : phaseOf s p = .alive := by rw [phaseOf, hrun]
      obtain rfl : tasks = s.tasks.modify p fun t => { t with state := .waiting, waitPid := c } := by
        rcases sysWait_cases s.tasks p c with ⟨-, heq⟩ | ⟨-, -, heq⟩ | ⟨-, -, heq⟩ <;> rw [hwait] at heq
        · cases heq
        · exact WaitStart.blocked.inj heq
        · cases heq
      obtain ⟨hinv, hphase, hphasep⟩ := h.switch
        (s.tasks.modify p fun t => { t with state := .waiting, waitPid := c }) (.wait c status) s.timer huser.1 (by simp)
        (fun j hj => Or.inl (TaskTable.modify_of_ne _ _ hj))
        (by simp only [ContOk, TaskTable.modify_self]; exact ⟨status, Function.update_self _ _ _⟩)
      refine ⟨hinv, fun i => congrArg some ?_⟩
      by_cases hi : i = p
      · rw [hi, halive]
        refine (hphasep.trans ?_).symm
        simp
      · exact (hphase i hi).symm
  | @ready p c status huser hchild hwait =>
      rcases sysWait_cases s.tasks p c with ⟨-, heq⟩ | ⟨-, -, heq⟩ | ⟨hpar, hz, -⟩
      · rw [hwait] at heq
        cases heq
      · rw [hwait] at heq
        cases heq
      · exact h.finish huser.1 hz (hpar.trans (h.pid_of_cpu huser.1))
  | @waited p c status hcpu hcont hassert =>
      obtain ⟨hz, hpar⟩ := h.zombie_of_waited hcpu hcont
      exact h.finish hcpu hz hpar
  | waitPanic hcpu hcont hassert => exact absurd (h.zombie_of_waited hcpu hcont).1 hassert

/-! ## The table -/

/-- What an action does to the table. -/
def Effect (s : System Cont) (tasks : TaskTable) : Action → Prop
  | .run i time =>
      time = s.timer ∧
      ((s.tasks i).state = .runnable ∨ (s.tasks i).state = .sleeping ∧ (s.tasks i).sleepUntil ≤ s.timer) ∧
        tasks = s.tasks.modify i fun t =>
          { t with state := .runnable, preemptDeadline := (s.timer + preemptTicks) % 2 ^ 64 }
  | .destroyVmem i =>
      (s.tasks i).state = .zombie ∧ tasks = s.tasks.modify i fun t => { t with vmemLive := false }
  | .destroyKstack i =>
      (s.tasks i).state = .zombie ∧ tasks = s.tasks.modify i fun t => { t with kstackLive := false }
  | .sleep p time ms => s.InUser p ∧ time = s.timer ∧ tasks = sysSleep s.tasks s.timer p ms
  | .fork p c =>
      s.InUser p ∧ c ≠ p ∧ 1 ≤ c ∧ c < maxTaskCount ∧ (s.tasks c).state = .notAllocated ∧
        ∃ vm, tasks = s.tasks.modify c fun t =>
          { t with pid := c, vmem := vm, vmemLive := true, kstackLive := true, ppid := p, state := .runnable }
  | .exit p code => s.InUser p ∧ tasks = sysExit s.tasks p code
  | .refused p c => s.InUser p ∧ (s.tasks c).ppid ≠ p ∧ tasks = s.tasks
  | .blocked p c =>
      s.InUser p ∧ (s.tasks c).ppid = p ∧ (s.tasks c).state ≠ .zombie ∧
        tasks = s.tasks.modify p fun t => { t with state := .waiting, waitPid := c }
  | .invalid p c =>
      s.cpu = .task p ∧ (s.tasks c).ppid = p ∧ (s.tasks c).state = .zombie ∧ tasks = s.tasks
  | .reaped p c status =>
      s.cpu = .task p ∧ (s.tasks c).ppid = p ∧ (s.tasks c).state = .zombie ∧
        (∀ code, status = some code → code = (s.tasks c).exitcode) ∧
        tasks = s.tasks.modify c fun t => { t with state := .notAllocated }
  | _ => tasks = s.tasks

theorem schedSwitch_tasks (s : System Cont) (cont : Cont) : (schedSwitch s cont).tasks = s.tasks := by
  unfold schedSwitch
  split <;> rfl

theorem tick_tasks (s : System Cont) : (schedTimerTick s .user).wake.tasks = s.tasks := by
  have hwake (u : System Cont) : u.wake.tasks = u.tasks := by
    unfold System.wake
    split_ifs <;> rfl
  rw [hwake]
  unfold schedTimerTick
  simp only
  split
  · rfl
  · split_ifs
    · exact schedSwitch_tasks _ _
    · rfl

theorem effect_finishWait {s : System Cont} {p c status : ℕ} (hcpu : s.cpu = .task p)
    (hpar : (s.tasks c).ppid = p) (hz : (s.tasks c).state = .zombie) :
    Effect s (finishWait s p c status).2.tasks (finishWait s p c status).1 := by
  rcases finishWait_cases s p c status with heq | heq
  · rw [heq]
    exact ⟨hcpu, hpar, hz, rfl⟩
  · rw [heq]
    refine ⟨hcpu, hpar, hz, fun code hcode => ?_, rfl⟩
    split_ifs at hcode
    exact (Option.some.inj hcode).symm

theorem Step.effect {s t : System Cont} {a : Action} (h : TaskInv s) (hstep : Step s a t) : Effect s t.tasks a := by
  cases hstep with
  | tick hint => exact tick_tasks s
  | sched hstep =>
      cases hstep with
      | pass hcpu hi hstate => exact wakeSleeping_of_pass hstate
      | passEnd hcpu => exact rfl
      | @run i found hcpu hi hstate =>
          obtain ⟨hold, htasks⟩ := schedSwitchTo_tasks hstate
          refine ⟨rfl, hold, funext fun j => ?_⟩
          rw [htasks, TaskTable.modify_apply]
          split_ifs with hj
          · rw [hj]
          · rfl
      | keep hcpu hstate => exact rfl
      | destroyVmem hcpu hstate => exact ⟨hstate, by simp [HeavenOS.destroyVmem]⟩
      | destroyKstack hcpu => exact ⟨h.torn hcpu, rfl⟩
  | getpid huser => exact rfl
  | sleep huser hms => exact ⟨huser, rfl, schedSwitch_tasks _ _⟩
  | slept hcpu hcont => exact rfl
  | @fork p c vm tasks huser hfork =>
      obtain ⟨hlo, hhi, hfree, htasks⟩ := sysFork_spec hfork
      have hne : c ≠ p := fun heq => by
        have hrun := (h.onCpu huser.1).2.2
        rw [← heq, hfree] at hrun
        cases hrun
      refine ⟨huser, hne, hlo, hhi, hfree, vm, ?_⟩
      rw [htasks hne.symm, h.pid_of_cpu huser.1]
  | exit huser => exact ⟨huser, schedSwitch_tasks _ _⟩
  | exited hcpu hcont => exact rfl
  | @refused p c huser hchild hwait =>
      rcases sysWait_cases s.tasks p c with ⟨hpar, -⟩ | ⟨-, -, heq⟩ | ⟨-, -, heq⟩
      · exact ⟨huser, h.pid_of_cpu huser.1 ▸ hpar, rfl⟩
      · rw [hwait] at heq
        cases heq
      · rw [hwait] at heq
        cases heq
  | @blocked p c status tasks huser hchild hwait =>
      rcases sysWait_cases s.tasks p c with ⟨-, heq⟩ | ⟨hpar, hz, heq⟩ | ⟨-, -, heq⟩ <;> rw [hwait] at heq
      · cases heq
      · refine ⟨huser, hpar.trans (h.pid_of_cpu huser.1), hz, ?_⟩
        rw [schedSwitch_tasks, ← WaitStart.blocked.inj heq]
      · cases heq
  | @ready p c status huser hchild hwait =>
      rcases sysWait_cases s.tasks p c with ⟨-, heq⟩ | ⟨-, -, heq⟩ | ⟨hpar, hz, -⟩
      · rw [hwait] at heq
        cases heq
      · rw [hwait] at heq
        cases heq
      · exact effect_finishWait huser.1 (hpar.trans (h.pid_of_cpu huser.1)) hz
  | @waited p c status hcpu hcont hassert =>
      obtain ⟨hz, hpar⟩ := h.zombie_of_waited hcpu hcont
      exact effect_finishWait hcpu hpar hz
  | waitPanic hcpu hcont hassert => exact rfl

/-- A sleeping task is not touched until it is run, and that is after its deadline. -/
theorem Step.sleeping {s t : System Cont} {a : Action} {p : ℕ} (h : TaskInv s) (hstep : Step s a t)
    (hp : (s.tasks p).state = .sleeping) :
    (∃ time, a = .run p time ∧ (s.tasks p).sleepUntil ≤ time) ∨
      (∀ time, a ≠ .run p time) ∧ (∀ time ms, a ≠ .sleep p time ms) ∧ t.tasks p = s.tasks p := by
  have heffect := hstep.effect h
  have hcpu {q : ℕ} (hq : s.cpu = .task q) : p ≠ q := fun heq => by
    have := (h.onCpu hq).2.2
    rw [← heq, hp] at this
    cases this
  have hstate {q : ℕ} {st : TaskState} (hq : (s.tasks q).state = st) (hst : st ≠ .sleeping) : p ≠ q :=
    fun heq => hst (by rw [← hq, ← heq, hp])
  cases a with
  | run i time =>
      obtain ⟨rfl, hold, htasks⟩ := heffect
      by_cases hpi : i = p
      · subst hpi
        rw [hp] at hold
        exact Or.inl ⟨_, rfl, (hold.resolve_left (by simp)).2⟩
      · exact Or.inr ⟨by simp [hpi], by simp, by rw [htasks, TaskTable.modify_of_ne _ _ (Ne.symm hpi)]⟩
  | destroyVmem i =>
      obtain ⟨hz, htasks⟩ := heffect
      exact Or.inr ⟨by simp, by simp, by rw [htasks, TaskTable.modify_of_ne _ _ (hstate hz (by simp))]⟩
  | destroyKstack i =>
      obtain ⟨hz, htasks⟩ := heffect
      exact Or.inr ⟨by simp, by simp, by rw [htasks, TaskTable.modify_of_ne _ _ (hstate hz (by simp))]⟩
  | sleep q time ms =>
      obtain ⟨huser, -, htasks⟩ := heffect
      have hpq := hcpu huser.1
      exact Or.inr ⟨by simp, by simp [Ne.symm hpq], by rw [htasks, sysSleep, TaskTable.modify_of_ne _ _ hpq]⟩
  | fork q c =>
      obtain ⟨-, -, -, -, hfree, vm, htasks⟩ := heffect
      exact Or.inr ⟨by simp, by simp, by rw [htasks, TaskTable.modify_of_ne _ _ (hstate hfree (by simp))]⟩
  | exit q code =>
      obtain ⟨huser, htasks⟩ := heffect
      refine Or.inr ⟨by simp, by simp, ?_⟩
      rw [htasks, sysExit_apply, if_neg (hcpu huser.1), if_neg (by simp [hp])]
  | blocked q c =>
      obtain ⟨huser, -, -, htasks⟩ := heffect
      exact Or.inr ⟨by simp, by simp, by rw [htasks, TaskTable.modify_of_ne _ _ (hcpu huser.1)]⟩
  | reaped q c status =>
      obtain ⟨-, -, hz, -, htasks⟩ := heffect
      exact Or.inr ⟨by simp, by simp, by rw [htasks, TaskTable.modify_of_ne _ _ (hstate hz (by simp))]⟩
  | refused q c => exact Or.inr ⟨by simp, by simp, by rw [heffect.2.2]⟩
  | invalid q c => exact Or.inr ⟨by simp, by simp, by rw [heffect.2.2.2]⟩
  | tick | pass | passEnd | keep | getpid | slept | panic =>
      exact Or.inr ⟨by simp, by simp, by rw [show t.tasks = s.tasks from heffect]⟩

/-! ## Runs -/

/-- A step of a system call on entries of the table. -/
def StepInRange (s : System Cont) (a : Action) (t : System Cont) : Prop := Step s a t ∧ a.InRange

section Runs

variable {vm : Vmem} {labels : List Action} {s : System Cont}

theorem run_taskInv (hrun : Run StepInRange (System.boot vm .user) labels s) : TaskInv s :=
  hrun.invariant TaskInv (TaskInv.boot vm) fun _ _ _ h hstep => (h.step hstep.1).1

/-- The machine is in the phases of the automaton. -/
theorem life_eq_phaseOf (hrun : Run StepInRange (System.boot vm .user) labels s) (i : ℕ) :
    life i labels = some (phaseOf s i) := by
  induction hrun with
  | nil =>
      simp only [life, List.foldlM_nil, phaseOf, System.boot, Function.update_apply]
      split_ifs <;> rfl
  | snoc hprev hlast ih =>
      rw [life, List.foldlM_append, ← life, ih]
      have hnext := ((run_taskInv hprev).step hlast.1).2 i
      simp only [List.foldlM_cons, List.foldlM_nil, bind_pure]
      exact hnext

theorem sleepDeadline_append (p : ℕ) (a : Action) :
    sleepDeadline p (labels ++ [a]) =
      match a with
      | .sleep q timer ms =>
          if q = p then some ((timer + ms / schedTimerPeriod) % 2 ^ 64) else sleepDeadline p labels
      | .run q _ => if q = p then none else sleepDeadline p labels
      | _ => sleepDeadline p labels := by
  rw [sleepDeadline, List.foldl_append]
  rfl

/-- A task that has not run since `sys_sleep` is asleep until its deadline. -/
theorem sleeping_of_deadline (hrun : Run StepInRange (System.boot vm .user) labels s) {p d : ℕ}
    (hd : sleepDeadline p labels = some d) :
    (s.tasks p).state = .sleeping ∧ (s.tasks p).sleepUntil = d := by
  induction hrun with
  | nil => cases hd
  | @snoc labels s t a hprev hlast ih =>
      have hinv := run_taskInv hprev
      have hkeep (hold : sleepDeadline p labels = some d) (hno : ∀ time, a ≠ .run p time) :
          (t.tasks p).state = .sleeping ∧ (t.tasks p).sleepUntil = d := by
        obtain ⟨hsleep, huntil⟩ := ih hold
        rcases hlast.1.sleeping hinv hsleep with ⟨time, heq, -⟩ | ⟨-, -, htasks⟩
        · exact absurd heq (hno time)
        · rw [htasks]
          exact ⟨hsleep, huntil⟩
      rw [sleepDeadline_append] at hd
      cases a with
      | sleep q timer ms =>
          simp only at hd
          split_ifs at hd with hq
          · subst hq
            obtain ⟨-, rfl, htasks⟩ := hlast.1.effect hinv
            rw [htasks, sysSleep, TaskTable.modify_self]
            exact ⟨rfl, Option.some.inj hd⟩
          · exact hkeep hd (by simp)
      | run q time =>
          simp only at hd
          split_ifs at hd with hq
          exact hkeep hd (by simp [hq])
      | _ => exact hkeep hd (by simp)

/-- The life cycle of tasks. Only runnable tasks have the processor; a task that sleeps is
not run before its deadline; every entry goes through its phases in order; whenever the
scheduler examines an entry, the entries with an address space and a kernel stack are those
of the tasks that are alive; and no assertion fails. -/
theorem life_cycle (hrun : Run StepInRange (System.boot vm .user) labels s) :
    (∀ p, s.cpu = .task p → (s.tasks p).state = .runnable) ∧
    (∀ before p time after, labels = before ++ .run p time :: after →
      ∀ d, sleepDeadline p before = some d → d ≤ time) ∧
    (∀ i, ∃ phase, life i labels = some phase) ∧
    (∀ i found, s.cpu = .examine i found → ∀ j,
      ((s.tasks j).vmemLive = true ↔ (s.tasks j).state ∈ [.runnable, .waiting, .sleeping]) ∧
      ((s.tasks j).kstackLive = true ↔ (s.tasks j).state ∈ [.runnable, .waiting, .sleeping])) ∧
    ∀ msg, s.cpu ≠ .panicked msg := by
  have hinv := run_taskInv hrun
  refine ⟨fun p hp => (hinv.onCpu hp).2.2, ?_, fun i => ⟨_, life_eq_phaseOf hrun i⟩, fun i found hcpu j => ?_,
    hinv.safe⟩
  · clear hinv
    induction hrun with
    | nil => simp
    | @snoc labels s t a hprev hlast ih =>
        intro before p time after heq d hd
        rcases List.eq_nil_or_concat' after with rfl | ⟨after, a', rfl⟩
        · obtain ⟨rfl, hlabel⟩ := List.append_inj' heq rfl
          obtain rfl := (List.cons.inj hlabel).1
          obtain ⟨hsleep, rfl⟩ := sleeping_of_deadline hprev hd
          rcases hlast.1.sleeping (run_taskInv hprev) hsleep with ⟨_, heq, hle⟩ | ⟨hno, -⟩
          · obtain ⟨-, rfl⟩ := Action.run.inj heq
            exact hle
          · exact absurd rfl (hno time)
        · rw [← List.cons_append, ← List.append_assoc] at heq
          exact ih before p time after (List.append_inj' heq rfl).1 d hd
  · rw [hinv.vmem, hinv.kstack, phaseOf, hcpu]
    cases (s.tasks j).state <;> simp [Phase.hasVmem, Phase.hasKstack]

end Runs

/-- The first task forks; the child gets the processor, exits and is torn down. -/
theorem life_cycle_child :
    ∃ s, Run StepInRange (System.boot ⟨[], 0⟩ Cont.user)
        [.pass 0, .run 1 0, .fork 1 2, .tick, .keep 1, .run 2 1, .exit 2 7, .destroyVmem 2, .destroyKstack 2] s ∧
      (∃ phase, life 2 [.pass 0, .run 1 0, .fork 1 2, .tick, .keep 1, .run 2 1, .exit 2 7, .destroyVmem 2,
        .destroyKstack 2] = some phase) ∧ ∀ msg, s.cpu ≠ .panicked msg := by
  have h0 := @Run.nil _ _ StepInRange (System.boot ⟨[], 0⟩ Cont.user)
  have h1 := h0.snoc ⟨.sched (.pass rfl (by decide) (by decide)), trivial⟩
  have h2 := h1.snoc ⟨.sched (.run rfl (by decide) (by decide)), trivial⟩
  have h3 := h2.snoc ⟨@Step.fork _ _ _ ⟨[], 0⟩ _ ⟨rfl, rfl⟩ rfl, trivial⟩
  have h4 := h3.snoc ⟨Step.tick rfl, trivial⟩
  have h5 := h4.snoc ⟨.sched (.keep rfl (by decide)), trivial⟩
  have h6 := h5.snoc ⟨.sched (.run rfl (by decide) (by decide)), trivial⟩
  have h7 := h6.snoc ⟨@Step.exit _ _ 7 ⟨rfl, rfl⟩, trivial⟩
  have h8 := h7.snoc ⟨.sched (.destroyVmem rfl (by decide)), trivial⟩
  have h9 := h8.snoc ⟨.sched (.destroyKstack rfl), trivial⟩
  obtain ⟨-, -, hlife, -, hsafe⟩ := life_cycle h9
  exact ⟨_, h9, hlife 2, hsafe⟩

end HeavenOS
