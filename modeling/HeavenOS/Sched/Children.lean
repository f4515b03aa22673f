/-
# Parents and children

`sys_wait` finds the children of a task by comparing pids. A pid is the index of an entry
and is used again after its task was reaped, so a pid alone does not say which task is
meant. Here every task that ever lived has a number of its own, given in the order of the
forks, and who forked whom is read off the actions of a run.
-/

import HeavenOS.Sched.LifeCycle

namespace HeavenOS

open Lib

/-! ## The family -/

/-- Who forked whom. The tasks are numbered from `1` on; `0` stands for no task. -/
structure Family where
  /-- The number of tasks so far. -/
  count : ℕ
  /-- The task that has, or had last, the entry. -/
  holder : ℕ → ℕ
  parent : ℕ → ℕ
  /-- The exit code of a task that has exited. -/
  code : ℕ → Option (BitVec 32)
  reaped : ℕ → Bool

namespace Family

/-- The first task is alone. -/
def first : Family :=
  ⟨1, fun i => if i = 1 then 1 else 0, fun _ => 0, fun _ => none, fun _ => false⟩

def next (f : Family) : Action → Family
  | .fork p c =>
      { f with
        count := f.count + 1
        holder := Function.update f.holder c (f.count + 1)
        parent := Function.update f.parent (f.count + 1) (f.holder p) }
  | .exit p code => { f with code := Function.update f.code (f.holder p) (some (code.truncate 32)) }
  | .reaped _ c _ => { f with reaped := Function.update f.reaped (f.holder c) true }
  | _ => f

/-- Entry `c` holds a task that the task in entry `p` forked and has not reaped. -/
def IsChild (f : Family) (p c : ℕ) : Prop :=
  f.holder c ≠ 0 ∧ f.parent (f.holder c) = f.holder p ∧ f.reaped (f.holder c) = false

end Family

/-- The family after some actions. -/
def family (labels : List Action) : Family := labels.foldl Family.next Family.first

/-- The entries of the table that a call of `sys_wait` by `p` for `c` reads or writes. -/
def sysWaitEntries (p c : ℕ) : List ℕ := [c, p]

section Entries

variable {tasks tasks' : TaskTable} {p c : ℕ} (hsame : ∀ i ∈ sysWaitEntries p c, tasks' i = tasks i)

include hsame

/-- `sys_wait` looks at no other entries when it begins, and leaves the others as they are. -/
theorem sysWait_local :
    (∀ res, sysWait tasks' p c = .refused res ↔ sysWait tasks p c = .refused res) ∧
      (sysWait tasks' p c = .ready ↔ sysWait tasks p c = .ready) ∧
      ∀ after', sysWait tasks' p c = .blocked after' → ∃ after, sysWait tasks p c = .blocked after ∧
        (∀ i ∈ sysWaitEntries p c, after' i = after i) ∧ ∀ i ∉ sysWaitEntries p c, after' i = tasks' i := by
  have hc := hsame c List.mem_cons_self
  have hp := hsame p (List.mem_cons_of_mem _ List.mem_cons_self)
  unfold sysWait
  rw [hc, hp]
  split_ifs with hchild hzombie
  · exact ⟨fun _ => Iff.rfl, Iff.rfl, nofun⟩
  · refine ⟨fun _ => by simp, by simp, fun after' hafter => ⟨_, rfl, fun i hi => ?_, fun i hi => ?_⟩⟩
    all_goals
      obtain rfl := WaitStart.blocked.inj hafter
    · rw [TaskTable.modify_apply, TaskTable.modify_apply, hsame i hi]
    · exact TaskTable.modify_of_ne _ _ fun heq => hi (heq ▸ List.mem_cons_of_mem _ List.mem_cons_self)
  · exact ⟨fun _ => Iff.rfl, Iff.rfl, nofun⟩

/-- So does its end. -/
theorem sysWaitFinish_local (status : ℕ) :
    (sysWaitFinish tasks' p c status).1 = (sysWaitFinish tasks p c status).1 ∧
      (sysWaitFinish tasks' p c status).2.1 = (sysWaitFinish tasks p c status).2.1 ∧
      (∀ i ∈ sysWaitEntries p c, (sysWaitFinish tasks' p c status).2.2 i = (sysWaitFinish tasks p c status).2.2 i) ∧
      ∀ i ∉ sysWaitEntries p c, (sysWaitFinish tasks' p c status).2.2 i = tasks' i := by
  have hc := hsame c List.mem_cons_self
  have hp := hsame p (List.mem_cons_of_mem _ List.mem_cons_self)
  unfold sysWaitFinish
  rw [hc, hp]
  split_ifs
  · exact ⟨rfl, rfl, hsame, fun _ _ => rfl⟩
  all_goals
    refine ⟨rfl, rfl, fun i hi => ?_, fun i hi => ?_⟩
    · simp only [TaskTable.modify_apply, hsame i hi]
    · have hne : i ≠ c := fun heq => hi (heq ▸ List.mem_cons_self)
      simp only [TaskTable.modify_of_ne _ _ hne]

end Entries

/-- A call of `sys_wait` serves the children of its caller: it refuses who is not a child,
accepts who is one, delivers the exit code of the child, and stays inside the table. -/
def Family.Serves (f : Family) : Action → Prop
  | .refused p c => (∀ i ∈ sysWaitEntries p c, i < maxTaskCount) ∧ ¬f.IsChild p c
  | .blocked p c => (∀ i ∈ sysWaitEntries p c, i < maxTaskCount) ∧ f.IsChild p c
  | .invalid p c => (∀ i ∈ sysWaitEntries p c, i < maxTaskCount) ∧ f.IsChild p c
  | .reaped p c status =>
      (∀ i ∈ sysWaitEntries p c, i < maxTaskCount) ∧ f.IsChild p c ∧
        ∃ code, f.code (f.holder c) = some code ∧ ∀ d, status = some d → d = code
  | _ => True

/-- The caller and the argument of a call of `sys_wait`. -/
def Action.waitsFor : Action → Option (ℕ × ℕ)
  | .refused p c | .blocked p c | .invalid p c | .reaped p c _ => some (p, c)
  | _ => none

/-! ## The invariant -/

/-- The table and the family agree. -/
structure FamilyInv (tasks : TaskTable) (f : Family) : Prop where
  bound : ∀ i, f.holder i ≤ f.count
  inj : ∀ {i j}, f.holder i = f.holder j → f.holder i ≠ 0 → i = j
  alloc : ∀ i, (tasks i).state ≠ .notAllocated ↔ f.holder i ≠ 0 ∧ f.reaped (f.holder i) = false
  /-- A task is younger than its parent. -/
  younger : ∀ i, (tasks i).state ≠ .notAllocated → f.parent (f.holder i) < f.holder i
  ppid : ∀ {i j}, (tasks i).state ≠ .notAllocated → (tasks j).state ≠ .notAllocated →
    f.parent (f.holder j) = f.holder i → (tasks j).ppid = i
  /-- The pid of the parent means the parent unless the parent's entry was used again. -/
  parent : ∀ {i j}, (tasks i).state ≠ .notAllocated → (tasks j).state ≠ .notAllocated →
    (tasks j).ppid = i → f.holder i < f.holder j → f.parent (f.holder j) = f.holder i
  code : ∀ i, (tasks i).state = .zombie → f.code (f.holder i) = some (tasks i).exitcode
  /-- A number that is not given yet is not reaped. -/
  fresh : ∀ n, f.count < n → f.reaped n = false

theorem FamilyInv.boot (vm : Vmem) : FamilyInv (System.boot vm Cont.user).tasks Family.first := by
  have htask (i : ℕ) : ((System.boot vm Cont.user).tasks i).state = if i = 1 then .runnable else .notAllocated := by
    simp only [System.boot, Function.update_apply]
    split_ifs <;> rfl
  have hone {i : ℕ} (hi : ((System.boot vm Cont.user).tasks i).state ≠ .notAllocated) : i = 1 := by
    rw [htask] at hi
    split_ifs at hi with h
    · exact h
    · exact absurd rfl hi
  refine ⟨fun i => ?_, fun {i j} heq hne => ?_, fun i => ?_, fun i hi => ?_, fun hi hj heq => ?_,
    fun hi hj _ hlt => ?_, fun i hi => ?_, fun _ _ => rfl⟩
  · simp only [Family.first]
    split_ifs <;> simp
  · simp only [Family.first] at heq hne
    split_ifs at heq hne <;> simp_all
  · rw [htask]
    simp only [Family.first]
    split_ifs <;> simp
  · rw [hone hi]
    simp [Family.first]
  · rw [hone hi, hone hj] at heq
    simp [Family.first] at heq
  · rw [hone hi, hone hj] at hlt
    exact absurd hlt (lt_irrefl _)
  · rw [htask] at hi
    split_ifs at hi

section Steps

variable {tasks tasks' : TaskTable} {f : Family} (h : FamilyInv tasks f)

include h

/-- The family is not about anything else in the table. -/
theorem FamilyInv.congr
    (halloc : ∀ i, (tasks' i).state ≠ .notAllocated ↔ (tasks i).state ≠ .notAllocated)
    (hppid : ∀ i, (tasks' i).ppid = (tasks i).ppid)
    (hzombie : ∀ i, (tasks' i).state = .zombie → (tasks i).state = .zombie ∧ (tasks' i).exitcode = (tasks i).exitcode) :
    FamilyInv tasks' f where
  bound := h.bound
  inj := h.inj
  alloc i := (halloc i).trans (h.alloc i)
  younger i hi := h.younger i ((halloc i).mp hi)
  ppid hi hj heq := (hppid _).trans (h.ppid ((halloc _).mp hi) ((halloc _).mp hj) heq)
  parent hi hj heq := h.parent ((halloc _).mp hi) ((halloc _).mp hj) ((hppid _).symm.trans heq)
  code i hi := by
    obtain ⟨hz, hcode⟩ := hzombie i hi
    rw [hcode]
    exact h.code i hz
  fresh := h.fresh

theorem FamilyInv.fork {p c : ℕ} {t : Task} (hp : (tasks p).state ≠ .notAllocated)
    (hppid : t.ppid = p) (hstate : t.state = .runnable) :
    FamilyInv (tasks.modify c fun _ => t) (f.next (.fork p c)) := by
  have hold {i : ℕ} (hi : i ≠ c) : (f.next (.fork p c)).holder i = f.holder i := Function.update_of_ne hi _ _
  have hnew : (f.next (.fork p c)).holder c = f.count + 1 := Function.update_self _ _ _
  have hparent {i : ℕ} : (f.next (.fork p c)).parent (f.holder i) = f.parent (f.holder i) := by
    have := h.bound i
    exact Function.update_of_ne (by omega) _ _
  have hparentNew : (f.next (.fork p c)).parent (f.count + 1) = f.holder p := Function.update_self _ _ _
  have hreaped : (f.next (.fork p c)).reaped = f.reaped := rfl
  have hcount : (f.next (.fork p c)).count = f.count + 1 := rfl
  have hcode : (f.next (.fork p c)).code = f.code := rfl
  generalize f.next (.fork p c) = g at *
  have htask {i : ℕ} (hi : i ≠ c) : (tasks.modify c fun _ => t) i = tasks i := TaskTable.modify_of_ne _ _ hi
  have hself : (tasks.modify c fun _ => t) c = t := TaskTable.modify_self _ _ _
  generalize (tasks.modify c fun _ => t) = tasks' at *
  refine ⟨fun i => ?_, fun {i j} heq hne => ?_, fun i => ?_, fun i hi => ?_, fun {i j} hi hj heq => ?_,
    fun {i j} hi hj heq hlt => ?_, fun i hi => ?_, fun n hn => ?_⟩
  · rw [hcount]
    by_cases hic : i = c
    · rw [hic, hnew]
    · rw [hold hic]
      exact (h.bound i).trans (Nat.le_succ _)
  · by_cases hic : i = c <;> by_cases hjc : j = c
    · rw [hic, hjc]
    · rw [hic, hnew, hold hjc] at heq
      have := h.bound j
      omega
    · rw [hjc, hnew, hold hic] at heq
      have := h.bound i
      omega
    · rw [hold hic, hold hjc] at heq
      rw [hold hic] at hne
      exact h.inj heq hne
  · by_cases hic : i = c
    · rw [hic, hself, hstate, hnew, hreaped, h.fresh _ (Nat.lt_succ_self _)]
      simp
    · rw [htask hic, hold hic, hreaped]
      exact h.alloc i
  · by_cases hic : i = c
    · rw [hic, hnew, hparentNew]
      exact Nat.lt_succ_of_le (h.bound p)
    · rw [hold hic, hparent]
      rw [htask hic] at hi
      exact h.younger i hi
  · by_cases hic : i = c <;> by_cases hjc : j = c
    · rw [hic, hjc, hnew, hparentNew] at heq
      have := h.bound p
      omega
    · rw [hic, hnew, hold hjc, hparent] at heq
      rw [htask hjc] at hj
      have := h.younger j hj
      have := h.bound j
      omega
    · rw [hjc, hnew, hparentNew, hold hic] at heq
      rw [hjc, hself, hppid]
      exact h.inj heq ((h.alloc p).mp hp).1
    · rw [hold hic, hold hjc, hparent] at heq
      rw [htask hic] at hi
      rw [htask hjc] at hj ⊢
      exact h.ppid hi hj heq
  · by_cases hic : i = c <;> by_cases hjc : j = c
    · rw [hic, hjc] at hlt
      exact absurd hlt (lt_irrefl _)
    · rw [hic, hnew, hold hjc] at hlt
      have := h.bound j
      omega
    · rw [hjc, hself, hppid] at heq
      rw [hjc, hnew, hparentNew, hold hic, heq]
    · rw [hold hic, hold hjc] at hlt
      rw [htask hic] at hi
      rw [htask hjc] at hj heq
      rw [hold hic, hold hjc, hparent]
      exact h.parent hi hj heq hlt
  · by_cases hic : i = c
    · rw [hic, hself, hstate] at hi
      cases hi
    · rw [htask hic] at hi ⊢
      rw [hcode, hold hic]
      exact h.code i hi
  · rw [hreaped]
    exact h.fresh n (by omega)

theorem FamilyInv.exit {p : ℕ} {code : BitVec 64} (hp : (tasks p).state ≠ .notAllocated) :
    FamilyInv (sysExit tasks p code) (f.next (.exit p code)) := by
  have happly (i : ℕ) := @sysExit_apply tasks p i code
  have halloc (i : ℕ) : (sysExit tasks p code i).state ≠ .notAllocated ↔ (tasks i).state ≠ .notAllocated := by
    rw [happly]
    split_ifs with hip hwake
    · rw [hip]
      exact ⟨fun _ => hp, fun _ => by simp⟩
    · rw [hwake.2.1]
      simp
    · exact Iff.rfl
  have hppid (i : ℕ) : (sysExit tasks p code i).ppid = (tasks i).ppid := by
    rw [happly]
    split_ifs with hip
    · rw [hip]
    · rfl
    · rfl
  refine ⟨h.bound, h.inj, fun i => (halloc i).trans (h.alloc i), fun i hi => h.younger i ((halloc i).mp hi),
    fun hi hj heq => (hppid _).trans (h.ppid ((halloc _).mp hi) ((halloc _).mp hj) heq),
    fun hi hj heq => h.parent ((halloc _).mp hi) ((halloc _).mp hj) ((hppid _).symm.trans heq), fun i hi => ?_,
    h.fresh⟩
  show Function.update f.code (f.holder p) (some (code.truncate 32)) (f.holder i) = _
  rw [happly] at hi ⊢
  by_cases hip : i = p
  · rw [hip, if_pos rfl, Function.update_self]
  · have hz : (tasks i).state = .zombie := by
      rw [if_neg hip] at hi
      split_ifs at hi
      exact hi
    have hne : f.holder i ≠ f.holder p := fun heq =>
      hip (h.inj heq ((h.alloc i).mp (by rw [hz]; simp)).1)
    rw [if_neg hip, if_neg (by rw [hz]; simp), Function.update_of_ne hne]
    exact h.code i hz

theorem FamilyInv.reaped {p c : ℕ} {status : Option (BitVec 32)} (hc : (tasks c).state ≠ .notAllocated) :
    FamilyInv (tasks.modify c fun t => { t with state := .notAllocated }) (f.next (.reaped p c status)) := by
  have hheld := ((h.alloc c).mp hc).1
  have happly (i : ℕ) := TaskTable.modify_apply tasks (fun t => { t with state := .notAllocated }) c i
  have halloc {i : ℕ} (hi : ((tasks.modify c fun t => { t with state := .notAllocated }) i).state ≠ .notAllocated) :
      i ≠ c ∧ (tasks i).state ≠ .notAllocated := by
    rw [happly] at hi
    split_ifs at hi with hic
    · exact absurd rfl hi
    · exact ⟨hic, hi⟩
  have hppid (i : ℕ) : ((tasks.modify c fun t => { t with state := .notAllocated }) i).ppid = (tasks i).ppid := by
    rw [happly]
    split_ifs <;> rfl
  refine ⟨h.bound, h.inj, fun i => ?_, fun i hi => h.younger i (halloc hi).2,
    fun hi hj heq => (hppid _).trans (h.ppid (halloc hi).2 (halloc hj).2 heq),
    fun hi hj heq => h.parent (halloc hi).2 (halloc hj).2 ((hppid _).symm.trans heq), fun i hi => ?_,
    fun n hn => ?_⟩
  · show _ ↔ f.holder i ≠ 0 ∧ Function.update f.reaped (f.holder c) true (f.holder i) = false
    by_cases hic : i = c
    · rw [hic, happly, if_pos rfl, Function.update_self]
      simp
    · by_cases hzero : f.holder i = 0
      · have := h.alloc i
        rw [happly, if_neg hic, this, hzero]
        simp
      · have hne : f.holder i ≠ f.holder c := fun heq => hic (h.inj heq hzero)
        rw [happly, if_neg hic, Function.update_of_ne hne]
        exact h.alloc i
  · rw [happly] at hi ⊢
    split_ifs at hi ⊢
    exact h.code i hi
  · have := h.bound c
    have hn : f.count < n := hn
    have hne : n ≠ f.holder c := by omega
    show Function.update f.reaped (f.holder c) true n = false
    rw [Function.update_of_ne hne]
    exact h.fresh n hn

end Steps

/-- Every step keeps the table and the family in agreement. -/
theorem FamilyInv.step {s t : System Cont} {a : Action} {f : Family} (h : FamilyInv s.tasks f) (hinv : TaskInv s)
    (hstep : Step s a t) : FamilyInv t.tasks (f.next a) := by
  have heffect := hstep.effect hinv
  have hcpu {p : ℕ} (hp : s.cpu = .task p) : (s.tasks p).state = .runnable := (hinv.onCpu hp).2.2
  -- an action that changes one entry, and neither takes it nor gives it free
  have hmodify (i : ℕ) (g : Task → Task) (hstate : (s.tasks i).state ≠ .notAllocated)
      (hg : (g (s.tasks i)).state ≠ .notAllocated ∧ (g (s.tasks i)).ppid = (s.tasks i).ppid ∧
        (g (s.tasks i)).exitcode = (s.tasks i).exitcode ∧
        ((g (s.tasks i)).state = .zombie → (s.tasks i).state = .zombie)) :
      FamilyInv (s.tasks.modify i g) f := by
    refine h.congr (fun j => ?_) (fun j => ?_) fun j hj => ?_
    · by_cases hji : j = i
      · subst hji
        rw [TaskTable.modify_self]
        exact ⟨fun _ => hstate, fun _ => hg.1⟩
      · rw [TaskTable.modify_of_ne _ _ hji]
    · by_cases hji : j = i
      · subst hji
        rw [TaskTable.modify_self]
        exact hg.2.1
      · rw [TaskTable.modify_of_ne _ _ hji]
    · by_cases hji : j = i
      · subst hji
        rw [TaskTable.modify_self] at hj ⊢
        exact ⟨hg.2.2.2 hj, hg.2.2.1⟩
      · rw [TaskTable.modify_of_ne _ _ hji] at hj ⊢
        exact ⟨hj, rfl⟩
  cases a with
  | run i time =>
      obtain ⟨-, hold, htasks⟩ := heffect
      rw [htasks]
      refine hmodify i _ ?_ ⟨by simp, rfl, rfl, by simp⟩
      rcases hold with hr | ⟨hs, -⟩
      · simp [hr]
      · simp [hs]
  | destroyVmem i =>
      obtain ⟨hz, htasks⟩ := heffect
      rw [htasks]
      exact hmodify i _ (by simp [hz]) ⟨by simp [hz], rfl, rfl, fun _ => hz⟩
  | destroyKstack i =>
      obtain ⟨hz, htasks⟩ := heffect
      rw [htasks]
      exact hmodify i _ (by simp [hz]) ⟨by simp [hz], rfl, rfl, fun _ => hz⟩
  | sleep p time ms =>
      obtain ⟨huser, -, htasks⟩ := heffect
      rw [htasks]
      exact hmodify p _ (by simp [hcpu huser.1]) ⟨by simp, rfl, rfl, by simp⟩
  | fork p c =>
      obtain ⟨huser, -, -, -, -, vm, htasks⟩ := heffect
      rw [htasks]
      exact h.fork (t := { s.tasks c with
        pid := c, vmem := vm, vmemLive := true, kstackLive := true, ppid := p, state := .runnable })
        (by simp [hcpu huser.1]) rfl rfl
  | exit p code =>
      obtain ⟨huser, htasks⟩ := heffect
      rw [htasks]
      exact h.exit (by simp [hcpu huser.1])
  | blocked p c =>
      obtain ⟨huser, -, -, htasks⟩ := heffect
      rw [htasks]
      exact hmodify p _ (by simp [hcpu huser.1]) ⟨by simp, rfl, rfl, by simp⟩
  | reaped p c status =>
      obtain ⟨-, -, hz, -, htasks⟩ := heffect
      rw [htasks]
      exact h.reaped (by simp [hz])
  | refused p c =>
      rw [heffect.2.2]
      exact h
  | invalid p c =>
      rw [heffect.2.2.2]
      exact h
  | tick | pass | passEnd | keep | getpid | slept | panic =>
      rw [show t.tasks = s.tasks from heffect]
      exact h

/-! ## Runs -/

theorem run_familyInv {vm : Vmem} {labels : List Action} {s : System Cont}
    (hrun : Run StepInRange (System.boot vm .user) labels s) : FamilyInv s.tasks (family labels) := by
  induction hrun with
  | nil => exact FamilyInv.boot vm
  | @snoc labels s t a hprev hlast ih =>
      rw [family, List.foldl_append]
      exact ih.step (run_taskInv hprev) hlast.1

/-- The pid of the parent in entry `c` means the caller, if it is the pid of the caller at
all: the entry is in use, and was filled after the entry of the caller. -/
def PidsMean (tasks : TaskTable) (f : Family) (p c : ℕ) : Prop :=
  c < maxTaskCount ∧
    ((tasks c).ppid = (tasks p).pid → (tasks c).state ≠ .notAllocated ∧ f.holder p < f.holder c)

/-- A child is found by the pid of its parent, and is younger than the parent. -/
theorem FamilyInv.isChild_iff {tasks : TaskTable} {f : Family} (h : FamilyInv tasks f) {p c : ℕ}
    (hp : (tasks p).state ≠ .notAllocated) :
    f.IsChild p c ↔ (tasks c).ppid = p ∧ (tasks c).state ≠ .notAllocated ∧ f.holder p < f.holder c := by
  constructor
  · rintro ⟨hheld, hparent, hreaped⟩
    have hc := (h.alloc c).mpr ⟨hheld, hreaped⟩
    exact ⟨h.ppid hp hc hparent, hc, hparent ▸ h.younger c hc⟩
  · rintro ⟨hppid, hc, hlt⟩
    obtain ⟨hheld, hreaped⟩ := (h.alloc c).mp hc
    exact ⟨hheld, h.parent hp hc hppid hlt, hreaped⟩

/-- In every run, a call of `sys_wait` serves the children of its caller exactly if pids mean
what they say: the argument is an index of the table, and if the parent noted there has the
pid of the caller then the entry is in use and was filled after the entry of the caller. -/
theorem wait_serves_iff {vm : Vmem} {labels : List Action} {s t : System Cont} {a : Action} {p c : ℕ}
    (hrun : Run StepInRange (System.boot vm .user) labels s) (hstep : Step s a t) (ha : a.waitsFor = some (p, c)) :
    (family labels).Serves a ↔ PidsMean s.tasks (family labels) p c := by
  have hinv := run_taskInv hrun
  have hfam := run_familyInv hrun
  have heffect := hstep.effect hinv
  have hfacts {q : ℕ} (hcpu : s.cpu = .task q) :
      (s.tasks q).state ≠ .notAllocated ∧ (s.tasks q).pid = q ∧ q < maxTaskCount := by
    have hq : (s.tasks q).state ≠ .notAllocated := by simp [(hinv.onCpu hcpu).2.2]
    exact ⟨hq, hinv.pid_of_cpu hcpu, (hinv.pid q hq).2.1⟩
  have hentries (hp : p < maxTaskCount) : (∀ i ∈ sysWaitEntries p c, i < maxTaskCount) ↔ c < maxTaskCount := by
    simp [sysWaitEntries, hp]
  cases a with
  | refused q d =>
      obtain ⟨rfl, rfl⟩ := Prod.mk.inj (Option.some.inj ha)
      obtain ⟨huser, hppid, -⟩ := heffect
      obtain ⟨hp, hpid, hlt⟩ := hfacts huser.1
      rw [Family.Serves, hentries hlt, PidsMean, hfam.isChild_iff hp, hpid]
      exact and_congr_right fun _ => ⟨fun _ heq => absurd heq hppid, fun _ hchild => hppid hchild.1⟩
  | blocked q d =>
      obtain ⟨rfl, rfl⟩ := Prod.mk.inj (Option.some.inj ha)
      obtain ⟨huser, hppid, -, -⟩ := heffect
      obtain ⟨hp, hpid, hlt⟩ := hfacts huser.1
      rw [Family.Serves, hentries hlt, PidsMean, hfam.isChild_iff hp, hpid]
      exact and_congr_right fun _ => ⟨fun hchild _ => hchild.2, fun hmean => ⟨hppid, hmean hppid⟩⟩
  | invalid q d =>
      obtain ⟨rfl, rfl⟩ := Prod.mk.inj (Option.some.inj ha)
      obtain ⟨hcpu, hppid, -, -⟩ := heffect
      obtain ⟨hp, hpid, hlt⟩ := hfacts hcpu
      rw [Family.Serves, hentries hlt, PidsMean, hfam.isChild_iff hp, hpid]
      exact and_congr_right fun _ => ⟨fun hchild _ => hchild.2, fun hmean => ⟨hppid, hmean hppid⟩⟩
  | reaped q d status =>
      obtain ⟨rfl, rfl⟩ := Prod.mk.inj (Option.some.inj ha)
      obtain ⟨hcpu, hppid, hz, hstatus, -⟩ := heffect
      obtain ⟨hp, hpid, hlt⟩ := hfacts hcpu
      rw [Family.Serves, hentries hlt, PidsMean, hfam.isChild_iff hp, hpid]
      refine and_congr_right fun _ => ⟨fun hchild _ => hchild.1.2, fun hmean => ⟨⟨hppid, hmean hppid⟩, ?_⟩⟩
      exact ⟨_, hfam.code _ hz, hstatus⟩
  | _ => cases ha

/-- The first task waits for the child that it has just forked. -/
theorem wait_serves_iff_child :
    ∃ labels s t, Run StepInRange (System.boot ⟨[], 0⟩ Cont.user) labels s ∧ Step s (.blocked 1 2) t ∧
      (family labels).Serves (.blocked 1 2) := by
  have h0 := @Run.nil _ _ StepInRange (System.boot ⟨[], 0⟩ Cont.user)
  have h1 := h0.snoc ⟨.sched (.pass rfl (by decide) (by decide)), trivial⟩
  have h2 := h1.snoc ⟨.sched (.run rfl (by decide) (by decide)), trivial⟩
  have h3 := h2.snoc ⟨@Step.fork _ _ _ ⟨[], 0⟩ _ ⟨rfl, rfl⟩ rfl, trivial⟩
  refine ⟨_, _, _, h3, @Step.blocked _ 1 2 0 _ ⟨rfl, rfl⟩ (by decide) rfl, ?_⟩
  refine (wait_serves_iff h3 (@Step.blocked _ 1 2 0 _ ⟨rfl, rfl⟩ (by decide) rfl) rfl).mpr ?_
  exact ⟨by decide, fun _ => by decide⟩

/-- The scheduler passes over the entries that are not in use. -/
theorem run_passes {labels : List Action} {s0 s : System Cont} {i : ℕ} {found : Bool}
    (hrun : Run StepInRange s0 labels s) (hcpu : s.cpu = .examine i found) (hi : i ≤ maxTaskCount)
    (hfree : ∀ j, i ≤ j → (s.tasks j).state = .notAllocated) :
    ∃ labels', Run StepInRange s0 labels' { s with cpu := .examine maxTaskCount found } := by
  have hsteps (n : ℕ) (hn : i + n ≤ maxTaskCount) :
      ∃ labels', Run StepInRange s0 labels' { s with cpu := .examine (i + n) found } := by
    induction n with
    | zero =>
        refine ⟨labels, ?_⟩
        rw [Nat.add_zero, ← hcpu]
        exact hrun
    | succ n ih =>
        obtain ⟨labels', hrun'⟩ := ih (by omega)
        have hsame : wakeSleeping s.tasks s.timer (i + n) = s.tasks := by
          rw [wakeSleeping, if_neg (by simp [hfree (i + n) (by omega)])]
        have hstep := @SchedStep.pass _ { s with cpu := .examine (i + n) found } (i + n) found rfl (by omega)
          (by simp [hsame, hfree (i + n) (by omega)])
        simp only [hsame] at hstep
        exact ⟨_, hrun'.snoc ⟨.sched hstep, trivial⟩⟩
  obtain ⟨labels', hrun'⟩ := hsteps (maxTaskCount - i) (by omega)
  rw [Nat.add_sub_cancel' hi] at hrun'
  exact ⟨labels', hrun'⟩

/-- A child that has been reaped is waited for once more: its entry is free, but still names
the parent, and the parent blocks. -/
theorem wait_for_reaped_blocks :
    ∃ labels s t, Run StepInRange (System.boot ⟨[], 0⟩ Cont.user) labels s ∧ Step s (.blocked 1 2) t ∧
      ¬(family labels).Serves (.blocked 1 2) := by
  have h0 := @Run.nil _ _ StepInRange (System.boot ⟨[], 0⟩ Cont.user)
  have h1 := h0.snoc ⟨.sched (.pass rfl (by decide) (by decide)), trivial⟩
  have h2 := h1.snoc ⟨.sched (.run rfl (by decide) (by decide)), trivial⟩
  have h3 := h2.snoc ⟨@Step.fork _ _ _ ⟨[], 0⟩ _ ⟨rfl, rfl⟩ rfl, trivial⟩
  have h4 := h3.snoc ⟨Step.tick rfl, trivial⟩
  have h5 := h4.snoc ⟨.sched (.keep rfl (by decide)), trivial⟩
  have h6 := h5.snoc ⟨.sched (.run rfl (by decide) (by decide)), trivial⟩
  have h7 := h6.snoc ⟨@Step.exit _ _ 7 ⟨rfl, rfl⟩, trivial⟩
  have h8 := h7.snoc ⟨.sched (.destroyVmem rfl (by decide)), trivial⟩
  have h9 := h8.snoc ⟨.sched (.destroyKstack rfl), trivial⟩
  have hfam := run_familyInv h9
  obtain ⟨labels, h10⟩ := run_passes (i := 3) h9 rfl (by decide) fun j hj => by
    by_contra hne
    refine ((hfam.alloc j).mp hne).1 ?_
    show Function.update (fun i => if i = 1 then 1 else 0) 2 2 j = 0
    rw [Function.update_of_ne (by omega), if_neg (by omega)]
  have h11 := h10.snoc ⟨.sched (.passEnd rfl), trivial⟩
  have h12 := h11.snoc ⟨.sched (@SchedStep.pass _ _ 0 false rfl (by decide) (by decide)), trivial⟩
  have h13 := h12.snoc ⟨.sched (@SchedStep.run _ _ 1 false rfl (by decide) (by decide)), trivial⟩
  have h14 := h13.snoc ⟨@Step.ready _ 1 2 0 ⟨rfl, rfl⟩ (by decide) rfl, show 2 < maxTaskCount by decide⟩
  refine ⟨_, _, _, h14, @Step.blocked _ 1 2 0 _ ⟨rfl, rfl⟩ (by decide) rfl, fun hserves => ?_⟩
  exact (((run_familyInv h14).isChild_iff (by decide)).mp hserves.2).2.1 rfl

end HeavenOS
