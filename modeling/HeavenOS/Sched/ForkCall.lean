/-
# Fork without resources

One call of `sys_fork` from its start to its return, with the address space, the kernel
stack and the task table that it works on. The call fails where the table is full or where
one of its allocations does, and it does not undo what it has done before.
-/

import HeavenOS.Arch.Thread
import HeavenOS.Mm.VmemClone
import HeavenOS.Sched.Task

namespace HeavenOS

open Lib

/-! ## The call -/

/-- The state that `sys_fork` works on. -/
structure ForkState where
  kernel : Kernel
  tasks : TaskTable
  /-- `tasks[i].arch_thread` -/
  threads : ℕ → ArchThread

/-- How a call ends. -/
inductive ForkEnd
  | returned (res : Int) (s : ForkState)
  | panicked (msg : Panic)
  /-- A store to a member of a structure at `NULL`. -/
  | nullStore

/-- `sys_fork`, called by task `p`. -/
def forkCall (popAndIret : BitVec 64) (p : ℕ) (s : ForkState) : ForkEnd :=
  match schedAllocateTask s.tasks with
  -- `vmem_init` begins with an assignment to `child->vmem.pml4`
  | none => .nullStore
  | some (child, tasks) =>
      match vmemClone (tasks p).vmem s.kernel with
      | .error msg => .panicked msg
      | .ok (res, vm, k) =>
          let tasks := tasks.modify child fun t => { t with vmem := vm }
          if res < 0 then .returned res ⟨k, tasks, s.threads⟩
          else
            let (res, th, childRegs, k) := archThreadCloneCurrent (s.threads p) (s.threads child) popAndIret k
            let threads := Function.update s.threads child th
            if res < 0 then .returned res ⟨k, tasks, threads⟩
            else
              let tasks := tasks.modify child fun t =>
                { t with ppid := (tasks p).pid, state := .runnable, vmemLive := true, kstackLive := true }
              let k := { k with mem := k.mem.storeWord (childRegs + 8 * Reg.rax.slot) 0 }
              .returned (tasks child).pid ⟨k, tasks, threads⟩

/-! ## Free entries -/

/-- A loop that looks for an entry may find this one. -/
def FreeEntry (tasks : TaskTable) (i : ℕ) : Prop := 1 ≤ i ∧ i < maxTaskCount ∧ (tasks i).state = .notAllocated

/-- The entries whose state the loop of `sched_allocate_task` reads, with `left` entries to go
from `currPid`: the bound is tested behind the state. -/
def scanReads (tasks : TaskTable) : (left currPid : ℕ) → List ℕ
  | 0, currPid => [currPid]
  | left + 1, currPid =>
      currPid :: if (tasks currPid).state ≠ .notAllocated then scanReads tasks left (currPid + 1) else []

/-- No entry before the one found is free. -/
theorem scanTasks_least (tasks : TaskTable) (left currPid : ℕ) {i : ℕ} (hlo : currPid ≤ i)
    (hi : i < scanTasks tasks left currPid) : (tasks i).state ≠ .notAllocated := by
  induction left generalizing currPid with
  | zero => exact absurd (show i < currPid from hi) (by omega)
  | succ left ih =>
      rw [scanTasks] at hi
      split_ifs at hi with hstate
      · rcases Nat.eq_or_lt_of_le hlo with rfl | hlt
        · exact hstate
        · exact ih (currPid + 1) hlt hi
      · omega

/-- The entries read are those up to the one found. -/
theorem mem_scanReads (tasks : TaskTable) (left currPid i : ℕ) :
    i ∈ scanReads tasks left currPid ↔ currPid ≤ i ∧ i ≤ scanTasks tasks left currPid := by
  induction left generalizing currPid with
  | zero =>
      rw [scanReads, scanTasks, List.mem_singleton]
      omega
  | succ left ih =>
      obtain ⟨hlo, -⟩ := scanTasks_spec tasks left (currPid + 1)
      rw [scanReads, scanTasks, List.mem_cons]
      split_ifs with hstate
      · rw [ih]
        omega
      · simp only [List.not_mem_nil, or_false]
        omega

/-- The search ends before the last bound exactly if there is something to find. -/
theorem scanTasks_lt_iff (tasks : TaskTable) :
    scanTasks tasks (maxTaskCount - 1) 1 < maxTaskCount ↔ ∃ i, FreeEntry tasks i := by
  obtain ⟨hlo, hhi, hfree⟩ := scanTasks_spec tasks (maxTaskCount - 1) 1
  have hmax : 1 + (maxTaskCount - 1) = maxTaskCount := by decide
  constructor
  · intro hlt
    exact ⟨_, hlo, hlt, hfree (by omega)⟩
  · rintro ⟨i, hone, hi, hstate⟩
    by_contra hge
    exact scanTasks_least tasks (maxTaskCount - 1) 1 hone (by omega) hstate

theorem schedAllocateTask_eq_none_iff (tasks : TaskTable) :
    schedAllocateTask tasks = none ↔ ¬∃ i, FreeEntry tasks i := by
  obtain ⟨-, hhi, -⟩ := scanTasks_spec tasks (maxTaskCount - 1) 1
  have hmax : 1 + (maxTaskCount - 1) = maxTaskCount := by decide
  rw [← scanTasks_lt_iff, schedAllocateTask]
  split_ifs with hfull
  · simp [hfull]
  · simp only [false_iff, not_not]
    omega

/-- What `sched_allocate_task` and its caller should do: the loop stays within the table, the
lowest free entry is returned with its `pid` set, `NULL` is returned if there is none, and then
`sys_fork` fails and changes nothing. -/
structure SlotsOk (s : ForkState) : Prop where
  reads : ∀ i ∈ scanReads s.tasks (maxTaskCount - 1) 1, 1 ≤ i ∧ i < maxTaskCount
  found : ∀ c tasks, schedAllocateTask s.tasks = some (c, tasks) →
    FreeEntry s.tasks c ∧ (∀ i, FreeEntry s.tasks i → c ≤ i) ∧ tasks = s.tasks.modify c fun t => { t with pid := c }
  full : schedAllocateTask s.tasks = none ↔ ∀ i, ¬FreeEntry s.tasks i
  refuses : schedAllocateTask s.tasks = none →
    ∀ popAndIret p, ∃ res, res < 0 ∧ forkCall popAndIret p s = .returned res s

/-- All of this is so exactly while there is a free entry. -/
theorem slots_ok_iff (s : ForkState) : SlotsOk s ↔ ∃ i, FreeEntry s.tasks i := by
  have hnone := schedAllocateTask_eq_none_iff s.tasks
  constructor
  · intro h
    by_contra hfull
    obtain ⟨res, -, hreturned⟩ := h.refuses (hnone.mpr hfull) 0 0
    rw [forkCall, hnone.mpr hfull] at hreturned
    cases hreturned
  · intro hfree
    have hlt := (scanTasks_lt_iff s.tasks).mpr hfree
    refine ⟨fun i hi => ?_, fun c tasks hfound => ?_, hnone.trans not_exists, fun h => absurd hfree (hnone.mp h)⟩
    · obtain ⟨hlo, hhi⟩ := (mem_scanReads s.tasks _ _ i).mp hi
      omega
    · obtain ⟨hlo, hhi, hstate, htasks⟩ := schedAllocateTask_spec hfound
      refine ⟨⟨hlo, hhi, hstate⟩, fun i hi => ?_, htasks⟩
      have hc : scanTasks s.tasks (maxTaskCount - 1) 1 = c := by
        unfold schedAllocateTask at hfound
        simp only at hfound
        split_ifs at hfound
        exact (Prod.mk.inj (Option.some.inj hfound)).1
      by_contra hlt
      exact scanTasks_least s.tasks (maxTaskCount - 1) 1 hi.1 (by omega) hi.2.2

/-- Every entry is in use. -/
def fullTable : TaskTable := fun _ => { Task.zero with state := .runnable }

theorem fullTable_full : ¬∃ i, FreeEntry fullTable i := by
  rintro ⟨i, -, -, hstate⟩
  cases hstate

/-- With a full table the loop reads the entry behind the table, and `sys_fork` writes to
`NULL`. -/
theorem full_table_overrun :
    ¬SlotsOk ⟨bootKernel, fullTable, fun _ => ⟨0, 0⟩⟩ ∧ maxTaskCount ∈ scanReads fullTable (maxTaskCount - 1) 1 ∧
      forkCall 0 1 ⟨bootKernel, fullTable, fun _ => ⟨0, 0⟩⟩ = .nullStore := by
  have hnone := (schedAllocateTask_eq_none_iff fullTable).mpr fullTable_full
  have hbehind : maxTaskCount ∈ scanReads fullTable (maxTaskCount - 1) 1 := by
    refine (mem_scanReads _ _ _ _).mpr ⟨by decide, not_lt.mp fun hlt => ?_⟩
    exact fullTable_full ((scanTasks_lt_iff fullTable).mp hlt)
  refine ⟨fun h => absurd (h.reads maxTaskCount hbehind).2 (lt_irrefl _), hbehind, ?_⟩
  rw [forkCall, hnone]

/-! ## What allocations use up -/

/-- Frames have been taken, and none given back. -/
structure Uses (k k' : Kernel) : Prop where
  frames : k'.frames <:+ k.frames
  freed : k'.freed ⊆ k.freed

namespace Uses

variable {k k' k'' : Kernel}

theorem refl (k : Kernel) : Uses k k := ⟨List.suffix_refl _, fun _ h => h⟩

theorem trans (h : Uses k k') (h' : Uses k' k'') : Uses k k'' := ⟨h'.frames.trans h.frames, fun _ hf => h.freed (h'.freed hf)⟩

/-- Writing to memory uses up nothing. -/
theorem mem (k : Kernel) (m : Mem) : Uses k { k with mem := m } := ⟨List.suffix_refl _, fun _ h => h⟩

theorem frameAlloc (k : Kernel) : Uses k (frameAlloc k).2 := by
  unfold HeavenOS.frameAlloc
  split
  · exact refl k
  · exact ⟨by simp_all, fun _ h => h⟩
  · exact ⟨by simp_all, fun _ hf => List.mem_of_mem_filter hf⟩

theorem objectAlloc (k : Kernel) : Uses k (objectAlloc k).2 := by
  unfold HeavenOS.objectAlloc
  split
  · exact refl k
  · exact ⟨List.suffix_refl _, fun _ h => h⟩

theorem ensureNextTable (k : Kernel) (tbl idx : ℕ) (flags : BitVec 64) : Uses k (vmemEnsureNextTable k tbl idx flags).2 := by
  unfold vmemEnsureNextTable
  simp only
  split_ifs
  · exact mem _ _
  · exact frameAlloc k
  · exact (frameAlloc k).trans (mem _ _)

section Mapping

variable {vm : Vmem} {virtAddr frame : ℕ} {flags : BitVec 64} {res : Int}

theorem mapPage (h : vmemMapPage vm virtAddr frame flags k = .ok (res, k')) : Uses k k' := by
  unfold vmemMapPage at h
  obtain ⟨-, -, h⟩ := bind_eq_ok.mp h
  obtain ⟨-, -, h⟩ := bind_eq_ok.mp h
  simp only at h
  have hpdpt := ensureNextTable k vm.pml4 (tableIndex 3 virtAddr) (vmemConvertFlags flags)
  generalize vmemEnsureNextTable k vm.pml4 (tableIndex 3 virtAddr) (vmemConvertFlags flags) = pdpt at h hpdpt
  have hpgdir := hpdpt.trans (ensureNextTable pdpt.2 pdpt.1 (tableIndex 2 virtAddr) (vmemConvertFlags flags))
  generalize vmemEnsureNextTable pdpt.2 pdpt.1 (tableIndex 2 virtAddr) (vmemConvertFlags flags) = pgdir at h hpgdir
  have hpgtbl := hpgdir.trans (ensureNextTable pgdir.2 pgdir.1 (tableIndex 1 virtAddr) (vmemConvertFlags flags))
  generalize vmemEnsureNextTable pgdir.2 pgdir.1 (tableIndex 1 virtAddr) (vmemConvertFlags flags) = pgtbl at h hpgtbl
  split_ifs at h
  · cases h
    exact hpdpt
  · cases h
    exact hpgdir
  · cases h
    exact hpgtbl
  · obtain ⟨-, -, h⟩ := bind_eq_ok.mp h
    cases h
    exact hpgtbl.trans (mem _ _)

theorem mapPage2mb (h : vmemMapPage2mb vm virtAddr frame flags k = .ok (res, k')) : Uses k k' := by
  unfold vmemMapPage2mb at h
  obtain ⟨-, -, h⟩ := bind_eq_ok.mp h
  obtain ⟨-, -, h⟩ := bind_eq_ok.mp h
  simp only at h
  have hpdpt := ensureNextTable k vm.pml4 (tableIndex 3 virtAddr) (vmemConvertFlags flags)
  generalize vmemEnsureNextTable k vm.pml4 (tableIndex 3 virtAddr) (vmemConvertFlags flags) = pdpt at h hpdpt
  have hpgdir := hpdpt.trans (ensureNextTable pdpt.2 pdpt.1 (tableIndex 2 virtAddr) (vmemConvertFlags flags))
  generalize vmemEnsureNextTable pdpt.2 pdpt.1 (tableIndex 2 virtAddr) (vmemConvertFlags flags) = pgdir at h hpgdir
  split_ifs at h
  · cases h
    exact hpdpt
  · cases h
    exact hpgdir
  · obtain ⟨-, -, h⟩ := bind_eq_ok.mp h
    cases h
    exact hpgdir.trans (mem _ _)

theorem mapPage1gb (h : vmemMapPage1gb vm virtAddr frame flags k = .ok (res, k')) : Uses k k' := by
  unfold vmemMapPage1gb at h
  obtain ⟨-, -, h⟩ := bind_eq_ok.mp h
  obtain ⟨-, -, h⟩ := bind_eq_ok.mp h
  simp only at h
  have hpdpt := ensureNextTable k vm.pml4 (tableIndex 3 virtAddr) (vmemConvertFlags flags)
  generalize vmemEnsureNextTable k vm.pml4 (tableIndex 3 virtAddr) (vmemConvertFlags flags) = pdpt at h hpdpt
  split_ifs at h
  · cases h
    exact hpdpt
  · obtain ⟨-, -, h⟩ := bind_eq_ok.mp h
    cases h
    exact hpdpt.trans (mem _ _)

end Mapping

section Cloning

variable {dst : Vmem} {pml4ei pdpei pdei ptei : ℕ} {pte : BitVec 64} {res : Int}

theorem forPresent {body : ℕ → BitVec 64 → Kernel → Except Panic (Int × Kernel)} {tbl : ℕ}
    (hbody : ∀ {i pte k res k'}, body i pte k = .ok (res, k') → Uses k k') {count i : ℕ}
    (h : forPresent body tbl count i k = .ok (res, k')) : Uses k k' := by
  induction count generalizing i k with
  | zero =>
      cases h
      exact refl _
  | succ count ih =>
      rw [HeavenOS.forPresent] at h
      simp only at h
      split_ifs at h
      · exact ih h
      · obtain ⟨⟨res1, k1⟩, hone, h⟩ := bind_eq_ok.mp h
        simp only at h
        split_ifs at h
        · cases h
          exact hbody hone
        · exact (hbody hone).trans (ih h)

theorem clonePte (h : clonePte dst pml4ei pdpei pdei ptei pte k = .ok (res, k')) : Uses k k' := by
  unfold HeavenOS.clonePte at h
  simp only at h
  split_ifs at h
  · cases h
    exact frameAlloc k
  · exact ((frameAlloc k).trans (mem _ _)).trans (mapPage h)
  · exact mapPage h

theorem clonePde (h : clonePde dst pml4ei pdpei pdei pte k = .ok (res, k')) : Uses k k' := by
  unfold HeavenOS.clonePde at h
  split_ifs at h
  · exact mapPage2mb h
  · exact forPresent clonePte h

theorem clonePdpe (h : clonePdpe dst pml4ei pdpei pte k = .ok (res, k')) : Uses k k' := by
  unfold HeavenOS.clonePdpe at h
  split_ifs at h
  · exact mapPage1gb h
  · exact forPresent clonePde h

theorem clonePages {srcPml4 : ℕ} (h : vmemClonePages dst srcPml4 k = .ok (res, k')) : Uses k k' :=
  forPresent (forPresent clonePdpe) h

theorem cloneAreas (areas : List VmemArea) (dst : Vmem) (k : Kernel) : Uses k (cloneAreas areas dst k).2.2 := by
  induction areas generalizing dst k with
  | nil => exact refl k
  | cons area rest ih =>
      rw [HeavenOS.cloneAreas]
      simp only
      split_ifs
      · exact (objectAlloc k).trans (ih _ _)
      · exact objectAlloc k

/-- All that a copy of an address space takes after its first frame. -/
theorem clone {src vm : Vmem} (h : vmemClone src k = .ok (res, vm, k')) : Uses (HeavenOS.frameAlloc k).2 k' := by
  have hinit : Uses (HeavenOS.frameAlloc k).2 (vmemInit k).2.2 := by
    unfold vmemInit
    simp only
    split_ifs
    · exact refl _
    · exact objectAlloc _
    · exact objectAlloc _
  unfold vmemClone at h
  simp only at h
  have hareas := hinit.trans (cloneAreas src.areas (vmemInit k).2.1 (vmemInit k).2.2)
  split_ifs at h
  · cases h
    exact hinit
  · cases h
    exact hareas
  · obtain ⟨⟨res1, k1⟩, hpages, h⟩ := bind_eq_ok.mp h
    simp only at h
    split_ifs at h
    all_goals
      cases h
      exact hareas.trans (clonePages hpages)

end Cloning

theorem cloneThread (src dst : ArchThread) (popAndIret : BitVec 64) (k : Kernel) :
    Uses k (archThreadCloneCurrent src dst popAndIret k).2.2.2 := by
  have hstack : Uses k (allocateKstack k).2.2 := by
    unfold allocateKstack
    simp only
    split_ifs
    · exact frameAlloc k
    · exact (frameAlloc k).trans (mem _ _)
  unfold archThreadCloneCurrent
  simp only
  split_ifs
  · exact hstack
  · exact (hstack.trans (mem _ _)).trans (mem _ _)

end Uses

/-! ## Traces of a failure -/

/-- What a failed call may leave behind: nothing. Frames taken are given back, entries that are
in use are as before, and so are the translations and the pages of the caller. -/
structure NoTrace (p : ℕ) (s s' : ForkState) : Prop where
  taken : ∀ f ∈ taken s.kernel s'.kernel, f ∈ s'.kernel.freed
  freed : ∀ f, f ∈ s'.kernel.freed ↔ f ∈ s.kernel.freed ∨ f ∈ HeavenOS.taken s.kernel s'.kernel
  tasks : ∀ i, s'.tasks i = s.tasks i ∧ s'.threads i = s.threads i ∨
    (s.tasks i).state = .notAllocated ∧ (s'.tasks i).state = .notAllocated
  space : ∀ addr, walk s'.kernel.mem (s.tasks p).vmem.pml4 addr = walk s.kernel.mem (s.tasks p).vmem.pml4 addr
  pages : ∀ addr tr, walk s.kernel.mem (s.tasks p).vmem.pml4 addr = some tr →
    s'.kernel.mem (physToVirt tr.phys) = s.kernel.mem (physToVirt tr.phys)

/-- The call returns an error code and leaves no trace. -/
def FailsClean (popAndIret : BitVec 64) (p : ℕ) (s : ForkState) : Prop :=
  ∃ res s', forkCall popAndIret p s = .returned res s' ∧ res < 0 ∧ NoTrace p s s'

/-- What a call that returns has used up is what is taken after the PML4. -/
theorem forkCall_uses {popAndIret : BitVec 64} {p : ℕ} {s s' : ForkState} {res : Int}
    (h : forkCall popAndIret p s = .returned res s') : Uses (frameAlloc s.kernel).2 s'.kernel := by
  unfold forkCall at h
  cases halloc : schedAllocateTask s.tasks with
  | none =>
      rw [halloc] at h
      cases h
  | some found =>
      obtain ⟨child, tasks⟩ := found
      rw [halloc] at h
      simp only at h
      cases hclone : vmemClone (tasks p).vmem s.kernel with
      | error msg =>
          rw [hclone] at h
          cases h
      | ok copy =>
          obtain ⟨res1, vm, k⟩ := copy
          rw [hclone] at h
          simp only at h
          have huses := Uses.clone hclone
          have hthread := huses.trans (Uses.cloneThread (s.threads p) (s.threads child) popAndIret k)
          split_ifs at h
          · cases h
            exact huses
          · cases h
            exact hthread
          · cases h
            exact hthread.trans (Uses.mem _ _)

/-- What a copy of an address space returns is an error or zero. -/
theorem vmemClone_eq_zero {src dst : Vmem} {k k' : Kernel} {res : Int} (h : vmemClone src k = .ok (res, dst, k'))
    (hres : 0 ≤ res) : res = 0 := by
  unfold vmemClone at h
  simp only at h
  split_ifs at h
  · cases h
    omega
  · cases h
    omega
  · obtain ⟨⟨res1, k1⟩, -, h⟩ := bind_eq_ok.mp h
    simp only at h
    split_ifs at h
    · cases h
      omega
    · cases h
      rfl

/-- A call that succeeds has copied the address space and the stack, and does to the table
what `sysFork` says. -/
theorem forkCall_succeeds {popAndIret : BitVec 64} {p : ℕ} {s s' : ForkState} {res : Int}
    (h : forkCall popAndIret p s = .returned res s') (hres : 0 ≤ res) :
    ∃ c vm k err th regs k1, res = (c : ℕ) ∧ sysFork s.tasks p vm = some (c, s'.tasks) ∧
      vmemClone (s.tasks p).vmem s.kernel = .ok (0, vm, k) ∧
      archThreadCloneCurrent (s.threads p) (s.threads c) popAndIret k = (err, th, regs, k1) ∧ 0 ≤ err ∧
      s'.kernel = { k1 with mem := k1.mem.storeWord (regs + 8 * Reg.rax.slot) 0 } ∧
      s'.threads = Function.update s.threads c th := by
  unfold forkCall at h
  cases halloc : schedAllocateTask s.tasks with
  | none =>
      rw [halloc] at h
      cases h
  | some found =>
      obtain ⟨child, tasks⟩ := found
      obtain ⟨-, -, -, htasks⟩ := schedAllocateTask_spec halloc
      have hvmem : (tasks p).vmem = (s.tasks p).vmem := by
        rw [htasks, TaskTable.modify_apply]
        split_ifs <;> rfl
      rw [halloc] at h
      simp only [hvmem] at h
      cases hclone : vmemClone (s.tasks p).vmem s.kernel with
      | error msg =>
          rw [hclone] at h
          cases h
      | ok copy =>
          obtain ⟨res1, vm, k⟩ := copy
          rw [hclone] at h
          simp only at h
          split_ifs at h with hcopy hthread
          · cases h
            omega
          · cases h
            omega
          · obtain ⟨rfl, rfl⟩ := ForkEnd.returned.inj h
            obtain rfl := vmemClone_eq_zero hclone (by omega)
            refine ⟨child, vm, k, _, _, _, _, ?_, ?_, rfl, rfl, not_lt.mp hthread, rfl, rfl⟩
            · simp [htasks]
            · rw [sysFork, halloc]
              refine congrArg some (Prod.ext rfl (funext fun j => ?_))
              by_cases hj : j = child
              · subst hj
                by_cases hp : p = j
                · simp [hp]
                · simp [TaskTable.modify_of_ne _ _ hp]
              · simp [TaskTable.modify_of_ne _ _ hj]

/-- Where the PML4 cannot be allocated, the call ends with that. -/
theorem forkCall_of_no_frame {popAndIret : BitVec 64} {p c : ℕ} {s : ForkState} {tasks : TaskTable} {k : Kernel}
    (halloc : schedAllocateTask s.tasks = some (c, tasks)) (hframe : frameAlloc s.kernel = (0, k)) :
    forkCall popAndIret p s =
      .returned (-enomem) ⟨k, tasks.modify c fun t => { t with vmem := ⟨[], 0⟩ }, s.threads⟩ := by
  have hclone : vmemClone (tasks p).vmem s.kernel = .ok (-enomem, ⟨[], 0⟩, k) := by
    rw [vmemClone, vmemInit, hframe]
    rfl
  rw [forkCall, halloc]
  simp only [hclone]
  rfl

/-- Where both are copied, the call returns the number of the child. -/
theorem forkCall_of_copies {popAndIret : BitVec 64} {p c regs : ℕ} {s : ForkState} {tasks : TaskTable} {vm : Vmem}
    {th : ArchThread} {k k' : Kernel} (halloc : schedAllocateTask s.tasks = some (c, tasks))
    (hclone : vmemClone (tasks p).vmem s.kernel = .ok (0, vm, k))
    (hthread : archThreadCloneCurrent (s.threads p) (s.threads c) popAndIret k = (0, th, regs, k')) :
    forkCall popAndIret p s =
      .returned c ⟨{ k' with mem := k'.mem.storeWord (regs + 8 * Reg.rax.slot) 0 },
        (tasks.modify c fun t => { t with vmem := vm }).modify c fun t =>
          { t with ppid := ((tasks.modify c fun t => { t with vmem := vm }) p).pid, state := .runnable,
                   vmemLive := true, kstackLive := true },
        Function.update s.threads c th⟩ := by
  obtain ⟨-, -, -, rfl⟩ := schedAllocateTask_spec halloc
  rw [forkCall, halloc]
  simp only [hclone, hthread, TaskTable.modify_self]
  rfl

/-- The first frame becomes the PML4 of the copy, and a call that fails behind that does not
give it back. -/
theorem forkCall_keeps_first {popAndIret : BitVec 64} {p f : ℕ} {s s' : ForkState} {res : Int}
    (hf : s.kernel.frames.head? = some (some f)) (hcall : forkCall popAndIret p s = .returned res s') :
    f ∈ taken s.kernel s'.kernel ∧ f ∉ s'.kernel.freed := by
  obtain ⟨frames, hcons⟩ : ∃ frames, s.kernel.frames = some f :: frames := List.head?_eq_some_iff.mp hf
  obtain ⟨⟨used, hused⟩, hfreed⟩ := forkCall_uses hcall
  have halloc : (frameAlloc s.kernel).2.frames = frames ∧ f ∉ (frameAlloc s.kernel).2.freed := by
    rw [frameAlloc, hcons]
    exact ⟨rfl, fun hmem => absurd rfl (of_decide_eq_true (List.mem_filter.mp hmem).2)⟩
  refine ⟨?_, fun hmem => halloc.2 (hfreed hmem)⟩
  rw [taken_eq (show s.kernel.frames = (some f :: used) ++ s'.kernel.frames by
    rw [hcons, List.cons_append, hused, halloc.1])]
  exact List.mem_filterMap.mpr ⟨some f, List.mem_cons_self, rfl⟩

/-- A call that fails leaves no trace exactly where there is a free entry and already the PML4
cannot be allocated. -/
theorem fork_fails_clean_iff {popAndIret : BitVec 64} {p : ℕ} {s : ForkState} :
    FailsClean popAndIret p s ↔ (∃ i, FreeEntry s.tasks i) ∧ ¬∃ f, s.kernel.frames.head? = some (some f) := by
  constructor
  · rintro ⟨res, s', hcall, -, htrace⟩
    constructor
    · by_contra hfull
      rw [forkCall, (schedAllocateTask_eq_none_iff s.tasks).mpr hfull] at hcall
      cases hcall
    · rintro ⟨f, hf⟩
      obtain ⟨htaken, hkept⟩ := forkCall_keeps_first hf hcall
      exact hkept (htrace.taken f htaken)
  · rintro ⟨hfree, hnone⟩
    obtain ⟨c, tasks, halloc⟩ : ∃ c tasks, schedAllocateTask s.tasks = some (c, tasks) := by
      cases halloc : schedAllocateTask s.tasks with
      | none => exact absurd hfree ((schedAllocateTask_eq_none_iff s.tasks).mp halloc)
      | some found => exact ⟨found.1, found.2, rfl⟩
    obtain ⟨-, -, hstate, rfl⟩ := schedAllocateTask_spec halloc
    obtain ⟨frames, hframe, htaken⟩ : ∃ frames, frameAlloc s.kernel = (0, { s.kernel with frames := frames }) ∧
        taken s.kernel { s.kernel with frames := frames } = [] := by
      cases hframes : s.kernel.frames with
      | nil =>
          have hnull : frameAlloc s.kernel = (0, s.kernel) := by rw [frameAlloc, hframes]
          exact ⟨s.kernel.frames, hnull, @taken_eq s.kernel s.kernel [] (List.nil_append _).symm⟩
      | cons answer frames =>
          cases answer with
          | none =>
              have hnull : frameAlloc s.kernel = (0, { s.kernel with frames := frames }) := by rw [frameAlloc, hframes]
              exact ⟨frames, hnull, @taken_eq s.kernel { s.kernel with frames := frames } [none] hframes⟩
          | some f => exact absurd ⟨f, by rw [hframes]; rfl⟩ hnone
    refine ⟨-enomem, _, forkCall_of_no_frame halloc hframe, by decide, ?_, ?_, fun i => ?_, fun _ => rfl, fun _ _ _ => rfl⟩
    · intro f hf
      rw [htaken] at hf
      cases hf
    · intro f
      rw [htaken]
      simp
    · by_cases hi : i = c
      · refine Or.inr ⟨hi ▸ hstate, ?_⟩
        rw [hi]
        simp [hstate]
      · refine Or.inl ⟨?_, rfl⟩
        simp [TaskTable.modify_of_ne _ _ hi]

/-- Task 1 runs and has this address space; the other entries are free. -/
def forkingTable (vm : Vmem) : TaskTable := fun i =>
  if i = 1 then { Task.zero with pid := 1, state := .runnable, vmem := vm } else Task.zero

theorem schedAllocateTask_forkingTable (vm : Vmem) :
    schedAllocateTask (forkingTable vm) = some (2, (forkingTable vm).modify 2 fun t => { t with pid := 2 }) := rfl

/-- The task with these mappings, when only these frames are left. -/
def forkingState (s : Space) (frames : List (Option ℕ)) : ForkState :=
  ⟨{ s.k with frames := frames }, forkingTable s.vm, fun _ => ⟨0, 0⟩⟩

/-- The parent has its code, a shared page and a page of its own, and there is one frame left:
the call fails where the tables of the copy are to be made, and keeps its PML4. -/
theorem fork_leaks_pml4 :
    ∃ vm k s g res s', vmemInit populatedKernel = (0, vm, k) ∧ Run SpaceStep ⟨vm, k, [vm.pml4]⟩ populatedLabels s ∧
      s.k.frames.head? = some (some g) ∧
      forkCall 0 1 (forkingState s [some g]) = .returned res s' ∧ res < 0 ∧
      g ∈ taken (forkingState s [some g]).kernel s'.kernel ∧ g ∉ s'.kernel.freed ∧
      ¬FailsClean 0 1 (forkingState s [some g]) := by
  obtain ⟨vm, k, s, f, claimed, hinit, hrun, h⟩ := exists_populated
  obtain ⟨pt, hinv, hleaf⟩ := h.inv
  obtain ⟨g, frames, hframes, -⟩ := PageTable.Plenty.cons (n := 52) h.plenty
  have hsub : ∀ f, some f ∈ [some g] → some f ∈ s.k.frames := fun f hf => by
    rw [hframes, List.mem_singleton.mp hf]
    exact List.mem_cons_self
  have hsrc : SpaceInv ⟨s.vm, { s.k with frames := [some g] }, s.allocated⟩ pt claimed :=
    ⟨⟨hinv.valid.wf, hinv.valid.rep, by simp, fun f hf => hinv.valid.fresh.2 f (hsub f hf)⟩, hinv.small,
      fun hl hq hmem => hinv.unused hl hq (hsub _ hmem)⟩
  obtain ⟨res, dst, k', hclone, hres⟩ := vmemClone_one_frame hsrc
    (show (pt.leaf (pathTo 0x401000 4)).isSome by rw [hleaf, populatedLeaf_shared]; rfl) rfl
  have hneg : res < 0 := by
    by_contra hnot
    exact hres (vmemClone_eq_zero hclone (not_lt.mp hnot))
  have hcall : ∃ s', forkCall 0 1 (forkingState s [some g]) = .returned res s' := by
    rw [forkCall, show (forkingState s [some g]).tasks = forkingTable s.vm from rfl, schedAllocateTask_forkingTable]
    have hclone' : vmemClone (((forkingTable s.vm).modify 2 fun t => { t with pid := 2 }) 1).vmem
        (forkingState s [some g]).kernel = .ok (res, dst, k') := hclone
    simp only [hclone', if_pos hneg]
    exact ⟨_, rfl⟩
  obtain ⟨s', hreturned⟩ := hcall
  obtain ⟨htaken, hkept⟩ := forkCall_keeps_first (f := g) rfl hreturned
  refine ⟨vm, k, s, g, res, s', hinit, hrun.mono fun _ _ _ hstep => hstep.1, by rw [hframes]; rfl, hreturned, hneg, htaken,
    hkept, ?_⟩
  rintro ⟨res', s'', hreturned', -, htrace⟩
  obtain ⟨-, rfl⟩ := ForkEnd.returned.inj (hreturned.symm.trans hreturned')
  exact hkept (htrace.taken g htaken)

end HeavenOS
