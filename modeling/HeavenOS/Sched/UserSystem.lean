/-
# User memory

The task table together with the memory of its tasks. The steps are the calls that make,
change and destroy address spaces, each of them as a whole: `setup_init_task`, `sys_fork`,
the faults of user programs, `sys_exit` with the teardown that the scheduler does after it,
and `sys_wait` with the store to its status. A program should reach its own code and stack,
and nothing of other programs or of the kernel.
-/

import HeavenOS.Sched.ForkCall
import HeavenOS.Sched.SetupVmem
import HeavenOS.Sched.WaitStatus

namespace HeavenOS

open Lib

/-! ## The code -/

/-- What the linker decides: where the kernel and the user code are in physical memory, and
the addresses of `user_program` and `pop_and_iret`. -/
structure LinkedImage where
  image : Image
  physStartUser : ℕ
  userProgram : BitVec 64
  popAndIret : BitVec 64
  user_dvd : pageSize ∣ physStartUser
  user_lt : physStartUser < 2 ^ 48

/-- `setup_init_task` -/
def setupInitTask (l : LinkedImage) (s : ForkState) : ForkEnd :=
  match schedAllocateTask s.tasks with
  | none => .returned (-enomem) s
  | some (newTask, tasks) =>
      let (err, vm, k) := vmemInit s.kernel
      let tasks := tasks.modify newTask fun t => { t with vmem := vm }
      if err < 0 then .returned err ⟨k, tasks, s.threads⟩
      else
        match setupVmem l.image.start (l.image.start + l.image.size) l.physStartUser vm k with
        | .error msg => .panicked msg
        | .ok (err, k) =>
            if err < 0 then .returned err ⟨k, tasks, s.threads⟩
            else
              match vmemAllocPages vm 0x70000000 4 (vmemUser ||| vmemWrite) k with
              | .error msg => .panicked msg
              | .ok (err, vm, k) =>
                  let tasks := tasks.modify newTask fun t => { t with vmem := vm }
                  if err < 0 then .returned err ⟨k, tasks, s.threads⟩
                  else
                    let tasks := tasks.modify newTask fun t => { t with state := .runnable }
                    let (err, th, k) := archThreadNew (s.threads newTask) l.userProgram l.popAndIret k
                    let threads := Function.update s.threads newTask th
                    if err < 0 then .returned err ⟨k, tasks, threads⟩
                    else
                      .returned 0 ⟨k, tasks.modify newTask fun t => { t with vmemLive := true, kstackLive := true },
                        threads⟩

/-- `sys_exit`, called by task `p`, and what the scheduler then does with the dead task. -/
def exitCall (p : ℕ) (code : BitVec 64) (s : ForkState) : Except Panic ForkState := do
  let tasks := sysExit s.tasks p code
  -- `vmem_switch_to(&sched_vmem)` comes first, so `curr_vmem` is another address space
  let k ← vmemDestroy (tasks p).vmem false s.kernel
  let k := archThreadDestroy (s.threads p) k
  return ⟨k, tasks.modify p fun t => { t with vmemLive := false, kstackLive := false }, s.threads⟩

/-- Where an address of the current address space has no page, the fault handler makes one. -/
def pageIn (vm : Vmem) (addr : ℕ) (k : Kernel) : Except Panic Kernel :=
  match walk k.mem vm.pml4 addr with
  | some _ => .ok k
  | none => do
      let (handled, k) ← vmemHandlePf vm addr k
      if handled then return k else .error "Unhandled IRQ"

/-- A store of the kernel to an address of the current address space. It ignores the rights of
the page: `CR0.WP` is off. -/
def kernelStore (vm : Vmem) (addr : ℕ) (b : BitVec 8) (k : Kernel) : Except Panic Kernel := do
  let k ← pageIn vm addr k
  match walk k.mem vm.pml4 addr with
  | some tr => return { k with mem := k.mem.storeByte (physToVirt tr.phys) b }
  | none => .error "Unhandled IRQ"

/-- `*status = exitcode` for the bytes from number `i` on. -/
def storeStatus (vm : Vmem) (status : ℕ) (exitcode : BitVec 32) : (count i : ℕ) → Kernel → Except Panic Kernel
  | 0, _, k => return k
  | count + 1, i, k => do
      let k ← kernelStore vm ((status + i) % 2 ^ 64) (exitcode.extractLsb' (8 * i) 8) k
      storeStatus vm status exitcode count (i + 1) k

/-- The end of `sys_wait`, with the store to `*status`. -/
def waitFinish (p childPid status : ℕ) (s : ForkState) : Except Panic (Int × ForkState) :=
  match sysWaitFinish s.tasks p childPid status with
  | (res, none, tasks) => .ok (res, { s with tasks := tasks })
  | (res, some exitcode, tasks) => do
      let k ← storeStatus (s.tasks p).vmem status exitcode 4 0 s.kernel
      return (res, { s with kernel := k, tasks := tasks })

/-! ## Steps -/

namespace ForkState

variable (s : ForkState)

/-- The task has not been torn down. -/
def Live (i : ℕ) : Prop := (s.tasks i).vmemLive = true

/-- What the processor makes of an address while the task is on it. -/
def walk (i addr : ℕ) : Option Translation := HeavenOS.walk s.kernel.mem (s.tasks i).vmem.pml4 addr

/-- The page of the kernel stack. -/
def kstack (i : ℕ) : ℕ := (s.threads i).kstackTop - pageSize

/-- The state in which the next calls of the allocators have these answers. -/
def supply (frames : List (Option ℕ)) (objects : List Bool) : ForkState :=
  { s with kernel := { s.kernel with frames := frames, objects := objects } }

end ForkState

/-- `frame_alloc` always succeeds, with frames that are not live: no page table, user page or
kernel stack of a task, and not the page of the user code. -/
structure Supplied (l : LinkedImage) (s : ForkState) (frames : List (Option ℕ)) : Prop where
  always : none ∉ frames
  fresh : FreshFrames frames
  code : some (physToVirt l.physStartUser) ∉ frames
  spaces : ∀ i, s.Live i → Unused s.kernel.mem (s.tasks i).vmem.pml4 frames
  kstacks : ∀ i, s.Live i → some (s.kstack i) ∉ frames

/-- An access of a program is allowed. -/
def Allowed (tr : Option Translation) (write : Bool) : Prop :=
  ∃ t, tr = some t ∧ t.rights.user = true ∧ (write = true → t.rights.write = true)

/-- The tasks and their memory. A task that is inside of `sys_wait` has the arguments of the
call. Among the frames given back are those that were free from the start. -/
structure UserSystem extends ForkState where
  waits : ℕ → Option (ℕ × ℕ)

/-- The task executes its program. -/
def UserSystem.InUser (s : UserSystem) (p : ℕ) : Prop :=
  s.Live p ∧ (s.tasks p).state = .runnable ∧ s.waits p = none

inductive UserLabel
  | setup
  | fork (p : ℕ)
  | fault (p addr : ℕ) (write : Bool)
  | store (p addr : ℕ) (b : BitVec 8)
  | exit (p : ℕ) (code : BitVec 64)
  | wait (p childPid status : ℕ)
  /-- A call of `sys_wait` goes on. -/
  | waited (p : ℕ)

/-- Every call is one step. No call of `frame_alloc` fails: at the end of a call there are
answers left, or the result says so. A call that panics has no next state. -/
inductive UserStep (l : LinkedImage) : UserSystem → UserLabel → UserSystem → Prop
  | setup {s : UserSystem} {s' : ForkState} {frames : List (Option ℕ)} {objects : List Bool} {res : Int}
      (hsupply : Supplied l s.toForkState frames) (hcall : setupInitTask l (s.supply frames objects) = .returned res s')
      (hres : (∃ i, FreeEntry s.tasks i) → 0 ≤ res) : UserStep l s .setup { s with toForkState := s' }
  | fork {s : UserSystem} {s' : ForkState} {p : ℕ} {frames : List (Option ℕ)} {objects : List Bool} {res : Int}
      (huser : s.InUser p) (hsupply : Supplied l s.toForkState frames)
      (hcall : forkCall l.popAndIret p (s.supply frames objects) = .returned res s') (hres : 0 ≤ res) :
      UserStep l s (.fork p) { s with toForkState := s' }
  | fault {s : UserSystem} {p addr : ℕ} {write : Bool} {frames : List (Option ℕ)} {objects : List Bool} {k : Kernel}
      (huser : s.InUser p) (haddr : Canonical addr) (hfault : ¬Allowed (s.walk p addr) write)
      (hsupply : Supplied l s.toForkState frames)
      (hcall : vmemHandlePf (s.tasks p).vmem addr (s.supply frames objects).kernel = .ok (true, k))
      (hleft : k.frames ≠ []) : UserStep l s (.fault p addr write) { s with kernel := k }
  | store {s : UserSystem} {p addr : ℕ} {b : BitVec 8} {tr : Translation} (huser : s.InUser p)
      (haddr : Canonical addr) (hwalk : s.walk p addr = some tr) (hallowed : Allowed (s.walk p addr) true) :
      UserStep l s (.store p addr b)
        { s with kernel := { s.kernel with mem := s.kernel.mem.storeByte (physToVirt tr.phys) b } }
  | exit {s : UserSystem} {s' : ForkState} {p : ℕ} {code : BitVec 64} (huser : s.InUser p)
      (hcall : exitCall p code s.toForkState = .ok s') : UserStep l s (.exit p code) { s with toForkState := s' }
  | refused {s : UserSystem} {p childPid status : ℕ} (huser : s.InUser p)
      (hwait : sysWait s.tasks p childPid = .refused (-echild)) : UserStep l s (.wait p childPid status) s
  | blocked {s : UserSystem} {p childPid status : ℕ} {tasks : TaskTable} (huser : s.InUser p)
      (hwait : sysWait s.tasks p childPid = .blocked tasks) :
      UserStep l s (.wait p childPid status)
        { s with tasks := tasks, waits := Function.update s.waits p (some (childPid, status)) }
  | ready {s : UserSystem} {s' : ForkState} {p childPid status : ℕ} {frames : List (Option ℕ)} {objects : List Bool}
      {res : Int} (huser : s.InUser p) (hwait : sysWait s.tasks p childPid = .ready)
      (hsupply : Supplied l s.toForkState frames)
      (hcall : waitFinish p childPid status (s.supply frames objects) = .ok (res, s'))
      (hleft : s'.kernel.frames ≠ []) :
      UserStep l s (.wait p childPid status) { s with toForkState := s' }
  | waited {s : UserSystem} {s' : ForkState} {p childPid status : ℕ} {frames : List (Option ℕ)} {objects : List Bool}
      {res : Int} (hlive : s.Live p) (hstate : (s.tasks p).state = .runnable)
      (hwaits : s.waits p = some (childPid, status)) (hassert : (s.tasks childPid).state = .zombie)
      (hsupply : Supplied l s.toForkState frames)
      (hcall : waitFinish p childPid status (s.supply frames objects) = .ok (res, s'))
      (hleft : s'.kernel.frames ≠ []) :
      UserStep l s (.waited p) { s with toForkState := s', waits := Function.update s.waits p none }

/-! ## Isolation -/

/-- The frame that an address leads to, in the direct mapping. -/
def Translation.frame (tr : Translation) : ℕ := physToVirt (roundDown tr.phys pageSize)

/-- User programs reach the code page and the area of the stack, and only there; what one of
them may write no other may access, and it is neither a page table nor a kernel stack nor
free. -/
structure UserIsolated (s : ForkState) : Prop where
  areas : ∀ i, s.Live i → ∀ addr tr, Canonical addr → s.walk i addr = some tr → tr.rights.user = true →
    (0x10000 ≤ addr ∧ addr < 0x10000 + pageSize ∧ tr.rights.write = false) ∨ stackArea.Covers addr
  kernel : ∀ i, s.Live i → ∀ addr tr, kernelHigherHalfStart ≤ addr → addr < 2 ^ 64 → s.walk i addr = some tr →
    tr.rights.user = false
  others : ∀ i, s.Live i → ∀ addr tr, Canonical addr → s.walk i addr = some tr →
    tr.rights.user = true → tr.rights.write = true →
    ∀ j, s.Live j → j ≠ i → ∀ addr' tr', Canonical addr' → s.walk j addr' = some tr' →
      tr'.rights.user = true → tr'.frame ≠ tr.frame
  notKernel : ∀ i, s.Live i → ∀ addr tr, Canonical addr → s.walk i addr = some tr →
    tr.rights.user = true → tr.rights.write = true →
    tr.frame ∉ s.kernel.freed ∧ ∀ j, s.Live j → tr.frame ≠ s.kstack j ∧
      ∀ depth, ¬IsTable s.kernel.mem (s.tasks j).vmem.pml4 depth tr.frame

end HeavenOS
