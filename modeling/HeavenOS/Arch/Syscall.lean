/-
# System calls

`syscall_entry` of `arch/x86/syscall.asm` on a stack in memory, from the `syscall` of a
program to the `sysret`, and the two ways back to the program that a fork has: the return
path for the parent, and the switch to the child's context for the child.
-/

import HeavenOS.Arch.Thread

namespace HeavenOS

open Lib

/-! ## The instructions -/

/-- What `syscall_init` writes to bits 48 to 63 of `IA32_STAR`. -/
def starUser : BitVec 16 := gdtSegmentSelector (3 - 1) 3

/-- `syscall`, as `syscall_init` has set it up; `rip` is already that of the next
instruction. -/
def X86.syscall (s : X86) (syscallEntry : BitVec 64) : X86 :=
  { s with
    regs := Function.update (Function.update s.regs .rcx s.rip) .r11 s.rflags
    rip := syscallEntry
    rflags := s.rflags &&& ~~~rflagsIf
    cs := kernelCodeSeg
    ss := kernelCodeSeg + 8 }

/-- `o64 sysret` -/
def X86.sysret (s : X86) : X86 :=
  { s with
    rip := s.regs .rcx
    rflags := loadFlags sysretMask (s.regs .r11)
    cs := (starUser + 16) ||| 3
    ss := (starUser + 8) ||| 3 }

/-! ## The entry -/

/-- `syscall_entry` up to the first instruction of `do_syscall`, where `kstackTop` is that of
the current task. -/
def syscallEntry (kstackTop : ℕ) (doSyscall back : BitVec 64) (s : X86) : X86 :=
  let rspScratchSpace := BitVec.ofNat 64 s.sp
  let s : X86 := { s with sp := kstackTop }
  let s := s.pushAll [userDataSeg.setWidth 64, rspScratchSpace, s.regs .r11, userCodeSeg.setWidth 64, s.regs .rcx, 0, 0]
  let s := s.pushAll (pushRegs.map s.regs)
  -- `sti`, and the arguments of `do_syscall`
  let s : X86 := { s with
    rflags := s.rflags ||| X86.rflagsIf
    regs := Function.update (Function.update s.regs .rdi (s.regs .rax)) .rsi (BitVec.ofNat 64 s.sp) }
  s.call doSyscall back

/-- `syscall_entry` behind the call of `do_syscall`. -/
def syscallReturn (s : X86) : X86 :=
  let s := (s.popAll popRegs).addRsp 8
  let s := (s.addRsp 16).popAll [.rcx]
  let s := (s.addRsp 8).popAll [.r11]
  -- `cli`
  let s : X86 := { s with rflags := s.rflags &&& ~~~X86.rflagsIf }
  X86.sysret { s with sp := (s.top 0).toNat }

/-! ## Programs -/

/-- A program in user mode. The flags that `sysret` does not load are clear. -/
structure UserState where
  regs : Reg → BitVec 64
  rip : BitVec 64
  rsp : BitVec 64
  rflags : BitVec 64
  flagsOk : X86.loadFlags X86.sysretMask rflags = rflags

namespace UserState

/-- The processor that runs the program. -/
def machine (u : UserState) (m : Mem) : X86 where
  regs := u.regs
  sp := u.rsp.toNat
  mem := m
  rip := u.rip
  rflags := u.rflags
  cs := userCodeSeg
  ss := userDataSeg

/-- The program behind a system call that returned `w`. -/
def returned (u : UserState) (w : BitVec 64) : UserState :=
  { u with regs := Function.update (Function.update (Function.update u.regs .rcx u.rip) .r11 u.rflags) .rax w }

/-- The registers that `syscall_entry` saves. -/
def saved (u : UserState) : ArchRegs where
  regs := Function.update (Function.update u.regs .rcx u.rip) .r11 u.rflags
  irqNum := 0
  errcode := 0
  rip := u.rip
  cs := userCodeSeg
  rflags := u.rflags
  rsp := u.rsp
  ss := userDataSeg

/-- Flags that `sysret` loads are loaded by `iretq`, too. -/
theorem iret_flags (u : UserState) : X86.loadFlags X86.iretMask u.rflags = u.rflags := by
  have hmask : X86.sysretMask &&& X86.iretMask = X86.sysretMask := by decide
  have hone : (2 : BitVec 64) &&& X86.iretMask = 2 := by decide
  rw [← u.flagsOk]
  unfold X86.loadFlags
  rw [BitVec.and_or_distrib_right, BitVec.and_assoc, hmask, hone, BitVec.or_assoc, BitVec.or_self]

end UserState

/-! ## The frame on the stack -/

theorem syscallEntry_spec (u : UserState) (m : Mem) {kstackTop : ℕ} (hroom : pageSize ≤ kstackTop)
    (entry doSyscall back : BitVec 64) :
    (syscallEntry kstackTop doSyscall back ((u.machine m).syscall entry)).sp + 8 + archRegsSize = kstackTop ∧
      Frame (syscallEntry kstackTop doSyscall back ((u.machine m).syscall entry)).mem (kstackTop - archRegsSize - 8)
        (back :: u.saved.words) := by
  have hrsp : BitVec.ofNat 64 u.rsp.toNat = u.rsp := by simp
  set words := u.saved.rest.reverse ++ pushRegs.map u.saved.regs with hwords
  set s : X86 := { (u.machine m).syscall entry with sp := kstackTop } with hs
  have hpushed : (s.pushAll [userDataSeg.setWidth 64, BitVec.ofNat 64 u.rsp.toNat, u.rflags, userCodeSeg.setWidth 64,
      u.rip, 0, 0]).pushAll (pushRegs.map s.regs) = s.pushAll words := by
    rw [X86.pushAll_append, hrsp]
    rfl
  have hentry : ∃ rflags regs, syscallEntry kstackTop doSyscall back ((u.machine m).syscall entry) =
      ({ s.pushAll words with rflags := rflags, regs := regs } : X86).call doSyscall back := by
    rw [← hpushed]
    simp only [syscallEntry, X86.pushAll_regs]
    exact ⟨_, _, rfl⟩
  obtain ⟨rflags, regs, hentry⟩ := hentry
  have hlength : 8 * words.length = archRegsSize := rfl
  have hsize : archRegsSize = 176 := rfl
  have hpage : pageSize = 4096 := rfl
  have hsp : (s.pushAll words).sp = kstackTop - archRegsSize := X86.pushAll_sp s words
  have hframe : Frame (s.pushAll words).mem (kstackTop - archRegsSize) u.saved.words := by
    rw [← ArchRegs.pushed]
    exact s.toStackMachine.pushAll_frame (show archRegsSize ≤ kstackTop by omega)
  rw [hentry]
  constructor
  · simp only [X86.call_sp, hsp]
    omega
  · simp only [X86.call_mem, hsp]
    apply Frame.cons_iff.mpr
    refine ⟨Mem.loadWord_storeWord_self _ _ _, ?_⟩
    rw [show kstackTop - archRegsSize - 8 + 8 = kstackTop - archRegsSize by omega]
    exact hframe.congr fun x hlo _ => Mem.storeWord_of_outside _ _ (by omega)

/-- `syscall` masks only `IF`: `NT` goes from the program to the kernel. -/
theorem syscallEntry_nested (u : UserState) (m : Mem) (kstackTop : ℕ) (entry doSyscall back : BitVec 64) :
    X86.nestedTask (syscallEntry kstackTop doSyscall back ((u.machine m).syscall entry)).rflags = X86.nestedTask u.rflags := by
  have hmask : (~~~X86.rflagsIf).getLsbD 14 = true := by decide
  have hset : X86.rflagsIf.getLsbD 14 = false := by decide
  simp only [syscallEntry, X86.call_rflags, X86.pushAll_rflags, X86.syscall, UserState.machine, X86.nestedTask,
    BitVec.getLsbD_or, BitVec.getLsbD_and, hmask, hset, Bool.and_true, Bool.or_false]

/-- The return path goes to the program that the frame on the stack describes, with the
return value in `rax`. -/
theorem syscallReturn_of_frame {u : UserState} {s : X86} (h : Frame s.mem s.sp u.saved.words) :
    syscallReturn s = (u.returned (s.regs .rax)).machine s.mem := by
  have hpop := (Frame.append_iff.mp
    (show Frame s.mem s.sp (popRegs.map u.saved.regs ++ u.saved.regs .rax :: u.saved.rest) from h)).1
  have hregs : (s.popAll popRegs).regs = Function.update u.saved.regs .rax (s.regs .rax) := by
    funext r
    have hr := StackMachine.popAll_regs s.toStackMachine u.saved.regs hpop r
    cases r <;> exact hr
  have hsp : (s.popAll popRegs).sp + 8 + 16 = s.sp + 8 * 17 := by
    rw [X86.popAll_sp]
    rfl
  have hrest (i : ℕ) (hi : i < 5) : s.mem.loadWord (s.sp + 8 * 17 + 8 * i) = (u.saved.rest.drop 2).get ⟨i, hi⟩ :=
    frame_rip h i hi
  have hrip : s.mem.loadWord (s.sp + 8 * 17) = u.rip := hrest 0 (by decide)
  have hrflags : s.mem.loadWord (s.sp + 8 * 17 + 8 + 8) = u.rflags := hrest 2 (by decide)
  have hrsp : s.mem.loadWord (s.sp + 8 * 17 + 8 + 8 + 8 + 8 * 0) = u.rsp := hrest 3 (by decide)
  unfold syscallReturn
  simp only [X86.popAll_one, X86.addRsp, X86.popAll_mem, hsp, hrip, hrflags, hregs, X86.top, hrsp, X86.sysret]
  have hregs' : Function.update (Function.update (Function.update u.saved.regs .rax (s.regs .rax)) .rcx u.rip) .r11 u.rflags =
      (u.returned (s.regs .rax)).regs := by
    funext r
    cases r <;> rfl
  rw [hregs']
  unfold UserState.machine
  congr 1
  exact u.flagsOk

/-- The frame of a system call, with the return value stored in it, resumes the same
program. -/
theorem UserState.saved_resumed (u : UserState) (w : BitVec 64) (m : Mem) :
    ({ u.saved with regs := Function.update u.saved.regs .rax w } : ArchRegs).resumed m = (u.returned w).machine m := by
  unfold ArchRegs.resumed UserState.machine
  congr 1
  exact u.iret_flags

/-! ## Fork -/

/-- A fork has returned twice: the parent behind the call of `do_syscall`, where the processor
is `ret`, and the child when the scheduler, where it is `sched`, switches to it. `regs` is the
frame of the child. -/
structure ForkReturnsTwice (u : UserState) (back popIret pid : BitVec 64) (ret sched : X86) (child : ArchThread)
    (regs : ArchRegs) : Prop where
  parent : ret.ret.rip = back ∧ syscallReturn ret.ret = (u.returned pid).machine ret.mem
  child : (contextSwitch sched child.rsp).2.rip = popIret ∧
    popAndIret (contextSwitch sched child.rsp).2 = some ((u.returned 0).machine (contextSwitch sched child.rsp).2.mem)
  frame : regs = u.saved

/-- A fork that succeeds reaches user mode twice, at the same place and with the same
registers except for `rax`, unless the scheduler runs with `NT` set: `syscall_init` masks only
`IF`, so the flag stays set in the kernel when a program that has set it blocks. The memories
between the steps named here are those of the kernel's C code: it leaves the frame of the
running system call alone, and the stack of the child until that is scheduled. -/
theorem fork_returns_twice_iff (u : UserState) (m : Mem) (entry doSyscall back popIret pid : BitVec 64)
    {parent dst child : ArchThread} {k k' : Kernel} {a : ℕ} {ret sched : X86}
    (hparent : pageSize ≤ parent.kstackTop)
    (hbody : ∀ x, parent.kstackTop - archRegsSize - 8 ≤ x → x < parent.kstackTop →
      k.mem x = (syscallEntry parent.kstackTop doSyscall back ((u.machine m).syscall entry)).mem x)
    (hfresh : ∀ page, k.frames.head? = some (some page) →
      page + pageSize ≤ parent.kstackTop - pageSize ∨ parent.kstackTop ≤ page)
    (hclone : archThreadCloneCurrent parent dst popIret k = (0, child, a, k'))
    (hsp : ret.sp = (syscallEntry parent.kstackTop doSyscall back ((u.machine m).syscall entry)).sp)
    (hret : ∀ x, parent.kstackTop - archRegsSize - 8 ≤ x → x < parent.kstackTop →
      ret.mem x = k'.mem.storeWord (a + 8 * Reg.rax.slot) 0 x)
    (hpid : ret.regs .rax = pid)
    (hsched : ∀ x, InFrame (child.kstackTop - pageSize) x →
      sched.mem x = k'.mem.storeWord (a + 8 * Reg.rax.slot) 0 x)
    (hroom : 48 ≤ sched.sp)
    (hstack : sched.sp ≤ child.kstackTop - pageSize ∨ child.kstackTop ≤ sched.sp - 48) :
    ForkReturnsTwice u back popIret pid ret sched child (loadArchRegs k'.mem a) ↔ X86.nestedTask sched.rflags = false := by
  constructor
  · intro h
    by_contra hnested
    rw [Bool.not_eq_false] at hnested
    have hfault := popAndIret_of_nested ((congrArg _ (contextSwitch_rflags sched child.rsp)).trans hnested)
    cases hfault.symm.trans h.child.2
  intro hflags
  have hsize : archRegsSize = 176 := rfl
  have hpage : pageSize = 4096 := rfl
  obtain ⟨hentrySp, hentry⟩ := syscallEntry_spec u m hparent entry doSyscall back
  have hframe : Frame k.mem (parent.kstackTop - archRegsSize) u.saved.words := by
    have htail : Frame k.mem (parent.kstackTop - archRegsSize - 8) (back :: u.saved.words) := by
      refine hentry.congr fun x hlo hhi => hbody x hlo ?_
      rw [List.length_cons, u.saved.words_length] at hhi
      omega
    rw [show parent.kstackTop - archRegsSize = parent.kstackTop - archRegsSize - 8 + 8 by omega]
    exact (Frame.cons_iff.mp htail).2
  obtain ⟨page, hanswer, hchild, hkeeps⟩ := archThreadCloneCurrent_spec hframe (by omega)
    (fun page hpage' => by have := hfresh page hpage'; omega) hclone
  have haway := hfresh page hanswer
  have htop := hchild.kstackTop
  have ha := hchild.regs
  have hslot : 8 * Reg.rax.slot = 112 := rfl
  refine ⟨?_, ?_, loadArchRegs_of_frame hchild.frame⟩
  · have hsaved : Frame ret.mem (parent.kstackTop - archRegsSize - 8) (back :: u.saved.words) := by
      refine hentry.congr fun x hlo hhi => ?_
      rw [List.length_cons, u.saved.words_length] at hhi
      rw [hret x hlo (by omega), Mem.storeWord_of_outside _ _ (by omega), hkeeps x (by unfold InFrame; omega)]
      exact hbody x hlo (by omega)
    obtain ⟨hback, hsaved⟩ := Frame.cons_iff.mp hsaved
    rw [show parent.kstackTop - archRegsSize - 8 = ret.sp by omega] at hback hsaved
    constructor
    · exact hback
    · rw [syscallReturn_of_frame (u := u) (s := ret.ret) hsaved, ← hpid]
      rfl
  · have hthread := (hchild.setRetval 0).congr fun x hx => hsched x (by rwa [htop, Nat.add_sub_cancel])
    have hrsp := hchild.rsp
    unfold onStackContextSize at hrsp
    obtain ⟨hswitchSp, hrip, hmem⟩ := contextSwitch_spec sched child.rsp hroom (by unfold retAddrOffset; omega)
    have hthread' := hthread.congr fun x hx => hmem x (by unfold InFrame at hx; omega)
    refine ⟨hrip.trans hthread.retAddr, ?_⟩
    rw [popAndIret_of_frame ((congrArg _ (contextSwitch_rflags sched child.rsp)).trans hflags)
      (by rw [hswitchSp, hchild.rsp]; exact hthread'.frame)]
    exact congrArg some (u.saved_resumed 0 _)

/-- A program about to fork. -/
def forkingUser : UserState where
  regs r := BitVec.ofNat 64 (r.slot + 1)
  rip := 0x10010
  rsp := 0x70003ff0
  rflags := 0x202
  flagsOk := by decide

/-- The same program, after a `popfq` that has set `NT`. -/
def nestedUser : UserState := { forkingUser with rflags := 0x4202, flagsOk := by decide }

/-- The kernel stack of either ends here. -/
def forkingThread : ArchThread := ⟨directMapStart + 0x3000, 0⟩

/-- The processor in `do_syscall`. -/
def forkingEntry (u : UserState) : X86 := syscallEntry forkingThread.kstackTop 0 1 ((u.machine fun _ => 0).syscall 2)

/-- The frame of the child's stack is the next one. -/
def forkingKernel (u : UserState) : Kernel := ⟨(forkingEntry u).mem, [some (directMapStart + 0x5000)], [], [], fun _ _ => 0, []⟩

/-- What `arch_thread_clone_current` makes of it. -/
def forkingClone (u : UserState) : Int × ArchThread × ℕ × Kernel :=
  archThreadCloneCurrent forkingThread ⟨0, 0⟩ 3 (forkingKernel u)

/-- The memory when `sys_fork` returns. -/
def forkedMem (u : UserState) : Mem :=
  (forkingClone u).2.2.2.mem.storeWord ((forkingClone u).2.2.1 + 8 * Reg.rax.slot) 0

/-- The processor in `do_syscall` at the end of `sys_fork`. -/
def forkingReturn (u : UserState) : X86 := { forkingEntry u with mem := forkedMem u, regs := fun _ => 2 }

/-- The processor in the scheduler once the parent has blocked. -/
def forkingSched (u : UserState) : X86 := { forkingEntry u with mem := forkedMem u, sp := directMapStart + 0x9000 }

theorem forkingSched_nested (u : UserState) : X86.nestedTask (forkingSched u).rflags = X86.nestedTask u.rflags := by
  simp only [forkingSched, forkingEntry, syscallEntry_nested]

theorem fork_returns_twice_two :
    ForkReturnsTwice forkingUser 1 3 2 (forkingReturn forkingUser) (forkingSched forkingUser) (forkingClone forkingUser).2.1
      (loadArchRegs (forkingClone forkingUser).2.2.2.mem (forkingClone forkingUser).2.2.1) := by
  have hframe (page : ℕ) (h : (forkingKernel forkingUser).frames.head? = some (some page)) :
      page = directMapStart + 0x5000 := by
    simpa [forkingKernel] using h.symm
  exact (@fork_returns_twice_iff forkingUser (fun _ => 0) 2 0 1 3 2 forkingThread ⟨0, 0⟩ (forkingClone forkingUser).2.1
    (forkingKernel forkingUser) (forkingClone forkingUser).2.2.2 (forkingClone forkingUser).2.2.1
    (forkingReturn forkingUser) (forkingSched forkingUser) (by decide) (fun _ _ _ => rfl)
    (fun page h => by rw [hframe page h]; decide) rfl rfl (fun _ _ _ => rfl) rfl (fun _ _ => rfl) (by decide)
    (by decide)).mpr (by rw [forkingSched_nested]; decide)

/-- The child of the program that has set `NT` never starts: the scheduler got the flag with
the parent's system call, and the child's `iretq` faults. -/
theorem fork_returns_once_nested :
    (forkingClone nestedUser).1 = 0 ∧ X86.nestedTask (forkingSched nestedUser).rflags = true ∧
      popAndIret (contextSwitch (forkingSched nestedUser) (forkingClone nestedUser).2.1.rsp).2 = none ∧
      ¬ForkReturnsTwice nestedUser 1 3 2 (forkingReturn nestedUser) (forkingSched nestedUser) (forkingClone nestedUser).2.1
        (loadArchRegs (forkingClone nestedUser).2.2.2.mem (forkingClone nestedUser).2.2.1) := by
  have hflags : X86.nestedTask (forkingSched nestedUser).rflags = true := by
    rw [forkingSched_nested]
    decide
  have hfault : popAndIret (contextSwitch (forkingSched nestedUser) (forkingClone nestedUser).2.1.rsp).2 = none :=
    popAndIret_of_nested (by rw [contextSwitch_rflags, hflags])
  exact ⟨rfl, hflags, hfault, fun h => by cases hfault.symm.trans h.child.2⟩

end HeavenOS
