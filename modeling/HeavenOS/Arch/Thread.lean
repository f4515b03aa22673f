/-
# Kernel stacks and contexts

`context_switch` and `pop_and_iret`, and the functions of `arch/x86/x86.c` that make the
kernel stack of a new task. A context is the stack pointer below seven words; the frame that
the task goes to user mode with lies above them.
-/

import HeavenOS.Arch.Regs
import HeavenOS.Mm.PageTable

namespace HeavenOS

open Lib

/-! ## Switching -/

/-- `arch_thread_t`; the context consists of its stack pointer. -/
structure ArchThread where
  kstackTop : ℕ
  rsp : ℕ

/-- `sizeof(on_stack_context_t)` -/
def onStackContextSize : ℕ := 7 * 8

/-- The offset of `ret_addr` in `on_stack_context_t`. -/
def retAddrOffset : ℕ := 6 * 8

/-- `context_switch(curr, next)`: what it writes to `curr->rsp`, and the machine behind its
`ret`. -/
def contextSwitch (s : X86) (next : ℕ) : ℕ × X86 :=
  let s := s.pushAll ([.rbx, .rbp, .r12, .r13, .r14, .r15].map s.regs)
  let curr := s.sp
  let s : X86 := { s with sp := next }
  (curr, (s.popAll [.r15, .r14, .r13, .r12, .rbp, .rbx]).ret)

/-- `pop_and_iret`; `none` where its `iretq` faults. -/
def popAndIret (s : X86) : Option X86 := ((s.popAll (popRegs ++ [.rax])).addRsp 16).iretq

/-- The machine in the state that a frame describes. -/
def ArchRegs.resumed (f : ArchRegs) (m : Mem) : X86 where
  regs := f.regs
  sp := f.rsp.toNat
  mem := m
  rip := f.rip
  rflags := X86.loadFlags X86.iretMask f.rflags
  cs := f.cs
  ss := f.ss

/-- A switch changes the stack that it leaves, and goes where the other context says. -/
theorem contextSwitch_spec (s : X86) (next : ℕ) (hroom : 48 ≤ s.sp)
    (hout : next + retAddrOffset + 8 ≤ s.sp - 48 ∨ s.sp ≤ next + retAddrOffset) :
    (contextSwitch s next).2.sp = next + onStackContextSize ∧
      (contextSwitch s next).2.rip = s.mem.loadWord (next + retAddrOffset) ∧
      ∀ x, x < s.sp - 48 ∨ s.sp ≤ x → (contextSwitch s next).2.mem x = s.mem x := by
  have hmem (x : ℕ) (hx : x < s.sp - 48 ∨ s.sp ≤ x) :
      (s.pushAll ([.rbx, .rbp, .r12, .r13, .r14, .r15].map s.regs)).mem x = s.mem x :=
    StackMachine.pushAll_mem_of_outside s.toStackMachine (by exact hroom) hx
  have hsp (t : X86) : (t.popAll [.r15, .r14, .r13, .r12, .rbp, .rbx]).sp = t.sp + 48 := X86.popAll_sp t _
  refine ⟨?_, ?_, ?_⟩
  · simp only [contextSwitch, X86.ret, hsp]
    rfl
  · simp only [contextSwitch, X86.ret, X86.top, hsp, X86.popAll_mem]
    exact Mem.loadWord_congr fun x hlo hhi => hmem x (by unfold retAddrOffset at *; omega)
  · intro x hx
    simp only [contextSwitch, X86.ret, X86.popAll_mem]
    exact hmem x hx

/-- A switch keeps the flags. -/
theorem contextSwitch_rflags (s : X86) (next : ℕ) : (contextSwitch s next).2.rflags = s.rflags := by
  simp only [contextSwitch, X86.ret, X86.popAll_rflags, X86.pushAll_rflags]

/-- `pop_and_iret` resumes the frame on top of the stack. -/
theorem popAndIret_of_frame {s : X86} {f : ArchRegs} (hflags : X86.nestedTask s.rflags = false)
    (h : Frame s.mem s.sp f.words) : popAndIret s = some (f.resumed s.mem) := by
  have hpop := (Frame.append_iff.mp h).1
  have hregs : (s.popAll (popRegs ++ [.rax])).regs = f.regs := by
    funext r
    have hr := StackMachine.popAll_regs s.toStackMachine f.regs hpop r
    rwa [if_pos (by cases r <;> decide)] at hr
  have hsp : ((s.popAll (popRegs ++ [.rax])).addRsp 16).sp = s.sp + 8 * 17 := by
    simp only [X86.addRsp, X86.popAll_sp]
    rfl
  have hrest := frame_rip h
  have htop (i : ℕ) (hi : i < 5) :
      ((s.popAll (popRegs ++ [.rax])).addRsp 16).top i = (f.rest.drop 2).get ⟨i, hi⟩ := by
    rw [X86.top, hsp]
    exact hrest i hi
  have hclear : ¬X86.nestedTask ((s.popAll (popRegs ++ [.rax])).addRsp 16).rflags = true := by
    simp only [X86.addRsp, X86.popAll_rflags, hflags, Bool.false_eq_true, not_false_iff]
  unfold popAndIret X86.iretq ArchRegs.resumed
  rw [if_neg hclear, htop 0 (by decide), htop 1 (by decide), htop 2 (by decide), htop 3 (by decide), htop 4 (by decide)]
  simp only [X86.addRsp, X86.popAll_mem, hregs]
  refine congrArg some ?_
  congr 1
  · exact BitVec.setWidth_setWidth_of_le f.cs (by decide)
  · exact BitVec.setWidth_setWidth_of_le f.ss (by decide)

/-- With `NT` set `pop_and_iret` does not get to user mode, whatever is on the stack. -/
theorem popAndIret_of_nested {s : X86} (hflags : X86.nestedTask s.rflags = true) : popAndIret s = none := if_pos hflags

/-! ## Kernel stacks -/

/-- `allocate_kstack`: the error code, and what it leaves in `th->kstack_top`. -/
def allocateKstack (k : Kernel) : Int × ℕ × Kernel :=
  let (kstackTop, k) := frameAlloc k
  if kstackTop = 0 then (-enomem, kstackTop, k)
  else (0, kstackTop + pageSize, { k with mem := k.mem.memset kstackTop 0 pageSize })

/-- `arch_thread_new(th, NULL)`; the two words are the addresses of `user_program` and of
`pop_and_iret`. -/
def archThreadNew (th : ArchThread) (userProgram popAndIret : BitVec 64) (k : Kernel) : Int × ArchThread × Kernel :=
  let (err, kstackTop, k) := allocateKstack k
  let th := { th with kstackTop := kstackTop }
  if err < 0 then (err, th, k)
  else
    let regs := th.kstackTop - archRegsSize
    let mem := k.mem.storeWord (regs + 8 * 20) (0x70000000 + 4 * 4096)
    let mem := mem.storeU16 (regs + 8 * 21) userDataSeg
    let mem := mem.storeWord (regs + 8 * 17) userProgram
    let mem := mem.storeU16 (regs + 8 * 18) userCodeSeg
    let mem := mem.storeWord (regs + 8 * 19) X86.rflagsIf
    let rsp := regs - onStackContextSize
    let mem := mem.storeWord (rsp + retAddrOffset) popAndIret
    (0, { th with rsp := rsp }, { k with mem := mem })

/-- `arch_thread_clone_current(dst, regs)` for the current task's `src`; the third component
is what it leaves in `*regs`. -/
def archThreadCloneCurrent (src dst : ArchThread) (popAndIret : BitVec 64) (k : Kernel) :
    Int × ArchThread × ℕ × Kernel :=
  let (err, kstackTop, k) := allocateKstack k
  let dst := { dst with kstackTop := kstackTop }
  if err < 0 then (err, dst, 0, k)
  else
    let dst := { dst with rsp := dst.kstackTop - archRegsSize }
    let k := { k with mem := k.mem.memcpy dst.rsp (src.kstackTop - archRegsSize) archRegsSize }
    let regs := dst.rsp
    let dst := { dst with rsp := dst.rsp - onStackContextSize }
    let k := { k with mem := k.mem.storeWord (dst.rsp + retAddrOffset) popAndIret }
    (0, dst, regs, k)

/-- `arch_thread_destroy` -/
def archThreadDestroy (th : ArchThread) (k : Kernel) : Kernel := frameFree k (th.kstackTop - pageSize)

/-- A thread has got a stack: the next frame, and only that was written to. -/
structure NewStack (kstackTop page : ℕ) (k k' : Kernel) : Prop where
  kstackTop : kstackTop = page + pageSize
  frames : k.frames = some page :: k'.frames
  freed : k'.freed = k.freed.filter (· ≠ page)
  mem : ∀ x, ¬InFrame page x → k'.mem x = k.mem x

/-- Writing to the stack. -/
theorem NewStack.write {kstackTop page : ℕ} {k k' : Kernel} (h : NewStack kstackTop page k k') {m : Mem}
    (hmem : ∀ x, ¬InFrame page x → m x = k'.mem x) : NewStack kstackTop page k { k' with mem := m } :=
  ⟨h.kstackTop, h.frames, h.freed, fun x hx => (hmem x hx).trans (h.mem x hx)⟩

theorem allocateKstack_spec {k k' : Kernel} {err : Int} {kstackTop : ℕ}
    (hrun : allocateKstack k = (err, kstackTop, k')) (herr : 0 ≤ err) : ∃ page, NewStack kstackTop page k k' := by
  cases hframes : k.frames with
  | nil =>
      simp only [allocateKstack, frameAlloc, hframes, if_true, Prod.mk.injEq] at hrun
      exact absurd herr (by rw [← hrun.1]; decide)
  | cons answer frames =>
      cases answer with
      | none =>
          simp only [allocateKstack, frameAlloc, hframes, if_true, Prod.mk.injEq] at hrun
          exact absurd herr (by rw [← hrun.1]; decide)
      | some page =>
          simp only [allocateKstack, frameAlloc, hframes] at hrun
          split_ifs at hrun
          · exact absurd herr (by rw [← (Prod.mk.inj hrun).1]; decide)
          · obtain ⟨-, hrest⟩ := Prod.mk.inj hrun
            obtain ⟨rfl, rfl⟩ := Prod.mk.inj hrest
            refine ⟨page, rfl, hframes, rfl, fun x hx => ?_⟩
            unfold InFrame at hx
            show ((k.mem.memset page 0 pageSize).memset page 0 pageSize) x = k.mem x
            rw [Mem.memset_apply, if_neg hx, Mem.memset_apply, if_neg hx]

/-- A new thread has a stack, with its frame and its context on it. -/
theorem archThreadNew_stack {th th' : ArchThread} {userProgram back : BitVec 64} {k k' : Kernel} {err : Int}
    (hrun : archThreadNew th userProgram back k = (err, th', k')) (herr : 0 ≤ err) :
    ∃ page, NewStack th'.kstackTop page k k' := by
  unfold archThreadNew at hrun
  cases halloc : allocateKstack k with
  | mk err1 out =>
      obtain ⟨kstackTop, k1⟩ := out
      rw [halloc] at hrun
      simp only at hrun
      split_ifs at hrun with hneg
      · obtain ⟨rfl, -⟩ := Prod.mk.inj hrun
        omega
      · obtain ⟨-, rfl, rfl⟩ : _ ∧ _ ∧ _ := by simpa using hrun
        obtain ⟨page, hstack⟩ := allocateKstack_spec halloc (by omega)
        refine ⟨page, hstack.write fun x hx => ?_⟩
        have htop := hstack.kstackTop
        unfold InFrame pageSize at hx
        unfold archRegsSize onStackContextSize retAddrOffset
        unfold pageSize at htop
        rw [Mem.storeWord_of_outside _ _ (by omega), Mem.storeWord_of_outside _ _ (by omega),
          Mem.storeU16_of_outside _ _ (by omega), Mem.storeWord_of_outside _ _ (by omega),
          Mem.storeU16_of_outside _ _ (by omega), Mem.storeWord_of_outside _ _ (by omega)]

/-- A clone has a stack, apart from that of the current task. -/
theorem archThreadCloneCurrent_stack {src dst th : ArchThread} {back : BitVec 64} {k k' : Kernel} {err : Int} {regs : ℕ}
    (hrun : archThreadCloneCurrent src dst back k = (err, th, regs, k')) (herr : 0 ≤ err)
    (hsrc : archRegsSize ≤ src.kstackTop)
    (hfresh : ∀ page, k.frames.head? = some (some page) →
      page + pageSize ≤ src.kstackTop - archRegsSize ∨ src.kstackTop ≤ page) :
    ∃ page, NewStack th.kstackTop page k k' ∧ regs + archRegsSize = page + pageSize := by
  unfold archThreadCloneCurrent at hrun
  cases halloc : allocateKstack k with
  | mk err1 out =>
      obtain ⟨kstackTop, k1⟩ := out
      rw [halloc] at hrun
      simp only at hrun
      split_ifs at hrun with hneg
      · obtain ⟨rfl, -⟩ := Prod.mk.inj hrun
        omega
      · obtain ⟨-, rfl, rfl, rfl⟩ : _ ∧ _ ∧ _ ∧ _ := by simpa using hrun
        obtain ⟨page, hstack⟩ := allocateKstack_spec halloc (by omega)
        have htop := hstack.kstackTop
        have hout := hfresh page (by rw [hstack.frames]; rfl)
        unfold pageSize at htop hout
        have hsize : archRegsSize = 176 := rfl
        refine ⟨page, hstack.write fun x hx => ?_, by unfold pageSize; omega⟩
        unfold InFrame pageSize at hx
        unfold onStackContextSize retAddrOffset
        rw [Mem.storeWord_of_outside _ _ (by omega), Mem.memcpy_of_outside _ (by omega) (by omega)]

/-- What the clone of a thread looks like in memory: on a page of its own the frame `f` at
`a`, and below it what `context_switch` returns to. -/
structure ClonedThread (page a : ℕ) (f : ArchRegs) (back : BitVec 64) (th : ArchThread) (m : Mem) : Prop where
  kstackTop : th.kstackTop = page + pageSize
  regs : a + archRegsSize = page + pageSize
  rsp : th.rsp + onStackContextSize = a
  frame : Frame m a f.words
  retAddr : m.loadWord (th.rsp + retAddrOffset) = back

section Clone

variable {page a : ℕ} {f : ArchRegs} {back : BitVec 64} {th : ArchThread} {m m' : Mem}

/-- The thread lies within its page. -/
theorem ClonedThread.congr (h : ClonedThread page a f back th m) (hsame : ∀ x, InFrame page x → m' x = m x) :
    ClonedThread page a f back th m' := by
  have hregs := h.regs
  have hrsp := h.rsp
  unfold archRegsSize pageSize at hregs
  unfold onStackContextSize at hrsp
  refine ⟨h.kstackTop, h.regs, h.rsp, h.frame.congr fun x hlo hhi => hsame x ?_, ?_⟩
  · rw [f.words_length] at hhi
    unfold InFrame pageSize
    omega
  · rw [← h.retAddr]
    refine Mem.loadWord_congr fun x hlo hhi => hsame x ?_
    unfold retAddrOffset at hlo hhi
    unfold InFrame pageSize
    omega

/-- `arch_regs_set_retval` on the frame of the clone. -/
theorem ClonedThread.setRetval (h : ClonedThread page a f back th m) (w : BitVec 64) :
    ClonedThread page a { f with regs := Function.update f.regs .rax w } back th
      (m.storeWord (a + 8 * Reg.rax.slot) w) := by
  have hrsp := h.rsp
  unfold onStackContextSize at hrsp
  refine ⟨h.kstackTop, h.regs, h.rsp, ?_, ?_⟩
  · rw [← f.words_set_rax]
    exact h.frame.set w
  · rw [← h.retAddr]
    refine Mem.loadWord_storeWord_of_disjoint m w (Or.inr ?_)
    unfold retAddrOffset
    omega

/-- Where the current task's frame lies on top of its stack, a successful clone has the same
frame on a page of its own. -/
theorem archThreadCloneCurrent_spec {src dst : ArchThread} {k k' : Kernel}
    (hframe : Frame k.mem (src.kstackTop - archRegsSize) f.words) (hsrc : archRegsSize ≤ src.kstackTop)
    (hfresh : ∀ page, k.frames.head? = some (some page) →
      page + pageSize ≤ src.kstackTop - archRegsSize ∨ src.kstackTop ≤ page)
    (hrun : archThreadCloneCurrent src dst back k = (0, th, a, k')) :
    ∃ page, k.frames.head? = some (some page) ∧ ClonedThread page a f back th k'.mem ∧
      ∀ x, ¬InFrame page x → k'.mem x = k.mem x := by
  cases hframes : k.frames with
  | nil => simp [archThreadCloneCurrent, allocateKstack, frameAlloc, hframes, enomem] at hrun
  | cons answer frames =>
    cases answer with
    | none => simp [archThreadCloneCurrent, allocateKstack, frameAlloc, hframes, enomem] at hrun
    | some page =>
      have hout := hfresh page (by rw [hframes]; rfl)
      by_cases hzero : page = 0
      · simp [archThreadCloneCurrent, allocateKstack, frameAlloc, hframes, enomem, hzero] at hrun
      · simp only [archThreadCloneCurrent, allocateKstack, frameAlloc, hframes, if_neg hzero, Int.lt_irrefl, if_false,
          Prod.mk.injEq, true_and] at hrun
        obtain ⟨rfl, rfl, rfl⟩ := hrun
        have hsize : archRegsSize = 176 := rfl
        have hcontext : onStackContextSize = 56 := rfl
        have hoffset : retAddrOffset = 48 := rfl
        have hpage : pageSize = 4096 := rfl
        have hcopy (x : ℕ) := ((k.mem.memset page 0 pageSize).memset page 0 pageSize).memcpy_apply
            (show page + pageSize - archRegsSize + archRegsSize ≤ src.kstackTop - archRegsSize ∨
              src.kstackTop - archRegsSize + archRegsSize ≤ page + pageSize - archRegsSize by omega) x
        have hzeroed (x : ℕ) (hx : ¬InFrame page x) : ((k.mem.memset page 0 pageSize).memset page 0 pageSize) x = k.mem x := by
          unfold InFrame at hx
          rw [Mem.memset_apply, if_neg hx, Mem.memset_apply, if_neg hx]
        have hstore (x : ℕ) (hx : x < page + pageSize - archRegsSize - onStackContextSize + retAddrOffset ∨
            page + pageSize - archRegsSize - onStackContextSize + retAddrOffset + 8 ≤ x) :=
          (Mem.storeWord_of_outside _ back hx).trans (hcopy x)
        refine ⟨page, rfl, ⟨rfl, by omega, ?_, ?_, Mem.loadWord_storeWord_self _ _ _⟩, fun x hx => ?_⟩
        · change page + pageSize - archRegsSize - onStackContextSize + onStackContextSize = _
          omega
        · refine hframe.copy fun i hi => ?_
          rw [f.words_length] at hi
          refine (hstore _ (by omega)).trans ?_
          rw [if_pos (by omega), Nat.add_sub_cancel_left]
          apply hzeroed
          unfold InFrame
          omega
        · have hx' := hx
          unfold InFrame at hx'
          refine (hstore x (by omega)).trans ?_
          rw [if_neg (by omega)]
          exact hzeroed x hx

end Clone

end HeavenOS
