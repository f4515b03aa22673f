/-
# Registers and frames

The registers that the kernel saves, the frame `arch_regs_t` that it saves them in, and the
macros of `arch/x86/syscall.asm` that push and pop it.
-/

import HeavenOS.Lib.Stack
import HeavenOS.Common

namespace HeavenOS

open Lib

/-! ## The processor -/

/-- The general registers other than `rsp`. -/
inductive Reg
  | rax | rbx | rcx | rdx | rsi | rdi | rbp | r8 | r9 | r10 | r11 | r12 | r13 | r14 | r15
  deriving DecidableEq

/-- The part of the processor that tasks and the kernel share; `rsp` is the stack pointer of
the machine. -/
structure X86 extends StackMachine Reg where
  rip : BitVec 64
  rflags : BitVec 64
  cs : BitVec 16
  ss : BitVec 16

namespace X86

/-- A sequence of `push`. -/
def pushAll (s : X86) (words : List (BitVec 64)) : X86 :=
  { s with toStackMachine := s.toStackMachine.pushAll words }

/-- A sequence of `pop`. -/
def popAll (s : X86) (rs : List Reg) : X86 := { s with toStackMachine := s.toStackMachine.popAll rs }

/-- `add rsp, bytes` -/
def addRsp (s : X86) (bytes : ℕ) : X86 := { s with sp := s.sp + bytes }

/-- The word on top of the stack. -/
def top (s : X86) (slot : ℕ) : BitVec 64 := s.mem.loadWord (s.sp + 8 * slot)

/-- Flags loaded from a word: the bits of the mask, and the bit that is always one. -/
def loadFlags (mask flags : BitVec 64) : BitVec 64 := flags &&& mask ||| 2

/-- The bits of `rflags` that `iretq` loads. -/
def iretMask : BitVec 64 := 0x3d7fd7

/-- The bits of `rflags` that `sysret` loads: all but the resume flag. -/
def sysretMask : BitVec 64 := 0x3c7fd7

/-- `RFLAGS_IF` -/
def rflagsIf : BitVec 64 := 1#64 <<< 9

/-- The flag of nested tasks, `NT`. -/
def nestedTask (rflags : BitVec 64) : Bool := rflags.getLsbD 14

/-- `iretq`. Long mode has no tasks to return to: while `NT` is set it is a general protection
fault. -/
def iretq (s : X86) : Option X86 :=
  if nestedTask s.rflags then none
  else
    some { s with
      rip := s.top 0
      cs := (s.top 1).setWidth 16
      rflags := loadFlags iretMask (s.top 2)
      sp := (s.top 3).toNat
      ss := (s.top 4).setWidth 16 }

/-- `call`: the return address is pushed. -/
def call (s : X86) (target back : BitVec 64) : X86 := { s.pushAll [back] with rip := target }

/-- `ret` -/
def ret (s : X86) : X86 := { s with rip := s.top 0, sp := s.sp + 8 }

@[simp]
theorem popAll_rip (s : X86) (rs : List Reg) : (s.popAll rs).rip = s.rip := rfl

@[simp]
theorem popAll_rflags (s : X86) (rs : List Reg) : (s.popAll rs).rflags = s.rflags := rfl

@[simp]
theorem pushAll_rflags (s : X86) (words : List (BitVec 64)) : (s.pushAll words).rflags = s.rflags := rfl

@[simp]
theorem popAll_mem (s : X86) (rs : List Reg) : (s.popAll rs).mem = s.mem := StackMachine.popAll_mem _ rs

theorem popAll_sp (s : X86) (rs : List Reg) : (s.popAll rs).sp = s.sp + 8 * rs.length := StackMachine.popAll_sp _ rs

theorem popAll_one (s : X86) (r : Reg) :
    s.popAll [r] = { s with regs := Function.update s.regs r (s.mem.loadWord s.sp), sp := s.sp + 8 } := rfl

@[simp]
theorem pushAll_regs (s : X86) (words : List (BitVec 64)) : (s.pushAll words).regs = s.regs :=
  StackMachine.pushAll_regs _ words

theorem pushAll_sp (s : X86) (words : List (BitVec 64)) : (s.pushAll words).sp = s.sp - 8 * words.length :=
  StackMachine.pushAll_sp _ words

@[simp]
theorem call_rflags (s : X86) (target back : BitVec 64) : (s.call target back).rflags = s.rflags := rfl

theorem call_sp (s : X86) (target back : BitVec 64) : (s.call target back).sp = s.sp - 8 := rfl

theorem call_mem (s : X86) (target back : BitVec 64) : (s.call target back).mem = s.mem.storeWord (s.sp - 8) back := rfl

theorem pushAll_append (s : X86) (words words' : List (BitVec 64)) :
    (s.pushAll words).pushAll words' = s.pushAll (words ++ words') := by
  unfold pushAll
  rw [StackMachine.pushAll_append]

end X86

/-! ## Segments -/

/-- `GDT_SEGMENT_SELECTOR(idx, rpl)` -/
def gdtSegmentSelector (idx rpl : BitVec 16) : BitVec 16 := idx <<< 3 ||| rpl

/-- `KERNEL_CODE_SEG` with the rights of ring 0. -/
def kernelCodeSeg : BitVec 16 := gdtSegmentSelector 1 0

/-- `USER_DATA_SEG` with the rights of ring 3. -/
def userDataSeg : BitVec 16 := gdtSegmentSelector 3 3

/-- `USER_CODE_SEG` with the rights of ring 3. -/
def userCodeSeg : BitVec 16 := gdtSegmentSelector 4 3

/-! ## The frame -/

/-- `arch_regs_t` -/
@[ext]
structure ArchRegs where
  regs : Reg → BitVec 64
  irqNum : BitVec 64
  errcode : BitVec 64
  rip : BitVec 64
  cs : BitVec 16
  rflags : BitVec 64
  rsp : BitVec 64
  ss : BitVec 16

/-- The general registers in the order of the members of `arch_regs_t`. -/
def frameRegs : List Reg :=
  [.r15, .r14, .r13, .r12, .r11, .r10, .r9, .r8, .rbp, .rdi, .rsi, .rdx, .rcx, .rbx, .rax]

/-- `sizeof(arch_regs_t)` -/
def archRegsSize : ℕ := 22 * 8

/-- The offset of a general register in `arch_regs_t`, in words. -/
def Reg.slot (r : Reg) : ℕ := frameRegs.idxOf r

/-- The members of the `arch_regs_t` at `a`. The segment selectors have two bytes and are
padded to eight. -/
def loadArchRegs (m : Mem) (a : ℕ) : ArchRegs where
  regs r := m.loadWord (a + 8 * r.slot)
  irqNum := m.loadWord (a + 8 * 15)
  errcode := m.loadWord (a + 8 * 16)
  rip := m.loadWord (a + 8 * 17)
  cs := (m.loadWord (a + 8 * 18)).setWidth 16
  rflags := m.loadWord (a + 8 * 19)
  rsp := m.loadWord (a + 8 * 20)
  ss := (m.loadWord (a + 8 * 21)).setWidth 16

namespace ArchRegs

/-- The words behind the general registers. -/
def rest (f : ArchRegs) : List (BitVec 64) :=
  [f.irqNum, f.errcode, f.rip, f.cs.setWidth 64, f.rflags, f.rsp, f.ss.setWidth 64]

/-- The words of a frame. -/
def words (f : ArchRegs) : List (BitVec 64) := frameRegs.map f.regs ++ f.rest

theorem words_length (f : ArchRegs) : f.words.length = 22 := rfl

end ArchRegs

/-- A frame decodes to what it was made of. -/
theorem loadArchRegs_of_frame {m : Mem} {a : ℕ} {f : ArchRegs} (h : Frame m a f.words) : loadArchRegs m a = f := by
  have hword (i : ℕ) (hi : i < 22) : m.loadWord (a + 8 * i) = f.words.get ⟨i, hi⟩ := h i hi
  have hregs : (loadArchRegs m a).regs = f.regs := by
    funext r
    cases r with
    | r15 => exact hword 0 (by decide)
    | r14 => exact hword 1 (by decide)
    | r13 => exact hword 2 (by decide)
    | r12 => exact hword 3 (by decide)
    | r11 => exact hword 4 (by decide)
    | r10 => exact hword 5 (by decide)
    | r9 => exact hword 6 (by decide)
    | r8 => exact hword 7 (by decide)
    | rbp => exact hword 8 (by decide)
    | rdi => exact hword 9 (by decide)
    | rsi => exact hword 10 (by decide)
    | rdx => exact hword 11 (by decide)
    | rcx => exact hword 12 (by decide)
    | rbx => exact hword 13 (by decide)
    | rax => exact hword 14 (by decide)
  apply ArchRegs.ext hregs (hword 15 (by decide)) (hword 16 (by decide)) (hword 17 (by decide))
  · rw [show (loadArchRegs m a).cs = (m.loadWord (a + 8 * 18)).setWidth 16 from rfl, hword 18 (by decide)]
    exact BitVec.setWidth_setWidth_of_le f.cs (by decide)
  · exact hword 19 (by decide)
  · exact hword 20 (by decide)
  · rw [show (loadArchRegs m a).ss = (m.loadWord (a + 8 * 21)).setWidth 16 from rfl, hword 21 (by decide)]
    exact BitVec.setWidth_setWidth_of_le f.ss (by decide)

/-! ## Saving and restoring -/

/-- `PUSH_REGS` -/
def pushRegs : List Reg :=
  [.rax, .rbx, .rcx, .rdx, .rsi, .rdi, .rbp, .r8, .r9, .r10, .r11, .r12, .r13, .r14, .r15]

/-- `POP_REGS 0`: `rax` is skipped. -/
def popRegs : List Reg :=
  [.r15, .r14, .r13, .r12, .r11, .r10, .r9, .r8, .rbp, .rdi, .rsi, .rdx, .rcx, .rbx]

/-- Pushing the members of a frame in the order of the entry paths leaves the frame. -/
theorem ArchRegs.pushed (f : ArchRegs) : (f.rest.reverse ++ pushRegs.map f.regs).reverse = f.words := by
  rw [List.reverse_append, List.reverse_reverse, ← List.map_reverse]
  rfl

/-- Writing to the member `rax` of a frame. -/
theorem ArchRegs.words_set_rax (f : ArchRegs) (w : BitVec 64) :
    f.words.set Reg.rax.slot w = { f with regs := Function.update f.regs .rax w }.words := rfl

theorem frame_rip {m : Mem} {a : ℕ} {f : ArchRegs} (h : Frame m a f.words) : Frame m (a + 8 * 17) (f.rest.drop 2) := by
  have hsplit : f.words = f.words.take 17 ++ f.rest.drop 2 := rfl
  rw [hsplit] at h
  exact (Frame.append_iff.mp h).2

end HeavenOS
