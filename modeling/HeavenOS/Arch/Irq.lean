/-
# Interrupt entry

The stubs of `arch/x86/irq_asm.asm`. The processor stops a program or the kernel between two
instructions and pushes what it needs to resume; the stub completes this to the frame that
`irq_handler` works on. Whether there is an error code is decided twice, by the processor and
by the second parameter of `IRQ_ENTRY`.
-/

import HeavenOS.Arch.Syscall

namespace HeavenOS

open Lib

/-! ## Delivery -/

/-- The vectors for which the processor pushes an error code. -/
def pushesErrcode (vec : ℕ) : Bool := vec = 8 ∨ 10 ≤ vec ∧ vec ≤ 14

/-- `rflags` bits that an interrupt gate clears: `TF`, `IF`, `NT`, `RF`. -/
def gateClears : BitVec 64 := 1#64 <<< 8 ||| 1#64 <<< 9 ||| 1#64 <<< 14 ||| 1#64 <<< 16

namespace X86

/-- The processor is in ring 3. -/
def InUser (s : X86) : Prop := s.cs &&& 3 = 3

instance (s : X86) : Decidable s.InUser := inferInstanceAs (Decidable (_ = _))

/-- Where the processor starts to push: from user mode at `tss.rsp0`, and in the kernel on the
stack it is on, aligned to 16 bytes. -/
def interruptStack (s : X86) (rsp0 : ℕ) : ℕ :=
  let sp := if s.InUser then rsp0 else s.sp
  sp - sp % 16

/-- Delivery of `vec` through an interrupt gate. -/
def deliver (s : X86) (rsp0 vec : ℕ) (errcode entry : BitVec 64) : X86 :=
  let t : X86 := { s with sp := s.interruptStack rsp0 }
  let t := t.pushAll [s.ss.setWidth 64, BitVec.ofNat 64 s.sp, s.rflags, s.cs.setWidth 64, s.rip]
  let t := if pushesErrcode vec then t.pushAll [errcode] else t
  { t with
    rip := entry
    rflags := s.rflags &&& ~~~gateClears
    cs := kernelCodeSeg
    ss := if s.InUser then 0 else s.ss }

end X86

/-! ## The stubs -/

/-- The instances of `IRQ_ENTRY`: the vector, and whether it is declared `ERRCODE`. The same
vectors are given interrupt gates by `irq_init`. -/
def irqEntries : List (ℕ × Bool) :=
  [(6, true), (7, false), (8, true), (10, true), (11, true), (12, true), (13, true), (14, true), (32, false), (39, false)]

/-- `IRQ_ENTRY vec, errcode` up to the first instruction of `irq_handler`. -/
def irqEntry (vec : ℕ) (errcode : Bool) (irqHandler back : BitVec 64) (s : X86) : X86 :=
  let s := if !errcode then s.pushAll [0] else s
  let s := s.pushAll [BitVec.ofNat 64 vec]
  let s := s.pushAll (pushRegs.map s.regs)
  let s : X86 := { s with regs := Function.update s.regs .rdi (BitVec.ofNat 64 s.sp) }
  s.call irqHandler back

/-- `IRQ_ENTRY` behind the call of `irq_handler`; `none` where its `iretq` faults. -/
def irqReturn (s : X86) : Option X86 := ((s.popAll (popRegs ++ [.rax])).addRsp 16).iretq

/-! ## Exactness -/

/-- The processor between two instructions of a program or of the kernel. -/
structure Interrupted extends X86 where
  rsp0 : ℕ
  seg : cs = kernelCodeSeg ∨ cs = userCodeSeg
  flagsOk : X86.loadFlags X86.iretMask rflags = rflags
  spLt : sp < 2 ^ 64
  rsp0Lt : rsp0 < 2 ^ 64
  /-- No kernel stack ends in the first page. -/
  room : pageSize ≤ toX86.interruptStack rsp0

/-- The state in which `irq_handler` is entered. -/
def Interrupted.entered (s : Interrupted) (vec : ℕ) (declared : Bool) (errcode entry irqHandler back : BitVec 64) : X86 :=
  irqEntry vec declared irqHandler back (s.deliver s.rsp0 vec errcode entry)

/-- The frame holds what was interrupted. -/
structure Decodes (s : X86) (vec : ℕ) (errcode : BitVec 64) (f : ArchRegs) : Prop where
  regs : f.regs = s.regs
  irqNum : f.irqNum = BitVec.ofNat 64 vec
  errcode : f.errcode = if pushesErrcode vec then errcode else 0
  rip : f.rip = s.rip
  cs : f.cs = s.cs
  rflags : f.rflags = s.rflags
  rsp : f.rsp = BitVec.ofNat 64 s.sp
  ss : f.ss = s.ss

/-- `t` is `s` again, on whatever memory. -/
structure X86.Resumes (s t : X86) : Prop where
  regs : t.regs = s.regs
  rip : t.rip = s.rip
  cs : t.cs = s.cs
  rflags : t.rflags = s.rflags
  sp : t.sp = s.sp
  ss : t.ss = s.ss

/-- The frame that `irq_handler` gets holds what was interrupted, and a handler that returns
with these flags and leaves the frame alone lets that continue. -/
def IrqExact (s : Interrupted) (vec : ℕ) (declared : Bool) (flags : BitVec 64) : Prop :=
  ∀ errcode entry irqHandler back,
    let t := s.entered vec declared errcode entry irqHandler back
    Decodes s.toX86 vec errcode (loadArchRegs t.mem (t.regs .rdi).toNat) ∧
      ∀ ret : X86, ret.rflags = flags → ret.sp = t.sp →
        (∀ x, t.sp ≤ x → x < t.sp + 8 + archRegsSize → ret.mem x = t.mem x) →
          ret.ret.rip = back ∧ ∃ t', irqReturn ret.ret = some t' ∧ s.toX86.Resumes t'

/-! ## The stack of a handler -/

/-- What a stub pushes. -/
def stubWords (vec : ℕ) (declared : Bool) (regs : Reg → BitVec 64) : List (BitVec 64) :=
  (if declared then [] else [0]) ++ BitVec.ofNat 64 vec :: pushRegs.map regs

theorem irqEntry_eq (vec : ℕ) (declared : Bool) (irqHandler back : BitVec 64) (s : X86) :
    irqEntry vec declared irqHandler back s =
      ({ s.pushAll (stubWords vec declared s.regs) with
        regs := Function.update s.regs .rdi (BitVec.ofNat 64 (s.pushAll (stubWords vec declared s.regs)).sp) } : X86).call
          irqHandler back := by
  cases declared with
  | false =>
      simp only [irqEntry, Bool.not_false, if_true, X86.pushAll_append, X86.pushAll_regs, stubWords, Bool.false_eq_true, if_false]
      rfl
  | true =>
      simp only [irqEntry, Bool.not_true, if_false, X86.pushAll_append, X86.pushAll_regs, stubWords, Bool.false_eq_true, if_true]
      rfl

namespace Interrupted

/-- What the processor pushes. -/
def words (s : Interrupted) (vec : ℕ) (errcode : BitVec 64) : List (BitVec 64) :=
  [s.ss.setWidth 64, BitVec.ofNat 64 s.sp, s.rflags, s.cs.setWidth 64, s.rip] ++ if pushesErrcode vec then [errcode] else []

theorem deliver_toStackMachine (s : Interrupted) (vec : ℕ) (errcode entry : BitVec 64) :
    (s.deliver s.rsp0 vec errcode entry).toStackMachine =
      StackMachine.pushAll ⟨s.regs, s.interruptStack s.rsp0, s.mem⟩ (s.words vec errcode) := by
  unfold X86.deliver words
  cases hpush : pushesErrcode vec with
  | false => rfl
  | true => rfl

/-- The stack in `irq_handler`. -/
theorem entered_spec (s : Interrupted) (vec : ℕ) (declared : Bool) (errcode entry irqHandler back : BitVec 64)
    (words : List (BitVec 64)) (hwords : words = (s.words vec errcode ++ stubWords vec declared s.regs).reverse) :
    let t := s.entered vec declared errcode entry irqHandler back
    t.sp + 8 + 8 * words.length = s.interruptStack s.rsp0 ∧ Frame t.mem t.sp (back :: words) ∧
      (t.regs .rdi).toNat = t.sp + 8 := by
  intro t
  have hpage : pageSize = 4096 := rfl
  have hroom := s.room
  have hlength : words.length ≤ 23 := by
    rw [hwords, List.length_reverse, List.length_append]
    have hcpu : (s.words vec errcode).length ≤ 6 := by
      unfold Interrupted.words
      cases pushesErrcode vec <;> simp
    have hstub : (stubWords vec declared s.regs).length ≤ 17 := by
      unfold stubWords
      cases declared <;> simp [pushRegs]
    omega
  have hbound : s.interruptStack s.rsp0 < 2 ^ 64 := by
    have hsp := s.spLt
    have hrsp0 := s.rsp0Lt
    unfold X86.interruptStack
    by_cases huser : s.InUser
    · simp only [if_pos huser]
      omega
    · simp only [if_neg huser]
      omega
  set stack : StackMachine Reg := ⟨s.regs, s.interruptStack s.rsp0, s.mem⟩ with hstack
  have hdelivered := s.deliver_toStackMachine vec errcode entry
  have hregs : (s.deliver s.rsp0 vec errcode entry).regs = s.regs := by
    rw [hdelivered, StackMachine.pushAll_regs]
  have hpushed : ((s.deliver s.rsp0 vec errcode entry).pushAll (stubWords vec declared s.regs)).toStackMachine =
      stack.pushAll words.reverse := by
    rw [X86.pushAll, hdelivered, ← StackMachine.pushAll_append, hwords, List.reverse_reverse]
  set u := (s.deliver s.rsp0 vec errcode entry).pushAll (stubWords vec declared s.regs) with hu
  have hsp : u.sp = s.interruptStack s.rsp0 - 8 * words.length := by
    rw [hpushed, StackMachine.pushAll_sp, List.length_reverse]
  have hframe : Frame u.mem (s.interruptStack s.rsp0 - 8 * words.length) words := by
    have h := @StackMachine.pushAll_frame _ stack words.reverse (by
      rw [List.length_reverse]
      change _ ≤ s.interruptStack s.rsp0
      omega)
    rwa [List.length_reverse, List.reverse_reverse, ← hpushed] at h
  have ht : t = ({ u with regs := Function.update s.regs .rdi (BitVec.ofNat 64 u.sp) } : X86).call irqHandler back := by
    simp only [t, entered, irqEntry_eq, hregs]
    rfl
  rw [ht]
  simp only [X86.call_sp, X86.call_mem, hsp]
  refine ⟨by omega, Frame.cons_iff.mpr ⟨Mem.loadWord_storeWord_self _ _ _, ?_⟩, ?_⟩
  · rw [show s.interruptStack s.rsp0 - 8 * words.length - 8 + 8 = s.interruptStack s.rsp0 - 8 * words.length by omega]
    exact hframe.congr fun x hlo _ => Mem.storeWord_of_outside _ _ (by omega)
  · change (BitVec.ofNat 64 (s.interruptStack s.rsp0 - 8 * words.length)).toNat = _
    rw [BitVec.toNat_ofNat, Nat.mod_eq_of_lt (by omega)]
    omega

/-- The frame of the interrupted state. -/
def frame (s : Interrupted) (vec : ℕ) (errcode : BitVec 64) : ArchRegs where
  regs := s.regs
  irqNum := BitVec.ofNat 64 vec
  errcode := if pushesErrcode vec then errcode else 0
  rip := s.rip
  cs := s.cs
  rflags := s.rflags
  rsp := BitVec.ofNat 64 s.sp
  ss := s.ss

/-- Where the stub is declared right, what is pushed is the frame. -/
theorem words_of_declared (s : Interrupted) {vec : ℕ} {declared : Bool} (h : declared = pushesErrcode vec) (errcode : BitVec 64) :
    (s.frame vec errcode).words = (s.words vec errcode ++ stubWords vec declared s.regs).reverse := by
  rw [← ArchRegs.pushed, h]
  unfold words stubWords frame
  cases pushesErrcode vec with
  | false => rfl
  | true => rfl

/-- The frame resumes the state. -/
theorem frame_resumes (s : Interrupted) (vec : ℕ) (errcode : BitVec 64) (m : Mem) :
    s.toX86.Resumes ((s.frame vec errcode).resumed m) where
  regs := rfl
  rip := rfl
  cs := rfl
  rflags := s.flagsOk
  sp := by
    change (BitVec.ofNat 64 s.sp).toNat = s.sp
    rw [BitVec.toNat_ofNat, Nat.mod_eq_of_lt s.spLt]
  ss := rfl

theorem exact_of_declared (s : Interrupted) {vec : ℕ} {declared : Bool} {flags : BitVec 64}
    (h : declared = pushesErrcode vec) (hflags : X86.nestedTask flags = false) : IrqExact s vec declared flags := by
  intro errcode entry irqHandler back t
  obtain ⟨hsp, hframe, hrdi⟩ := s.entered_spec vec declared errcode entry irqHandler back _ (s.words_of_declared h errcode)
  change Frame t.mem t.sp _ at hframe
  change (t.regs .rdi).toNat = t.sp + 8 at hrdi
  constructor
  · rw [hrdi, loadArchRegs_of_frame (Frame.cons_iff.mp hframe).2]
    exact ⟨rfl, rfl, rfl, rfl, rfl, rfl, rfl, rfl⟩
  · intro ret hretFlags hret hsame
    have hkept := hframe.congr (fun x hlo hhi => hsame x hlo (by
      rw [List.length_cons, ArchRegs.words_length] at hhi
      unfold archRegsSize
      omega))
    obtain ⟨hback, hrest⟩ := Frame.cons_iff.mp hkept
    rw [← hret] at hback hrest
    exact ⟨hback, _, popAndIret_of_frame (hretFlags ▸ hflags) hrest, s.frame_resumes vec errcode _⟩

/-- A handler that returns with `NT` set does not get back, for no vector: the `iretq` of the
stub faults. -/
theorem not_exact_nested (s : Interrupted) {vec : ℕ} {declared : Bool} {flags : BitVec 64}
    (hflags : X86.nestedTask flags = true) : ¬IrqExact s vec declared flags := by
  intro h
  obtain ⟨-, hreturn⟩ := h 0 0 0 0
  generalize s.entered vec declared 0 0 0 0 = t at hreturn
  obtain ⟨-, t', hiret, -⟩ := hreturn { t with rflags := flags } rfl rfl fun _ _ _ => rfl
  have hfault : irqReturn ({ t with rflags := flags } : X86).ret = none := popAndIret_of_nested hflags
  cases hfault.symm.trans hiret

/-- Reserved bits of `rflags` are clear. -/
theorem reserved_clear (s : Interrupted) {i : ℕ} (hmask : (X86.iretMask ||| 2).getLsbD i = false) :
    s.rflags.getLsbD i = false := by
  rw [BitVec.getLsbD_or, Bool.or_eq_false_iff] at hmask
  rw [← s.flagsOk, X86.loadFlags, BitVec.getLsbD_or, BitVec.getLsbD_and, hmask.1, hmask.2, Bool.and_false, Bool.or_false]

/-- Vector 6 comes without an error code, and its stub expects one: the frame lacks a word, and
what should be the code segment are the flags. -/
theorem not_exact_six (s : Interrupted) (flags : BitVec 64) : ¬IrqExact s 6 true flags := by
  intro h
  obtain ⟨hdecodes, -⟩ := h 0 0 0 0
  obtain ⟨-, hframe, hrdi⟩ := s.entered_spec 6 true 0 0 0 0 _ rfl
  have hcs := hdecodes.cs
  have hflags := (Frame.cons_iff.mp hframe).2 18 (by simp [Interrupted.words, stubWords, pushRegs])
  rw [hrdi] at hcs
  have hlow : s.rflags.setWidth 16 = s.cs := by
    rw [← hcs]
    exact congrArg _ hflags.symm
  have hthree : s.cs.getLsbD 3 = false := by
    rw [← hlow, BitVec.getLsbD_setWidth, s.reserved_clear (by decide), Bool.and_false]
  have hfive : s.cs.getLsbD 5 = false := by
    rw [← hlow, BitVec.getLsbD_setWidth, s.reserved_clear (by decide), Bool.and_false]
  rcases s.seg with hseg | hseg
  · rw [hseg] at hthree
    exact absurd hthree (by decide)
  · rw [hseg] at hfive
    exact absurd hfive (by decide)

end Interrupted

/-- An interrupt is exact for every vector that has a stub but the invalid opcode's, as long
as the handler returns with `NT` clear. It is clear when the handler starts, but a timer
interrupt that preempts a task comes back by `context_switch`, with the flags of a task that
has blocked in the meantime. -/
theorem irq_exact_iff (s : Interrupted) {vec : ℕ} {declared : Bool} (h : (vec, declared) ∈ irqEntries) (flags : BitVec 64) :
    IrqExact s vec declared flags ↔ vec ≠ 6 ∧ X86.nestedTask flags = false := by
  constructor
  · refine fun hexact => ⟨?_, ?_⟩
    · rintro rfl
      have hdeclared : declared = true := by
        cases declared with
        | true => rfl
        | false => exact absurd h (by decide)
      rw [hdeclared] at hexact
      exact s.not_exact_six flags hexact
    · by_contra hnested
      exact s.not_exact_nested (Bool.eq_true_of_not_eq_false hnested) hexact
  · rintro ⟨hvec, hflags⟩
    refine s.exact_of_declared ?_ hflags
    simp only [irqEntries, List.mem_cons, Prod.mk.injEq, List.not_mem_nil, or_false] at h
    rcases h with ⟨rfl, rfl⟩ | ⟨rfl, rfl⟩ | ⟨rfl, rfl⟩ | ⟨rfl, rfl⟩ | ⟨rfl, rfl⟩ | ⟨rfl, rfl⟩ | ⟨rfl, rfl⟩ | ⟨rfl, rfl⟩ |
      ⟨rfl, rfl⟩ | ⟨rfl, rfl⟩
    · exact absurd rfl hvec
    all_goals rfl

/-- A program that runs into `ud2`. -/
def undefinedInUser : Interrupted where
  regs _ := 0
  sp := 0x70003ff0
  mem _ := 0
  rip := 0x10020
  rflags := 0x202
  cs := userCodeSeg
  ss := userDataSeg
  rsp0 := directMapStart + 0x3000
  seg := Or.inr rfl
  flagsOk := by decide
  spLt := by decide
  rsp0Lt := by decide
  room := by decide

theorem irq_exact_page_fault : IrqExact undefinedInUser 14 true 0x2 :=
  (irq_exact_iff undefinedInUser (by decide) 0x2).mpr (by decide)

/-- The handler of an invalid opcode at `0x10020` sees the code segment in `rip`. A timer
interrupt at the same place is not resumed once its handler returns with `NT` set. -/
theorem invalid_opcode_shifted :
    ((6, true) ∈ irqEntries ∧ ¬IrqExact undefinedInUser 6 true 0x2 ∧
      (loadArchRegs (undefinedInUser.entered 6 true 0 0 0 0).mem
        ((undefinedInUser.entered 6 true 0 0 0 0).regs .rdi).toNat).rip = 35) ∧
      (32, false) ∈ irqEntries ∧ ¬IrqExact undefinedInUser 32 false 0x4002 := by
  refine ⟨⟨by decide, undefinedInUser.not_exact_six 0x2, ?_⟩, by decide, undefinedInUser.not_exact_nested (by decide)⟩
  obtain ⟨-, hframe, hrdi⟩ := undefinedInUser.entered_spec 6 true 0 0 0 0 _ rfl
  rw [hrdi]
  exact (Frame.cons_iff.mp hframe).2 17 (by decide)

end HeavenOS
