/-
# The report of an exception

`irq_handler` of `arch/x86/irq.c` for what is neither a page fault that can be served nor the
timer: the registers in the frame are printed, and `__panic` of `kernel/panic.c` stops the
processor. The report reads the frame from memory between one line and the next, and it is itself
a client of `printk`, with its buffer for pointers below 64 GiB.
-/

import HeavenOS.Arch.Irq
import HeavenOS.Kernel.Memmap

namespace HeavenOS

open Lib Printk

/-! ## The code -/

/-- `IRQ_PF` -/
def irqPf : BitVec 64 := 14

/-- `IRQ_TIMER` -/
def irqTimer : BitVec 64 := 32

/-- `IRQ_SPURIOUS` -/
def irqSpurious : BitVec 64 := 39

/-- A string of the source. -/
def quoted (s : String) : List (BitVec 8) := literal s.toList

/-- The strings of `exc_names`. -/
def excNameStrings : List String :=
  ["Divide error", "Debug", "Non-Maskable Interrupt", "Breakpoint", "Overflow", "BOUND Range Exceeded",
    "Invalid Opcode", "Device Not Available", "Double Fault", "Unknown exception", "Invalid TSS",
    "Segment Not Present", "Stack Fault", "General Protection", "Page Fault", "Unknown exception",
    "x87 FPU Floating-Point Error", "Alignment Check", "Machine Check", "SIMD Floating-Point Exception",
    "Virtualization Exception", "Control Protection Exception"]

/-- `exc_names` -/
def excNames : List (List (BitVec 8)) := excNameStrings.map quoted

/-- `get_irq_name`. The comparison lets the number of names pass. -/
def getIrqName (irqNum : ℤ) : Except Fault (List (BitVec 8)) :=
  if irqNum ≤ excNames.length then tableEntry excNames irqNum
  else if irqNum = 32 then .ok (quoted "Timer")
  else if irqNum = 39 then .ok (quoted "Spurious")
  else .ok (quoted "Unknown IRQ")

/-- The first call of `dump`. -/
def dumpIrq (ctx : ArchRegs) (name : List (BitVec 8)) : PrintkCall :=
  printk (quoted "Unhandled IRQ %d [%s]\n") [.s32 (ctx.irqNum.setWidth 32), .str name]

/-- The second call of `dump`. -/
def dumpErrcode (ctx : ArchRegs) : PrintkCall := printk (quoted "Error code: %d\n") [.s32 (ctx.errcode.setWidth 32)]

/-- The call of `dump` for a page fault. -/
def dumpFault (cr2 : BitVec 64) : PrintkCall := printk (quoted "Fault address: %p\n") [.ptr cr2]

/-- A line of two registers, `"first: 0x%x second: 0x%x\n"`. -/
def regsLine (first second : String) : List (BitVec 8) :=
  quoted first ++ quoted ": 0x%x " ++ quoted second ++ quoted ": 0x%x\n"

/-- The last call of `dump`. Of each register `%x` takes the low half. -/
def dumpRegs (ctx : ArchRegs) : PrintkCall :=
  let reg (r : Reg) : Arg := .u32 ((ctx.regs r).setWidth 32)
  printk
    (regsLine "RAX" "RBX" ++ regsLine "RCX" "RDX" ++ regsLine "RSI" "RDI" ++ regsLine "R8" "R9" ++ regsLine "R10" "R11" ++
      regsLine "R12" "R13" ++ regsLine "R14" "R15" ++ regsLine "RIP" "CS")
    [reg .rax, reg .rbx, reg .rcx, reg .rdx, reg .rsi, reg .rdi, reg .r8, reg .r9, reg .r10, reg .r11, reg .r12, reg .r13,
      reg .r14, reg .r15, .u32 (ctx.rip.setWidth 32), .u32 (ctx.cs.setWidth 32)]

/-- `dump`, with this address in `cr2`. The stack of the call with number `n` is `stack n`. -/
def dump (r : Region) (fb : Fb) (stack : ℕ → Mem × ℕ) (ctx : ℕ) (cr2 : BitVec 64) (s : Console × Mem) :
    Except Fault (Console × Mem) := do
  let name ← getIrqName ((loadArchRegs s.2 ctx).irqNum.setWidth 32).toInt
  let s ← (dumpIrq (loadArchRegs s.2 ctx) name).run r fb (stack 0).1 (stack 0).2 s
  let s ← (dumpErrcode (loadArchRegs s.2 ctx)).run r fb (stack 1).1 (stack 1).2 s
  let s ← if (loadArchRegs s.2 ctx).irqNum = irqPf then (dumpFault cr2).run r fb (stack 2).1 (stack 2).2 s else .ok s
  (dumpRegs (loadArchRegs s.2 ctx)).run r fb (stack 3).1 (stack 3).2 s

/-- `printk_color` with `FB_COLOR_WHITE` on `FB_COLOR_RED` -/
def alarm (fmt : List (BitVec 8)) (args : List Arg) : PrintkCall := ⟨fmt, args, 0xFFFFFF, 0xFF0000⟩

/-- `__panic`: the state in which the processor stops. -/
def panicHalt (r : Region) (fb : Fb) (stack : ℕ → Mem × ℕ) (location fmt : List (BitVec 8)) (args : List Arg)
    (s : Console × Mem) : Except Fault (Console × Mem) :=
  if s.1.initialized then do
    let s ← (alarm (quoted "Kernel panic at %s: ") [.str location]).run r fb (stack 0).1 (stack 0).2 s
    let s ← (alarm fmt args).run r fb (stack 1).1 (stack 1).2 s
    (printk (quoted "\n") []).run r fb (stack 2).1 (stack 2).2 s
  else .ok s

/-- Where `irq_handler` leads: back, to one of the other handlers, or nowhere. -/
inductive IrqOutcome
  | served
  | timer
  | spurious
  | halted (s : Console × Mem)

/-- `irq_handler`, with the answer of `vmem_handle_pf`. -/
def irqHandler (r : Region) (fb : Fb) (stack : ℕ → Mem × ℕ) (location : List (BitVec 8)) (handlePf : Bool) (ctx : ℕ)
    (cr2 : BitVec 64) (s : Console × Mem) : Except Fault IrqOutcome :=
  let irqNum := (loadArchRegs s.2 ctx).irqNum
  if irqNum = irqPf ∧ handlePf = true then .ok .served
  else if irqNum = irqTimer then .ok .timer
  else if irqNum = irqSpurious then .ok .spurious
  else do
    let s ← dump r fb stack ctx cr2 s
    let s ← panicHalt r fb (fun n => stack (4 + n)) location (quoted "Unhandled IRQ") [] s
    return .halted s

/-! ## Pieces -/

/-- A string of characters that have a glyph, without a carriage return or a conversion. -/
def PlainString (s : String) : Prop := s.toList.all plainChar = true

/-- A literal is checked character by character. -/
theorem PlainString.ofList {l : List Char} (h : l.all plainChar = true) : PlainString (String.ofList l) := by
  rwa [PlainString, String.toList_ofList]

theorem PlainString.plain {s : String} (h : PlainString s) : Plain (quoted s) := (plain_literal h).1

theorem PlainString.no_percent {s : String} (h : PlainString s) : ascii '%' ∉ quoted s := (plain_literal h).2

/-- Characters outside of conversions. -/
def chars (s : String) : List Piece := (quoted s).map .char

/-- The pieces can be printed, one behind the other, and there are glyphs for all of it. -/
structure Readable (ps : List Piece) : Prop where
  safe : ∀ p ∈ ps, p.Safe
  clean : Clean true ps
  plain : Plain (render ps)

theorem Readable.append {ps ps' : List Piece} (h : Readable ps) (h' : Readable ps') : Readable (ps ++ ps') where
  safe p hp := (List.mem_append.mp hp).elim (h.safe p) (h'.safe p)
  clean := h.clean.append h'.clean
  plain := by
    rw [render_append]
    exact h.plain.append h'.plain

theorem readable_chars {s : String} (h : PlainString s) : Readable (chars s) where
  safe p hp := by
    obtain ⟨c, -, rfl⟩ := List.mem_map.mp hp
    trivial
  clean := clean_plain true (quoted s)
  plain := by
    rw [chars, render_plain]
    exact h.plain

/-- One conversion, other than that of an error code. -/
theorem readable_conversion {p : Piece} (hsafe : p.Safe) (hclean : Clean true [p]) (hplain : Plain p.text) : Readable [p] where
  safe q hq := (List.mem_singleton.mp hq) ▸ hsafe
  clean := hclean
  plain := by rwa [render_cons, render, List.flatMap_nil, List.append_nil]

theorem readable_hex (value : BitVec 32) : Readable [.hex value] :=
  readable_conversion trivial trivial (numeral_plain 16 _)

theorem readable_signed (value : BitVec 32) : Readable [.signed value] := by
  refine readable_conversion trivial trivial ?_
  change Plain (signedNumeral 10 value.toInt)
  unfold signedNumeral
  split_ifs
  · exact Plain.append (show Plain (literal ['-']) from (plain_literal rfl).1) (numeral_plain 10 _)
  · exact numeral_plain 10 _

theorem readable_string {value : List (BitVec 8)} (h : Plain value) : Readable [.string value] :=
  readable_conversion trivial trivial h

theorem readable_pointer {value : BitVec 64} (h : value.toNat < 2 ^ 36) : Readable [.pointer value] :=
  readable_conversion h trivial (pointerText_plain _)

/-! ## The lines of a report -/

/-- The first line. -/
def irqPieces (ctx : ArchRegs) (name : List (BitVec 8)) : List Piece :=
  chars "Unhandled IRQ " ++ [.signed (ctx.irqNum.setWidth 32)] ++ chars " [" ++ [.string name] ++ chars "]\n"

/-- The second line. -/
def errcodePieces (ctx : ArchRegs) : List Piece :=
  chars "Error code: " ++ [.signed (ctx.errcode.setWidth 32)] ++ chars "\n"

/-- The line of a page fault. -/
def faultPieces (cr2 : BitVec 64) : List Piece := chars "Fault address: " ++ [.pointer cr2] ++ chars "\n"

/-- A line of two registers. -/
def linePieces (first : String) (value : BitVec 32) (second : String) (value' : BitVec 32) : List Piece :=
  chars first ++ (chars ": 0x" ++ [.hex value] ++ chars " ") ++ chars second ++ (chars ": 0x" ++ [.hex value'] ++ chars "\n")

/-- The lines of the registers. -/
def regsPieces (ctx : ArchRegs) : List Piece :=
  let reg (r : Reg) : BitVec 32 := (ctx.regs r).setWidth 32
  linePieces "RAX" (reg .rax) "RBX" (reg .rbx) ++ linePieces "RCX" (reg .rcx) "RDX" (reg .rdx) ++
    linePieces "RSI" (reg .rsi) "RDI" (reg .rdi) ++ linePieces "R8" (reg .r8) "R9" (reg .r9) ++
    linePieces "R10" (reg .r10) "R11" (reg .r11) ++ linePieces "R12" (reg .r12) "R13" (reg .r13) ++
    linePieces "R14" (reg .r14) "R15" (reg .r15) ++ linePieces "RIP" (ctx.rip.setWidth 32) "CS" (ctx.cs.setWidth 32)

/-- All that `dump` prints. -/
def dumpPieces (ctx : ArchRegs) (cr2 : BitVec 64) (name : List (BitVec 8)) : List Piece :=
  irqPieces ctx name ++ errcodePieces ctx ++ (if ctx.irqNum = irqPf then faultPieces cr2 else []) ++ regsPieces ctx

theorem dumpIrq_parse (ctx : ArchRegs) (name : List (BitVec 8)) :
    parse true (dumpIrq ctx name).fmt (dumpIrq ctx name).args = some (irqPieces ctx name, [], true) := by
  rfl

theorem dumpErrcode_parse (ctx : ArchRegs) :
    parse true (dumpErrcode ctx).fmt (dumpErrcode ctx).args = some (errcodePieces ctx, [], true) := by
  rfl

theorem dumpFault_parse (cr2 : BitVec 64) :
    parse true (dumpFault cr2).fmt (dumpFault cr2).args = some (faultPieces cr2, [], true) := by
  rfl

theorem regsLine_parse (first : String) (value : BitVec 32) (second : String) (value' : BitVec 32)
    (hfirst : PlainString first) (hsecond : PlainString second) :
    parse true (regsLine first second) [.u32 value, .u32 value'] = some (linePieces first value second value', [], true) := by
  have hhex : parse true (quoted ": 0x%x ") [.u32 value] = some (chars ": 0x" ++ [.hex value] ++ chars " ", [], true) := rfl
  have hhex' : parse true (quoted ": 0x%x\n") [.u32 value'] = some (chars ": 0x" ++ [.hex value'] ++ chars "\n", [], true) := rfl
  exact parse_append (parse_append (parse_append (parse_plain hfirst.no_percent []) hhex) (parse_plain hsecond.no_percent [])) hhex'

theorem dumpRegs_parse (ctx : ArchRegs) :
    parse true (dumpRegs ctx).fmt (dumpRegs ctx).args = some (regsPieces ctx, [], true) := by
  let reg (r : Reg) : BitVec 32 := (ctx.regs r).setWidth 32
  have hlines := parse_append (parse_append (parse_append (parse_append (parse_append (parse_append (parse_append
    (regsLine_parse "RAX" (reg .rax) "RBX" (reg .rbx) (.ofList rfl) (.ofList rfl))
    (regsLine_parse "RCX" (reg .rcx) "RDX" (reg .rdx) (.ofList rfl) (.ofList rfl)))
    (regsLine_parse "RSI" (reg .rsi) "RDI" (reg .rdi) (.ofList rfl) (.ofList rfl)))
    (regsLine_parse "R8" (reg .r8) "R9" (reg .r9) (.ofList rfl) (.ofList rfl)))
    (regsLine_parse "R10" (reg .r10) "R11" (reg .r11) (.ofList rfl) (.ofList rfl)))
    (regsLine_parse "R12" (reg .r12) "R13" (reg .r13) (.ofList rfl) (.ofList rfl)))
    (regsLine_parse "R14" (reg .r14) "R15" (reg .r15) (.ofList rfl) (.ofList rfl)))
    (regsLine_parse "RIP" (ctx.rip.setWidth 32) "CS" (ctx.cs.setWidth 32) (.ofList rfl) (.ofList rfl))
  simp only [List.cons_append, List.nil_append] at hlines
  exact hlines

theorem irqPieces_readable (ctx : ArchRegs) {name : List (BitVec 8)} (hname : Plain name) : Readable (irqPieces ctx name) :=
  .append (.append (.append (.append (readable_chars (.ofList rfl)) (readable_signed _))
    (readable_chars (.ofList rfl))) (readable_string hname)) (readable_chars (.ofList rfl))

theorem errcodePieces_readable (ctx : ArchRegs) : Readable (errcodePieces ctx) :=
  .append (.append (readable_chars (.ofList rfl)) (readable_signed _)) (readable_chars (.ofList rfl))

theorem faultPieces_readable {cr2 : BitVec 64} (h : cr2.toNat < 2 ^ 36) : Readable (faultPieces cr2) :=
  .append (.append (readable_chars (.ofList rfl)) (readable_pointer h)) (readable_chars (.ofList rfl))

theorem linePieces_readable {first second : String} (value value' : BitVec 32) (hfirst : PlainString first)
    (hsecond : PlainString second) : Readable (linePieces first value second value') := by
  have hhex (value : BitVec 32) : Readable (chars ": 0x" ++ [.hex value]) :=
    .append (readable_chars (.ofList rfl)) (readable_hex value)
  exact .append (.append (.append (readable_chars hfirst) (.append (hhex value) (readable_chars (.ofList rfl))))
    (readable_chars hsecond)) (.append (hhex value') (readable_chars (.ofList rfl)))

theorem regsPieces_readable (ctx : ArchRegs) : Readable (regsPieces ctx) := by
  unfold regsPieces
  refine .append (.append (.append (.append (.append (.append (.append ?_ ?_) ?_) ?_) ?_) ?_) ?_) ?_
  all_goals exact linePieces_readable _ _ (.ofList rfl) (.ofList rfl)

/-! ## Names -/

/-- There is a name for every number but the negative ones and the one behind the table. -/
theorem getIrqName_ok_iff (irqNum : ℤ) : (∃ name, getIrqName irqNum = .ok name) ↔ 0 ≤ irqNum ∧ irqNum ≠ 22 := by
  have hlength : excNames.length = 22 := rfl
  unfold getIrqName tableEntry
  rw [hlength]
  by_cases htable : irqNum ≤ 22
  · rw [if_pos (by exact_mod_cast htable)]
    by_cases hneg : irqNum < 0
    · rw [if_pos hneg]
      simp
      omega
    · rw [if_neg hneg]
      by_cases hlast : irqNum = 22
      · rw [hlast]
        simp [hlength]
      · have hlt : irqNum.toNat < excNames.length := by omega
        rw [List.getElem?_eq_getElem hlt]
        exact iff_of_true ⟨_, rfl⟩ ⟨by omega, hlast⟩
  · rw [if_neg (by exact_mod_cast htable)]
    refine iff_of_true ?_ ⟨by omega, by omega⟩
    split_ifs
    · exact ⟨_, rfl⟩
    · exact ⟨_, rfl⟩
    · exact ⟨_, rfl⟩

theorem getIrqName_plain {irqNum : ℤ} {name : List (BitVec 8)} (h : getIrqName irqNum = .ok name) : Plain name := by
  have hnames : ∀ name ∈ excNames, Plain name := by
    intro name hname
    obtain ⟨s, hs, rfl⟩ := List.mem_map.mp hname
    have hall : ∀ s ∈ excNameStrings, PlainString s := by
      unfold excNameStrings
      repeat refine List.forall_mem_cons.mpr ⟨.ofList rfl, ?_⟩
      exact List.forall_mem_nil _
    exact (hall s hs).plain
  unfold getIrqName tableEntry at h
  split_ifs at h
  · split at h
    · next entry hentry =>
        obtain rfl := Except.ok.inj h
        exact hnames entry (List.mem_of_getElem? hentry)
    · cases h
  · obtain rfl := Except.ok.inj h
    exact PlainString.plain (.ofList rfl)
  · obtain rfl := Except.ok.inj h
    exact PlainString.plain (.ofList rfl)
  · obtain rfl := Except.ok.inj h
    exact PlainString.plain (.ofList rfl)

/-- The name of an exception is the entry of the table. -/
theorem getIrqName_eq_ok {n : ℕ} (hn : n ≤ 22) {name : List (BitVec 8)} (h : getIrqName n = .ok name) :
    excNames[n]? = some name := by
  have hlength : excNames.length = 22 := rfl
  rw [getIrqName, tableEntry, hlength, if_pos (by omega), if_neg (by omega), Int.toNat_natCast] at h
  split at h
  · next entry hentry => rw [hentry, Except.ok.inj h]
  · cases h

/-- The numbers of exceptions. -/
theorem exception_number {vec : ℕ} (hvec : vec < 32) :
    (BitVec.ofNat 64 vec = irqPf ↔ vec = 14) ∧ BitVec.ofNat 64 vec ≠ irqTimer ∧ BitVec.ofNat 64 vec ≠ irqSpurious ∧
      ((BitVec.ofNat 64 vec).setWidth 32).toInt = vec := by
  interval_cases vec <;> decide

/-! ## On the screen -/

/-- There is a name, and the address of a page fault fits. -/
def ReportFits (ctx : ArchRegs) (cr2 : BitVec 64) : Prop :=
  0 ≤ (ctx.irqNum.setWidth 32).toInt ∧ (ctx.irqNum.setWidth 32).toInt ≠ 22 ∧ (ctx.irqNum = irqPf → cr2.toNat < 2 ^ 36)

/-- A frame outside of the region is as before. -/
theorem SameOutside.loadArchRegs {r : Region} {m m' : Mem} (h : SameOutside r m m') {ctx : ℕ}
    (hout : ctx + archRegsSize ≤ r.lo ∨ r.hi ≤ ctx) : loadArchRegs m' ctx = HeavenOS.loadArchRegs m ctx := by
  have hword (i : ℕ) (hi : i < 22) : m'.loadWord (ctx + 8 * i) = m.loadWord (ctx + 8 * i) :=
    h.loadWord (by unfold archRegsSize at hout; omega)
  have hslot (r : Reg) : r.slot < 22 := by cases r <;> decide
  unfold HeavenOS.loadArchRegs
  rw [hword 15 (by decide), hword 16 (by decide), hword 17 (by decide), hword 18 (by decide), hword 19 (by decide),
    hword 20 (by decide), hword 21 (by decide)]
  simp only [hword _ (hslot _)]

/-- A text in white on red. -/
def alarmText (text : List (BitVec 8)) : List Output := text.map fun c => ⟨c, 0xFFFFFF, 0xFF0000⟩

/-- An interrupt is entered by writing to the stack. -/
theorem Interrupted.entered_mem_of_outside (s : Interrupted) (vec : ℕ) (declared : Bool) (errcode entry irqHandler back : BitVec 64)
    {x : ℕ} (hout : x < (s.entered vec declared errcode entry irqHandler back).sp ∨ s.interruptStack s.rsp0 ≤ x) :
    (s.entered vec declared errcode entry irqHandler back).mem x = s.mem x := by
  set words := s.words vec errcode ++ stubWords vec declared s.regs with hwords
  set stack : StackMachine Reg := ⟨s.regs, s.interruptStack s.rsp0, s.mem⟩ with hstack
  obtain ⟨hsp, -, -⟩ := s.entered_spec vec declared errcode entry irqHandler back _ rfl
  rw [← hwords, List.length_reverse] at hsp
  have hpushed : ((s.deliver s.rsp0 vec errcode entry).pushAll
      (stubWords vec declared (s.deliver s.rsp0 vec errcode entry).regs)).toStackMachine = stack.pushAll words := by
    have hregs : (s.deliver s.rsp0 vec errcode entry).regs = s.regs := by
      rw [s.deliver_toStackMachine vec errcode entry, StackMachine.pushAll_regs]
    rw [X86.pushAll, hregs, s.deliver_toStackMachine vec errcode entry, ← StackMachine.pushAll_append]
  have hmem : (s.entered vec declared errcode entry irqHandler back).mem =
      (stack.pushAll words).mem.storeWord ((stack.pushAll words).sp - 8) back := by
    rw [← hpushed, Interrupted.entered, irqEntry_eq]
    rfl
  have htop : stack.sp = s.interruptStack s.rsp0 := rfl
  rw [hmem, StackMachine.pushAll_sp, Mem.storeWord_of_outside _ _ (by omega),
    stack.pushAll_mem_of_outside (by omega) (by omega)]

/-- The frame of an exception that is declared right. -/
theorem Interrupted.entered_frame (s : Interrupted) {vec : ℕ} {declared : Bool} (h : declared = pushesErrcode vec)
    (errcode entry irqHandler back : BitVec 64) :
    loadArchRegs (s.entered vec declared errcode entry irqHandler back).mem
      ((s.entered vec declared errcode entry irqHandler back).regs .rdi).toNat = s.frame vec errcode := by
  have hexact := s.exact_of_declared h (show X86.nestedTask 0 = false by decide)
  obtain ⟨hregs, hirqNum, herrcode, hrip, hcs, hrflags, hrsp, hss⟩ := (hexact errcode entry irqHandler back).1
  exact ArchRegs.ext hregs hirqNum herrcode hrip hcs hrflags hrsp hss

section Report

variable {fb : Fb} {w h p : ℕ} (hfb : fb.Geometry w h p) (hw : 8 ≤ w) (hh : 8 ≤ h) (hsize : h * p < 2 ^ 31)

include hfb hw hh hsize

/-- A call of readable pieces draws them. -/
theorem OnScreen.callPieces {xs : List Output} {s : Console × Mem} (hs : OnScreen fb w h xs s) {call : PrintkCall}
    {ps : List Piece} (hparse : parse true call.fmt call.args = some (ps, [], true)) (hps : Readable ps) (stack : Mem × ℕ) :
    ∃ s', call.run fb.region fb stack.1 stack.2 s = .ok s' ∧ SameOutside fb.region s.2 s'.2 ∧
      OnScreen fb w h (xs ++ call.output (render ps)) s' :=
  hs.call hfb hw hh hsize ⟨ps, [], true, hparse, hps.safe, hps.clean, rfl⟩ hps.plain stack.1 stack.2

/-- The line of a page fault, if it is one. -/
theorem OnScreen.faultLine {xs : List Output} {s : Console × Mem} (hs : OnScreen fb w h xs s) (stack : Mem × ℕ)
    (cr2 : BitVec 64) (isPf : Prop) [Decidable isPf] :
    ((∃ s', (if isPf then (dumpFault cr2).run fb.region fb stack.1 stack.2 s else .ok s) = .ok s') ↔ (isPf → cr2.toNat < 2 ^ 36)) ∧
    ∀ s', (if isPf then (dumpFault cr2).run fb.region fb stack.1 stack.2 s else .ok s) = .ok s' →
      SameOutside fb.region s.2 s'.2 ∧ OnScreen fb w h (xs ++ whiteText (render (if isPf then faultPieces cr2 else []))) s' := by
  by_cases hpf : isPf
  · simp only [if_pos hpf]
    have hsafe {s' : Console × Mem} (hrun : (dumpFault cr2).run fb.region fb stack.1 stack.2 s = .ok s') : cr2.toNat < 2 ^ 36 :=
      PrintkCall.safe_of_run hs.on.initialized hrun (dumpFault_parse cr2) (.pointer cr2) (by simp [faultPieces])
    by_cases hcr2 : cr2.toNat < 2 ^ 36
    · obtain ⟨s₁, hrun, hkept, hs₁⟩ := hs.callPieces hfb hw hh hsize (dumpFault_parse cr2) (faultPieces_readable hcr2) stack
      refine ⟨iff_of_true ⟨s₁, hrun⟩ fun _ => hcr2, fun s' hs' => ?_⟩
      obtain rfl := Except.ok.inj (hrun.symm.trans hs')
      exact ⟨hkept, hs₁⟩
    · exact ⟨iff_of_false (fun ⟨s', hs'⟩ => hcr2 (hsafe hs')) fun hfits => hcr2 (hfits hpf),
        fun s' hs' => absurd (hsafe hs') hcr2⟩
  · simp only [if_neg hpf]
    refine ⟨iff_of_true ⟨s, rfl⟩ fun h => absurd h hpf, fun s' hs' => ?_⟩
    obtain rfl := Except.ok.inj hs'
    exact ⟨.refl _ _, by simpa [render, whiteText] using hs⟩

/-- `dump` returns exactly if the frame can be reported, and has printed it. -/
theorem OnScreen.dump {xs : List Output} {s : Console × Mem} (hs : OnScreen fb w h xs s) (stack : ℕ → Mem × ℕ) {ctx : ℕ}
    (hout : ctx + archRegsSize ≤ fb.region.lo ∨ fb.region.hi ≤ ctx) (cr2 : BitVec 64) {f : ArchRegs}
    (hf : loadArchRegs s.2 ctx = f) :
    ((∃ s', dump fb.region fb stack ctx cr2 s = .ok s') ↔ ReportFits f cr2) ∧
    ∀ s', dump fb.region fb stack ctx cr2 s = .ok s' → SameOutside fb.region s.2 s'.2 ∧
      ∃ name, getIrqName (f.irqNum.setWidth 32).toInt = .ok name ∧
        OnScreen fb w h (xs ++ whiteText (render (dumpPieces f cr2 name))) s' := by
  by_cases hname : ∃ name, getIrqName (f.irqNum.setWidth 32).toInt = .ok name
  · obtain ⟨name, hname⟩ := hname
    have hnumber := (getIrqName_ok_iff _).mp ⟨name, hname⟩
    obtain ⟨s₁, hirq, hkept₁, hs₁⟩ := hs.callPieces hfb hw hh hsize (dumpIrq_parse f name)
      (irqPieces_readable f (getIrqName_plain hname)) (stack 0)
    have hf₁ : loadArchRegs s₁.2 ctx = f := (hkept₁.loadArchRegs hout).trans hf
    obtain ⟨s₂, herrcode, hkept₂, hs₂⟩ := hs₁.callPieces hfb hw hh hsize (dumpErrcode_parse f) (errcodePieces_readable f)
      (stack 1)
    have hf₂ : loadArchRegs s₂.2 ctx = f := (hkept₂.loadArchRegs hout).trans hf₁
    obtain ⟨hreturns, hdone⟩ := hs₂.faultLine hfb hw hh hsize (stack 2) cr2 (f.irqNum = irqPf)
    have hrun : HeavenOS.dump fb.region fb stack ctx cr2 s =
        (if f.irqNum = irqPf then (dumpFault cr2).run fb.region fb (stack 2).1 (stack 2).2 s₂ else .ok s₂) >>= fun s =>
          (dumpRegs (loadArchRegs s.2 ctx)).run fb.region fb (stack 3).1 (stack 3).2 s := by
      rw [HeavenOS.dump, hf, hname, Fault.ok_bind, hirq, Fault.ok_bind, hf₁, herrcode, Fault.ok_bind]
      simp only [hf₂]
      split_ifs
      · rfl
      · rfl
    have hlast {s₃ : Console × Mem} (hmiddle : (if f.irqNum = irqPf then (dumpFault cr2).run fb.region fb (stack 2).1
        (stack 2).2 s₂ else .ok s₂) = .ok s₃) : ∃ s', HeavenOS.dump fb.region fb stack ctx cr2 s = .ok s' ∧
          SameOutside fb.region s.2 s'.2 ∧ OnScreen fb w h (xs ++ whiteText (render (dumpPieces f cr2 name))) s' := by
      obtain ⟨hkept₃, hs₃⟩ := hdone s₃ hmiddle
      have hf₃ : loadArchRegs s₃.2 ctx = f := (hkept₃.loadArchRegs hout).trans hf₂
      obtain ⟨s', hregs, hkept', hs'⟩ := hs₃.callPieces hfb hw hh hsize (dumpRegs_parse f) (regsPieces_readable f) (stack 3)
      refine ⟨s', by rw [hrun, hmiddle, Fault.ok_bind, hf₃, hregs], ((hkept₁.trans hkept₂).trans hkept₃).trans hkept', ?_⟩
      have hpieces : xs ++ whiteText (render (dumpPieces f cr2 name)) = xs ++ (dumpIrq f name).output (render (irqPieces f name)) ++
          (dumpErrcode f).output (render (errcodePieces f)) ++
          whiteText (render (if f.irqNum = irqPf then faultPieces cr2 else [])) ++
          (dumpRegs f).output (render (regsPieces f)) := by
        simp only [dumpPieces, render_append, whiteText, List.map_append, List.append_assoc]
        rfl
      rwa [hpieces]
    constructor
    · constructor
      · rintro ⟨s', hs'⟩
        rw [hrun] at hs'
        obtain ⟨s₃, hmiddle, -⟩ := Fault.bind_eq_ok.mp hs'
        exact ⟨hnumber.1, hnumber.2, hreturns.mp ⟨s₃, hmiddle⟩⟩
      · intro hfits
        obtain ⟨s₃, hmiddle⟩ := hreturns.mpr hfits.2.2
        obtain ⟨s', hs', -⟩ := hlast hmiddle
        exact ⟨s', hs'⟩
    · intro s' hs'
      have hs'' := hs'
      rw [hrun] at hs''
      obtain ⟨s₃, hmiddle, -⟩ := Fault.bind_eq_ok.mp hs''
      obtain ⟨s₄, hs₄, hkept, hscreen⟩ := hlast hmiddle
      obtain rfl := Except.ok.inj (hs₄.symm.trans hs')
      exact ⟨hkept, name, hname, hscreen⟩
  · have hnot (s' : Console × Mem) : HeavenOS.dump fb.region fb stack ctx cr2 s ≠ .ok s' := fun hs' => by
      rw [HeavenOS.dump, hf] at hs'
      obtain ⟨name, hok, -⟩ := Fault.bind_eq_ok.mp hs'
      exact hname ⟨name, hok⟩
    refine ⟨iff_of_false (fun hreturns => hreturns.elim hnot) fun hfits => ?_, fun s' hs' => absurd hs' (hnot s')⟩
    exact hname ((getIrqName_ok_iff _).mpr ⟨hfits.1, hfits.2.1⟩)

/-- `__panic` prints where it was called and why, and the processor stops. -/
theorem OnScreen.panicHalt {xs : List Output} {s : Console × Mem} (hs : OnScreen fb w h xs s) (stack : ℕ → Mem × ℕ)
    {location : List (BitVec 8)} (hlocation : Plain location) {message : String} (hmessage : PlainString message) :
    ∃ s', panicHalt fb.region fb stack location (quoted message) [] s = .ok s' ∧ SameOutside fb.region s.2 s'.2 ∧
      OnScreen fb w h (xs ++ alarmText (quoted "Kernel panic at " ++ location ++ quoted ": " ++ quoted message) ++
        whiteText (quoted "\n")) s' := by
  have hparse : parse true (alarm (quoted "Kernel panic at %s: ") [.str location]).fmt [.str location] =
      some (chars "Kernel panic at " ++ [.string location] ++ chars ": ", [], true) := rfl
  have hreadable : Readable (chars "Kernel panic at " ++ [.string location] ++ chars ": ") :=
    .append (.append (readable_chars (.ofList rfl)) (readable_string hlocation)) (readable_chars (.ofList rfl))
  obtain ⟨s₁, hwhere, hkept₁, hs₁⟩ := hs.callPieces hfb hw hh hsize hparse hreadable (stack 0)
  have hparse' : parse true (alarm (quoted message) []).fmt (alarm (quoted message) []).args = some (chars message, [], true) :=
    parse_plain hmessage.no_percent []
  obtain ⟨s₂, hwhy, hkept₂, hs₂⟩ := hs₁.callPieces hfb hw hh hsize hparse' (readable_chars hmessage) (stack 1)
  have hnewline : PlainString "\n" := .ofList rfl
  obtain ⟨s', hend, hkept', hs'⟩ := hs₂.printk hfb hw hh hsize (quoted "\n") hnewline.plain hnewline.no_percent (stack 2).1
    (stack 2).2
  refine ⟨s', ?_, (hkept₁.trans hkept₂).trans hkept', ?_⟩
  · rw [HeavenOS.panicHalt, if_pos hs.on.initialized, hwhere, Fault.ok_bind, hwhy, Fault.ok_bind, hend]
  · have htext : xs ++ alarmText (quoted "Kernel panic at " ++ location ++ quoted ": " ++ quoted message) =
        xs ++ (alarm (quoted "Kernel panic at %s: ") [.str location]).output
          (render (chars "Kernel panic at " ++ [.string location] ++ chars ": ")) ++
          (alarm (quoted message) []).output (render (chars message)) := by
      have hone : render [.string location] = location := by simp [render, Piece.text]
      simp only [render_append, chars, render_plain, hone, PrintkCall.output, alarmText, List.map_append, List.append_assoc]
      rfl
    rwa [htext]

/-- What is on the screen when the processor stops. -/
def reportOutput (location : List (BitVec 8)) (f : ArchRegs) (cr2 : BitVec 64) (name : List (BitVec 8)) : List Output :=
  whiteText (render (dumpPieces f cr2 name)) ++
    alarmText (quoted "Kernel panic at " ++ location ++ quoted ": " ++ quoted "Unhandled IRQ") ++ whiteText (quoted "\n")

/-- An exception other than an invalid opcode, or a page fault that is not served, ends in the
report of the interrupted registers on the screen, exactly if it is not a page fault at or above
64 GiB. Memory outside of the framebuffer and the stack is as before. -/
theorem exception_report {s : Interrupted} {vec : ℕ} {declared : Bool} (hstub : (vec, declared) ∈ irqEntries) (hsix : vec ≠ 6)
    (hexception : vec < 32) {handlePf : Bool} (hpf : vec = 14 → handlePf = false) (errcode entry handler back cr2 : BitVec 64)
    {location : List (BitVec 8)} (hlocation : Plain location) (stack : ℕ → Mem × ℕ) {cons : Console} {xs : List Output}
    (hs : OnScreen fb w h xs (cons, s.mem))
    (hout : s.interruptStack s.rsp0 ≤ fb.region.lo ∨ fb.region.hi ≤ (s.entered vec declared errcode entry handler back).sp) :
    let t := s.entered vec declared errcode entry handler back
    let run := irqHandler fb.region fb stack location handlePf (t.regs .rdi).toNat cr2 (cons, t.mem)
    ((∃ out, run = .ok out) ↔ (vec = 14 → cr2.toNat < 2 ^ 36)) ∧
      ∀ out, run = .ok out → ∃ name s', out = .halted s' ∧ excNames[vec]? = some name ∧
        OnScreen fb w h (xs ++ reportOutput location (s.frame vec errcode) cr2 name) s' ∧
        ∀ x, (x < fb.region.lo ∨ fb.region.hi ≤ x) → (x < t.sp ∨ s.interruptStack s.rsp0 ≤ x) → s'.2 x = s.mem x := by
  intro t run
  have hdeclared : declared = pushesErrcode vec ∧ vec ≤ 14 := by
    simp only [irqEntries, List.mem_cons, Prod.mk.injEq, List.not_mem_nil, or_false] at hstub
    rcases hstub with ⟨rfl, rfl⟩ | ⟨rfl, rfl⟩ | ⟨rfl, rfl⟩ | ⟨rfl, rfl⟩ | ⟨rfl, rfl⟩ | ⟨rfl, rfl⟩ | ⟨rfl, rfl⟩ |
      ⟨rfl, rfl⟩ | ⟨rfl, rfl⟩ | ⟨rfl, rfl⟩
    · exact absurd rfl hsix
    all_goals first
      | exact ⟨rfl, by decide⟩
      | exact absurd hexception (by decide)
  obtain ⟨hdeclared, hvec⟩ := hdeclared
  obtain ⟨hisPf, htimer, hspurious, hnumber⟩ := exception_number hexception
  have hsp : t.sp + 8 + 8 * (s.frame vec errcode).words.length = s.interruptStack s.rsp0 ∧ (t.regs .rdi).toNat = t.sp + 8 := by
    obtain ⟨hsp, -, hrdi⟩ := s.entered_spec vec declared errcode entry handler back _
      (s.words_of_declared hdeclared errcode)
    exact ⟨hsp, hrdi⟩
  rw [ArchRegs.words_length] at hsp
  have hframe : loadArchRegs t.mem (t.regs .rdi).toNat = s.frame vec errcode :=
    s.entered_frame hdeclared errcode entry handler back
  have houtside (x : ℕ) (hx : x < t.sp ∨ s.interruptStack s.rsp0 ≤ x) : t.mem x = s.mem x :=
    s.entered_mem_of_outside vec declared errcode entry handler back hx
  have hout : s.interruptStack s.rsp0 ≤ fb.region.lo ∨ fb.region.hi ≤ t.sp := hout
  -- what matters of the entry is known
  clear_value t
  obtain ⟨hsp, hrdi⟩ := hsp
  have hscreen : OnScreen fb w h xs (cons, t.mem) :=
    hs.congr hfb fun a hlo hhi => houtside a (hout.elim (fun h => Or.inr (h.trans hlo)) fun h => Or.inl (lt_of_lt_of_le hhi h))
  have hapart : (t.regs .rdi).toNat + archRegsSize ≤ fb.region.lo ∨ fb.region.hi ≤ (t.regs .rdi).toNat := by
    rw [hrdi]
    unfold archRegsSize
    omega
  obtain ⟨hreturns, hdone⟩ := hscreen.dump hfb hw hh hsize stack hapart cr2 hframe
  have hirqNum : (loadArchRegs t.mem (t.regs .rdi).toNat).irqNum = BitVec.ofNat 64 vec := congrArg ArchRegs.irqNum hframe
  have hserved : ¬(BitVec.ofNat 64 vec = irqPf ∧ handlePf = true) := fun h => by
    rw [hpf (hisPf.mp h.1)] at h
    exact absurd h.2 (by decide)
  have hrun : run = (do
      let s ← HeavenOS.dump fb.region fb stack (t.regs .rdi).toNat cr2 (cons, t.mem)
      let s ← HeavenOS.panicHalt fb.region fb (fun n => stack (4 + n)) location (quoted "Unhandled IRQ") [] s
      return .halted s) := by
    simp only [run, irqHandler, hirqNum]
    rw [if_neg hserved, if_neg htimer, if_neg hspurious]
  have hfits : ReportFits (s.frame vec errcode) cr2 ↔ (vec = 14 → cr2.toNat < 2 ^ 36) := by
    change (0 ≤ ((BitVec.ofNat 64 vec).setWidth 32).toInt ∧ ((BitVec.ofNat 64 vec).setWidth 32).toInt ≠ 22 ∧
      (BitVec.ofNat 64 vec = irqPf → cr2.toNat < 2 ^ 36)) ↔ _
    rw [hnumber, hisPf]
    exact ⟨fun h => h.2.2, fun h => ⟨by omega, by omega, h⟩⟩
  constructor
  · rw [← hfits, ← hreturns, hrun]
    constructor
    · rintro ⟨out, hout⟩
      obtain ⟨s', hdump, -⟩ := Fault.bind_eq_ok.mp hout
      exact ⟨s', hdump⟩
    · rintro ⟨s', hdump⟩
      obtain ⟨-, name, -, hs'⟩ := hdone s' hdump
      obtain ⟨s'', hpanic, -⟩ := hs'.panicHalt hfb hw hh hsize (fun n => stack (4 + n)) hlocation
        (show PlainString "Unhandled IRQ" from .ofList rfl)
      exact ⟨.halted s'', by rw [hdump, Fault.ok_bind, hpanic]; rfl⟩
  · intro out hout
    rw [hrun] at hout
    obtain ⟨s', hdump, hout⟩ := Fault.bind_eq_ok.mp hout
    obtain ⟨hkept, name, hname, hs'⟩ := hdone s' hdump
    obtain ⟨s'', hpanic, hkept', hs''⟩ := hs'.panicHalt hfb hw hh hsize (fun n => stack (4 + n)) hlocation
      (show PlainString "Unhandled IRQ" from .ofList rfl)
    rw [hpanic] at hout
    obtain rfl := Except.ok.inj hout
    refine ⟨name, s'', rfl, getIrqName_eq_ok (by omega) ?_, ?_, fun x hregion hstack => ?_⟩
    · rwa [← hnumber]
    · rw [reportOutput, ← List.append_assoc, ← List.append_assoc]
      exact hs''
    · rw [(hkept.trans hkept') x hregion]
      exact houtside x hstack

end Report

/-- `__FILE__ ":" __S2(__LINE__)` -/
def irqLocation : List (BitVec 8) := quoted "arch/x86/irq.c:59"

/-- A program that breaks a protection rule where it could have run into `ud2`. -/
theorem exception_report_protection : ∃ name s',
    irqHandler smallFb.region smallFb (fun n => (fun _ => 0, n)) irqLocation false
      ((undefinedInUser.entered 13 true 5 0 0 0).regs .rdi).toNat 0 (smallConsole, (undefinedInUser.entered 13 true 5 0 0 0).mem) =
        .ok (.halted s') ∧ excNames[13]? = some name ∧
      OnScreen smallFb 16 16 (reportOutput irqLocation (undefinedInUser.frame 13 5) 0 name) s' := by
  have hstart := onScreen_start smallFb_geometry (by decide) (by decide) (show consInit smallFb .start = .ok smallConsole by rfl)
    smallFb_black
  have hlocation : PlainString "arch/x86/irq.c:59" := .ofList rfl
  have hsp : (undefinedInUser.entered 13 true 5 0 0 0).sp + 8 + 8 * 22 = directMapStart + 0x3000 := by
    obtain ⟨hsp, -⟩ := undefinedInUser.entered_spec 13 true 5 0 0 0 _ (undefinedInUser.words_of_declared rfl 5)
    exact hsp
  have hout : smallFb.region.hi ≤ (undefinedInUser.entered 13 true 5 0 0 0).sp := by
    have hhi : smallFb.region.hi = directMapStart + 1024 := rfl
    omega
  obtain ⟨hreturns, hdone⟩ := @exception_report smallFb 16 16 64 smallFb_geometry (by decide) (by decide) (by decide)
    undefinedInUser 13 true (by decide) (by decide) (by decide) false (fun h => absurd h (by decide)) 5 0 0 0 0 irqLocation
    hlocation.plain (fun n => (fun _ => 0, n)) smallConsole [] hstart (Or.inr hout)
  obtain ⟨out, hrun⟩ := hreturns.mpr fun h => absurd h (by decide)
  obtain ⟨name, s', rfl, hname, hscreen, -⟩ := hdone out hrun
  exact ⟨name, s', hrun, hname, hscreen⟩

end HeavenOS
