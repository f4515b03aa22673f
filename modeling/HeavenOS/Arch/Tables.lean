/-
# Descriptor tables

`arch_init` of `arch/x86/x86.c` with `irq_init` of `arch/x86/irq_asm.asm`. The kernel writes its
segments, its interrupt gates and the task state segment to memory, word by word, and the
processor reads them there when an interrupt comes. The macro for a gate also clears the first
word of the next one, so that the order of the gates matters.
-/

import HeavenOS.Arch.Irq
import HeavenOS.Boot.Unmap
import HeavenOS.Lib.Raster
import HeavenOS.Lib.Runs
import Mathlib.Tactic.IntervalCases

namespace HeavenOS

open Lib

/-! ## What the processor reads -/

/-- `*(uint32_t*)a = w` -/
def store32 (m : Mem) (a : ℕ) (w : BitVec 32) : Mem := m.store32s a (fun _ => w) 1

@[simp]
theorem load32_store32_self (m : Mem) (a : ℕ) (w : BitVec 32) : (store32 m a w).load32 a = w :=
  Mem.load32_store32s (j := 0) m (fun _ => w) (by decide)

theorem load32_store32_of_disjoint (m : Mem) {a b : ℕ} (w : BitVec 32) (hdis : b + 4 ≤ a ∨ a + 4 ≤ b) :
    (store32 m a w).load32 b = m.load32 b := Mem.load32_store32s_of_disjoint m _ (by omega)

theorem store32_of_outside (m : Mem) {a x : ℕ} (w : BitVec 32) (hout : x < a ∨ a + 4 ≤ x) : store32 m a w x = m x :=
  Mem.store32s_of_outside m _ (by omega)

/-- The fields of a segment descriptor. -/
@[ext]
structure Segment where
  base : BitVec 32
  limit : BitVec 20
  type : BitVec 4
  /-- Code or data, and not a segment of the system. -/
  system : Bool
  dpl : BitVec 2
  present : Bool
  long : Bool
  opSize : Bool
  granularity : Bool
  deriving DecidableEq

/-- A segment descriptor from its two words. -/
def Segment.decode (dw0 dw1 : BitVec 32) : Segment where
  base := dw1.extractLsb' 24 8 ++ dw1.extractLsb' 0 8 ++ dw0.extractLsb' 16 16
  limit := dw1.extractLsb' 16 4 ++ dw0.extractLsb' 0 16
  type := dw1.extractLsb' 8 4
  system := dw1.getLsbD 12
  dpl := dw1.extractLsb' 13 2
  present := dw1.getLsbD 15
  long := dw1.getLsbD 21
  opSize := dw1.getLsbD 22
  granularity := dw1.getLsbD 23

/-- A gate of the interrupt descriptor table. -/
@[ext]
structure Gate where
  offset : BitVec 64
  selector : BitVec 16
  ist : BitVec 3
  type : BitVec 4
  dpl : BitVec 2
  present : Bool
  deriving DecidableEq

/-- A gate from its first three words. -/
def Gate.decode (dw0 dw1 dw2 : BitVec 32) : Gate where
  offset := dw2 ++ dw1.extractLsb' 16 16 ++ dw0.extractLsb' 0 16
  selector := dw0.extractLsb' 16 16
  ist := dw1.extractLsb' 0 3
  type := dw1.extractLsb' 8 4
  dpl := dw1.extractLsb' 13 2
  present := dw1.getLsbD 15

/-- `IDT_DESC_SIZE` -/
def idtDescSize : ℕ := 16

/-- The gate of a vector. -/
def loadGate (m : Mem) (idt vec : ℕ) : Gate :=
  let a := idt + vec * idtDescSize
  .decode (m.load32 a) (m.load32 (a + 4)) (m.load32 (a + 8))

/-! ## Gates -/

/-- The parameters of an `IDT_ENTRY`, with the address of `_irq_entry_vec`. -/
structure IdtEntry where
  vec : ℕ
  irqEntry : BitVec 64
  selector : BitVec 16
  flags : BitVec 8

/-- `IDT_ENTRY`: the last word goes behind the gate. -/
def idtEntry (idt : ℕ) (m : Mem) (e : IdtEntry) : Mem :=
  let rbx := idt + e.vec * idtDescSize
  let m := store32 m rbx (e.irqEntry.setWidth 32 &&& 0xFFFF#32 ||| e.selector.setWidth 32 <<< 16)
  let m := store32 m (rbx + 4) (e.irqEntry.setWidth 32 &&& 0xFFFF0000#32 ||| e.flags.setWidth 32 <<< 8)
  let m := store32 m (rbx + 8) ((e.irqEntry >>> 32).setWidth 32)
  store32 m (rbx + 16) 0

/-- `IDT_ENTRY` for each of the entries. -/
def idtEntries (idt : ℕ) (m : Mem) (es : List IdtEntry) : Mem := es.foldl (idtEntry idt) m

/-- What the entry asks for. -/
def IdtEntry.gate (e : IdtEntry) : Gate where
  offset := e.irqEntry
  selector := e.selector
  ist := 0
  type := e.flags.extractLsb' 0 4
  dpl := e.flags.extractLsb' 5 2
  present := e.flags.getLsbD 7

/-- A gate whose first word has been cleared. -/
def Gate.cut (g : Gate) : Gate := { g with offset := g.offset.extractLsb' 16 48 ++ 0#16, selector := 0 }

/-- The three parts of an address. -/
theorem offset_split (w : BitVec 64) : w.extractLsb' 32 32 ++ w.extractLsb' 16 16 ++ w.extractLsb' 0 16 = w := by
  rw [BitVec.extractLsb'_append_extractLsb'_eq_extractLsb' (by rfl), BitVec.extractLsb'_append_extractLsb'_eq_extractLsb' (by rfl)]
  exact BitVec.extractLsb'_eq_self

theorem IdtEntry.decode (e : IdtEntry) :
    Gate.decode (e.irqEntry.setWidth 32 &&& 0xFFFF#32 ||| e.selector.setWidth 32 <<< 16)
      (e.irqEntry.setWidth 32 &&& 0xFFFF0000#32 ||| e.flags.setWidth 32 <<< 8) ((e.irqEntry >>> 32).setWidth 32) = e.gate := by
  have hlow : (e.irqEntry.setWidth 32 &&& 0xFFFF#32 ||| e.selector.setWidth 32 <<< 16).extractLsb' 0 16 =
      e.irqEntry.extractLsb' 0 16 := by
    ext i hi
    interval_cases i <;> simp
  have hmiddle : (e.irqEntry.setWidth 32 &&& 0xFFFF0000#32 ||| e.flags.setWidth 32 <<< 8).extractLsb' 16 16 =
      e.irqEntry.extractLsb' 16 16 := by
    ext i hi
    interval_cases i <;> simp
  have hhigh : (e.irqEntry >>> 32).setWidth 32 = e.irqEntry.extractLsb' 32 32 := by
    ext i hi
    simp
  apply Gate.ext
  · rw [Gate.decode, hlow, hmiddle, hhigh, offset_split]
    rfl
  · ext i hi
    interval_cases i <;> simp [Gate.decode, IdtEntry.gate]
  · ext i hi
    interval_cases i <;> simp [Gate.decode, IdtEntry.gate]
  · ext i hi
    interval_cases i <;> simp [Gate.decode, IdtEntry.gate]
  · ext i hi
    interval_cases i <;> simp [Gate.decode, IdtEntry.gate]
  · simp [Gate.decode, IdtEntry.gate]

theorem Gate.decode_cut (dw0 dw1 dw2 : BitVec 32) : Gate.decode 0 dw1 dw2 = (Gate.decode dw0 dw1 dw2).cut := by
  refine Gate.ext ?_ ?_ rfl rfl rfl rfl
  · have hhigh : (Gate.decode dw0 dw1 dw2).offset.extractLsb' 16 48 = dw2 ++ dw1.extractLsb' 16 16 := by
      rw [Gate.decode, BitVec.extractLsb'_append_eq_of_le (by decide)]
      exact BitVec.extractLsb'_eq_self
    rw [Gate.cut, hhigh]
    rfl
  · simp [Gate.decode, Gate.cut]

theorem Gate.cut_cut (g : Gate) : g.cut.cut = g.cut := by
  have hhigh : (g.offset.extractLsb' 16 48 ++ 0#16).extractLsb' 16 48 = g.offset.extractLsb' 16 48 := by
    rw [BitVec.extractLsb'_append_eq_of_le (by decide)]
    exact BitVec.extractLsb'_eq_self
  rw [Gate.cut, Gate.cut, hhigh]

/-! ## A table of gates -/

/-- Words that no store of an `IDT_ENTRY` meets. -/
theorem load32_idtEntry_of_apart (idt : ℕ) (m : Mem) (e : IdtEntry) {a : ℕ}
    (h : a + 4 ≤ idt + e.vec * idtDescSize ∨ idt + e.vec * idtDescSize + 12 ≤ a)
    (h' : a + 4 ≤ idt + e.vec * idtDescSize + 16 ∨ idt + e.vec * idtDescSize + 20 ≤ a) :
    (idtEntry idt m e).load32 a = m.load32 a := by
  unfold idtEntry
  simp only
  rw [load32_store32_of_disjoint _ _ (by omega), load32_store32_of_disjoint _ _ (by omega),
    load32_store32_of_disjoint _ _ (by omega), load32_store32_of_disjoint _ _ (by omega)]

/-- What one `IDT_ENTRY` does to the gates. -/
theorem loadGate_idtEntry (idt : ℕ) (m : Mem) (e : IdtEntry) (vec : ℕ) :
    loadGate (idtEntry idt m e) idt vec =
      if vec = e.vec then e.gate else if vec = e.vec + 1 then (loadGate m idt vec).cut else loadGate m idt vec := by
  by_cases hself : vec = e.vec
  · subst hself
    have hfirst : (idtEntry idt m e).load32 (idt + e.vec * idtDescSize) =
        (e.irqEntry.setWidth 32 &&& 0xFFFF#32 ||| e.selector.setWidth 32 <<< 16) := by
      unfold idtEntry
      simp only
      rw [load32_store32_of_disjoint _ _ (by omega), load32_store32_of_disjoint _ _ (by omega),
        load32_store32_of_disjoint _ _ (by omega), load32_store32_self]
    have hsecond : (idtEntry idt m e).load32 (idt + e.vec * idtDescSize + 4) =
        (e.irqEntry.setWidth 32 &&& 0xFFFF0000#32 ||| e.flags.setWidth 32 <<< 8) := by
      unfold idtEntry
      simp only
      rw [load32_store32_of_disjoint _ _ (by omega), load32_store32_of_disjoint _ _ (by omega), load32_store32_self]
    have hthird : (idtEntry idt m e).load32 (idt + e.vec * idtDescSize + 8) = (e.irqEntry >>> 32).setWidth 32 := by
      unfold idtEntry
      simp only
      rw [load32_store32_of_disjoint _ _ (by omega), load32_store32_self]
    rw [if_pos rfl, loadGate]
    simp only [hfirst, hsecond, hthird]
    exact e.decode
  · rw [if_neg hself]
    have hsecond : (idtEntry idt m e).load32 (idt + vec * idtDescSize + 4) = m.load32 (idt + vec * idtDescSize + 4) :=
      load32_idtEntry_of_apart idt m e (by unfold idtDescSize; omega) (by unfold idtDescSize; omega)
    have hthird : (idtEntry idt m e).load32 (idt + vec * idtDescSize + 8) = m.load32 (idt + vec * idtDescSize + 8) :=
      load32_idtEntry_of_apart idt m e (by unfold idtDescSize; omega) (by unfold idtDescSize; omega)
    by_cases hnext : vec = e.vec + 1
    · -- the fourth store goes to the first word of this gate
      have hfirst : (idtEntry idt m e).load32 (idt + vec * idtDescSize) = 0 := by
        rw [show idt + vec * idtDescSize = idt + e.vec * idtDescSize + 16 by unfold idtDescSize; omega]
        exact load32_store32_self _ _ _
      rw [if_pos hnext, loadGate, loadGate]
      simp only [hfirst, hsecond, hthird]
      exact Gate.decode_cut _ _ _
    · have hfirst : (idtEntry idt m e).load32 (idt + vec * idtDescSize) = m.load32 (idt + vec * idtDescSize) :=
        load32_idtEntry_of_apart idt m e (by unfold idtDescSize; omega) (by unfold idtDescSize; omega)
      rw [if_neg hnext, loadGate, loadGate]
      simp only [hfirst, hsecond, hthird]

/-- If no entry is for the vector itself, its gate is what it was or has been cut. -/
theorem loadGate_idtEntries_of_ne {idt vec : ℕ} {es : List IdtEntry} (h : ∀ e ∈ es, vec ≠ e.vec) (m : Mem) :
    loadGate (idtEntries idt m es) idt vec =
      if ∃ e ∈ es, vec = e.vec + 1 then (loadGate m idt vec).cut else loadGate m idt vec := by
  induction es generalizing m with
  | nil => simp [idtEntries]
  | cons e es ih =>
      obtain ⟨hself, hrest⟩ := List.forall_mem_cons.mp h
      rw [idtEntries, List.foldl_cons]
      refine (ih hrest _).trans ?_
      rw [loadGate_idtEntry, if_neg hself]
      by_cases hnext : vec = e.vec + 1
      · simp [hnext, Gate.cut_cut]
      · simp [hnext]

/-- The first entry's gate, when the others follow. -/
theorem loadGate_idtEntries_cons {idt : ℕ} {e : IdtEntry} {es : List IdtEntry} (h : ∀ e' ∈ es, e.vec ≠ e'.vec) (m : Mem) :
    loadGate (idtEntries idt m (e :: es)) idt e.vec = if ∃ e' ∈ es, e.vec = e'.vec + 1 then e.gate.cut else e.gate := by
  change loadGate (idtEntries idt (idtEntry idt m e) es) idt e.vec = _
  rw [loadGate_idtEntries_of_ne h, loadGate_idtEntry, if_pos rfl]

/-- In the order of their vectors the gates are what the entries ask for. -/
theorem loadGate_idtEntries_of_lt {idt : ℕ} {es : List IdtEntry} (hvecs : es.Pairwise fun e e' => e.vec < e'.vec) (m : Mem) :
    ∀ e ∈ es, loadGate (idtEntries idt m es) idt e.vec = e.gate := by
  induction es generalizing m with
  | nil => simp
  | cons e es ih =>
      obtain ⟨hlt, hvecs⟩ := List.pairwise_cons.mp hvecs
      refine List.forall_mem_cons.mpr ⟨?_, ih hvecs _⟩
      rw [loadGate_idtEntries_cons (fun e' he' => (hlt e' he').ne),
        if_neg (fun ⟨e', he', heq⟩ => by have := hlt e' he'; omega)]

/-- Each of the gates is what its entry asks for exactly if no entry comes before the one for the
vector in front of it. -/
theorem idt_entries_exact_iff (idt : ℕ) (m : Mem) {es : List IdtEntry} (hvecs : (es.map IdtEntry.vec).Nodup)
    (hselectors : ∀ e ∈ es, e.selector ≠ 0) :
    (∀ e ∈ es, loadGate (idtEntries idt m es) idt e.vec = e.gate) ↔ es.Pairwise fun e e' => e.vec ≠ e'.vec + 1 := by
  induction es generalizing m with
  | nil => simp
  | cons e es ih =>
      obtain ⟨hnew, hvecs⟩ := List.nodup_cons.mp hvecs
      obtain ⟨hselector, hselectors⟩ := List.forall_mem_cons.mp hselectors
      have hne : ∀ e' ∈ es, e.vec ≠ e'.vec := fun e' he' heq => hnew (heq ▸ List.mem_map_of_mem he')
      have hfirst : loadGate (idtEntries idt m (e :: es)) idt e.vec = e.gate ↔ ∀ e' ∈ es, e.vec ≠ e'.vec + 1 := by
        rw [loadGate_idtEntries_cons hne]
        constructor
        · intro hgate e' he' heq
          rw [if_pos ⟨e', he', heq⟩] at hgate
          exact hselector (congrArg Gate.selector hgate).symm
        · intro hall
          rw [if_neg (fun ⟨e', he', heq⟩ => hall e' he' heq)]
      rw [List.forall_mem_cons, hfirst, List.pairwise_cons]
      exact and_congr_right fun _ => ih _ hvecs hselectors

/-- The entries for the invalid opcode and for the missing coprocessor, in the wrong order. -/
def swappedEntries : List IdtEntry := [⟨7, 0x2000, 8, 0b10001110⟩, ⟨6, 0x1000, 8, 0b10001110⟩]

theorem idt_entries_exact_swapped :
    (∀ e ∈ swappedEntries, loadGate (idtEntries 0x10000 (fun _ => 0) swappedEntries) 0x10000 e.vec = e.gate) ↔
      swappedEntries.Pairwise fun e e' => e.vec ≠ e'.vec + 1 :=
  idt_entries_exact_iff 0x10000 (fun _ => 0) (by decide) (by decide)

/-! ## Segments -/

/-- `GDT_PRESENT` -/
def gdtPresent : BitVec 64 := 1#64 <<< 15

/-- `GDT_SYSTEM` -/
def gdtSystem : BitVec 64 := 1#64 <<< 12

/-- `GDT_GRANULARITY` -/
def gdtGranularity : BitVec 64 := 1#64 <<< 23

/-- `GDT_LONG` -/
def gdtLong : BitVec 64 := 1#64 <<< 21

/-- `GDT_READ` -/
def gdtRead : BitVec 64 := 1#64 <<< 9

/-- `GDT_DPL_RING3` -/
def gdtDplRing3 : BitVec 64 := 3#64 <<< 13

/-- `GDT_CODE_SEG` -/
def gdtCodeSeg : BitVec 64 := 1#64 <<< 11

/-- The bits of the second word that are neither of the base nor of the limit. -/
def gdtFlagBits : BitVec 64 := 0xF0FF00#64

/-- The first word of `GDT_DESCRIPTOR`. -/
def gdtDw0 (base limit : BitVec 64) : BitVec 32 := ((base &&& 0xFFFF#64) <<< 16 ||| limit &&& 0xFFFF#64).setWidth 32

/-- The second word of `GDT_DESCRIPTOR`. -/
def gdtDw1 (base limit flags : BitVec 64) : BitVec 32 :=
  ((base >>> 16 &&& 0xFF#64) ||| flags ||| gdtPresent ||| (limit >>> 16 &&& 0xF#64) <<< 16 |||
    (base >>> 24 &&& 0xFF#64) <<< 24).setWidth 32

/-- `gdt[idx]` -/
def loadDescriptor (m : Mem) (gdt idx : ℕ) : BitVec 32 × BitVec 32 := (m.load32 (gdt + 8 * idx), m.load32 (gdt + 8 * idx + 4))

/-- `gdt[idx] = dw` -/
def storeDescriptor (m : Mem) (gdt idx : ℕ) (dw : BitVec 32 × BitVec 32) : Mem :=
  store32 (store32 m (gdt + 8 * idx) dw.1) (gdt + 8 * idx + 4) dw.2

@[simp]
theorem loadDescriptor_storeDescriptor (m : Mem) (gdt idx idx' : ℕ) (dw : BitVec 32 × BitVec 32) :
    loadDescriptor (storeDescriptor m gdt idx dw) gdt idx' = if idx' = idx then dw else loadDescriptor m gdt idx' := by
  unfold loadDescriptor storeDescriptor
  by_cases hidx : idx' = idx
  · subst hidx
    rw [if_pos rfl, load32_store32_of_disjoint _ _ (by omega), load32_store32_self, load32_store32_self]
  · rw [if_neg hidx, load32_store32_of_disjoint _ _ (by omega), load32_store32_of_disjoint _ _ (by omega),
      load32_store32_of_disjoint _ _ (by omega), load32_store32_of_disjoint _ _ (by omega)]

theorem storeDescriptor_of_outside (m : Mem) {gdt idx x : ℕ} (dw : BitVec 32 × BitVec 32)
    (hout : x < gdt + 8 * idx ∨ gdt + 8 * idx + 8 ≤ x) : storeDescriptor m gdt idx dw x = m x := by
  rw [storeDescriptor, store32_of_outside _ _ (by omega), store32_of_outside _ _ (by omega)]

/-- `GDT_DESCRIPTOR(idx, base, limit, flags)` -/
def gdtDescriptor (gdt : ℕ) (m : Mem) (idx : ℕ) (base limit flags : BitVec 64) : Mem :=
  storeDescriptor m gdt idx (gdtDw0 base limit, gdtDw1 base limit flags)

/-- `GDT_DESCRIPTOR_64(idx, flags)` -/
def gdtDescriptor64 (gdt : ℕ) (m : Mem) (idx : ℕ) (flags : BitVec 64) : Mem := gdtDescriptor gdt m idx 0 0xFFFFF#64 flags

/-- `TSS_DESCRIPTOR_64(idx, base, limit, flags)` -/
def tssDescriptor64 (gdt : ℕ) (m : Mem) (idx : ℕ) (base limit flags : BitVec 64) : Mem :=
  storeDescriptor (gdtDescriptor gdt m idx base limit flags) gdt (idx + 1) ((base >>> 32 &&& 0xFFFFFFFF#64).setWidth 32, 0)

/-- The segment that a descriptor is meant to be. -/
def Segment.of (base limit flags : BitVec 64) : Segment where
  base := base.setWidth 32
  limit := limit.setWidth 20
  type := flags.extractLsb' 8 4
  system := flags.getLsbD 12
  dpl := flags.extractLsb' 13 2
  present := true
  long := flags.getLsbD 21
  opSize := flags.getLsbD 22
  granularity := flags.getLsbD 23

/-- A descriptor decodes to what it was made of, if the flags have none of the bits of the base
and the limit. -/
theorem decode_gdtDescriptor {base limit flags : BitVec 64} (hflags : flags &&& gdtFlagBits = flags) :
    Segment.decode (gdtDw0 base limit) (gdtDw1 base limit flags) = .of base limit flags := by
  have hlow : (gdtDw0 base limit).extractLsb' 16 16 = base.extractLsb' 0 16 := by
    ext i hi
    interval_cases i <;> simp [gdtDw0]
  have hmiddle : (gdtDw1 base limit flags).extractLsb' 0 8 = base.extractLsb' 16 8 := by
    rw [← hflags]
    ext i hi
    interval_cases i <;> simp [gdtDw1, gdtFlagBits, gdtPresent]
  have hhigh : (gdtDw1 base limit flags).extractLsb' 24 8 = base.extractLsb' 24 8 := by
    rw [← hflags]
    ext i hi
    interval_cases i <;> simp [gdtDw1, gdtFlagBits, gdtPresent]
  have hlimit : (gdtDw0 base limit).extractLsb' 0 16 = limit.extractLsb' 0 16 := by
    ext i hi
    interval_cases i <;> simp [gdtDw0]
  have hlimit' : (gdtDw1 base limit flags).extractLsb' 16 4 = limit.extractLsb' 16 4 := by
    rw [← hflags]
    ext i hi
    interval_cases i <;> simp [gdtDw1, gdtFlagBits, gdtPresent]
  apply Segment.ext
  · change (gdtDw1 base limit flags).extractLsb' 24 8 ++ (gdtDw1 base limit flags).extractLsb' 0 8 ++
      (gdtDw0 base limit).extractLsb' 16 16 = base.setWidth 32
    rw [hlow, hmiddle, hhigh, BitVec.extractLsb'_append_extractLsb'_eq_extractLsb' (by rfl),
      BitVec.extractLsb'_append_extractLsb'_eq_extractLsb' (by rfl), BitVec.setWidth_eq_extractLsb' (by decide)]
  · change (gdtDw1 base limit flags).extractLsb' 16 4 ++ (gdtDw0 base limit).extractLsb' 0 16 = limit.setWidth 20
    rw [hlimit, hlimit', BitVec.extractLsb'_append_extractLsb'_eq_extractLsb' (by rfl),
      BitVec.setWidth_eq_extractLsb' (by decide)]
  · ext i hi
    interval_cases i <;> simp [Segment.decode, Segment.of, gdtDw1, gdtPresent]
  · simp [Segment.decode, Segment.of, gdtDw1, gdtPresent]
  · ext i hi
    interval_cases i <;> simp [Segment.decode, Segment.of, gdtDw1, gdtPresent]
  · simp [Segment.decode, Segment.of, gdtDw1, gdtPresent]
  · simp [Segment.decode, Segment.of, gdtDw1, gdtPresent]
  · simp [Segment.decode, Segment.of, gdtDw1, gdtPresent]
  · simp [Segment.decode, Segment.of, gdtDw1, gdtPresent]

/-! ## Loading the tables -/

/-- The registers that say where the tables are, and those of the `syscall` instruction. -/
structure SystemRegs where
  gdtr : ℕ
  gdtLimit : ℕ
  idtr : ℕ
  idtLimit : ℕ
  tr : ℕ
  efer : BitVec 64
  lstar : BitVec 64
  fmask : BitVec 64
  star : BitVec 64

/-- Where the linker has put the tables, and the code that they lead to. The tables are objects
of their own. -/
structure ArchSymbols where
  earlyPml4 : ℕ
  gdt : ℕ
  tss : ℕ
  idt : ℕ
  irqEntry : ℕ → BitVec 64
  syscallEntry : BitVec 64
  tss_lt : tss < 2 ^ 64
  gdt_tss : gdt + 128 ≤ tss ∨ tss + 104 ≤ gdt
  gdt_idt : gdt + 128 ≤ idt ∨ idt + 4096 ≤ gdt
  tss_idt : tss + 104 ≤ idt ∨ idt + 4096 ≤ tss

/-- `sizeof(tss)` -/
def tssSize : ℕ := 104

/-- `sizeof(gdt)` -/
def gdtSize : ℕ := 16 * 8

/-- `gdt_init` -/
def gdtInit (sym : ArchSymbols) (m : Mem) (sys : SystemRegs) : Mem × SystemRegs :=
  let m := gdtDescriptor64 sym.gdt m 1 (gdtGranularity ||| gdtLong ||| gdtSystem ||| gdtCodeSeg ||| gdtRead)
  let m := gdtDescriptor64 sym.gdt m 2 (gdtGranularity ||| gdtSystem ||| gdtRead)
  let m := gdtDescriptor64 sym.gdt m 3 (gdtGranularity ||| gdtSystem ||| gdtDplRing3 ||| gdtRead)
  let m := gdtDescriptor64 sym.gdt m 4 (gdtGranularity ||| gdtLong ||| gdtSystem ||| gdtDplRing3 ||| gdtCodeSeg ||| gdtRead)
  let m := tssDescriptor64 sym.gdt m 5 (BitVec.ofNat 64 sym.tss) (BitVec.ofNat 64 tssSize)
    (gdtGranularity ||| 1#64 <<< 20 ||| 0b1001#64 <<< 8 ||| gdtPresent)
  (m, { sys with gdtr := sym.gdt, gdtLimit := gdtSize })

/-- The segment in an entry of the global descriptor table. -/
def segmentAt (m : Mem) (gdt idx : ℕ) : Segment := .decode (loadDescriptor m gdt idx).1 (loadDescriptor m gdt idx).2

/-- `ltr`: the segment has to be that of a task which is not busy, and becomes busy. -/
def ltr (selector : BitVec 16) (m : Mem) (sys : SystemRegs) : Option (Mem × SystemRegs) :=
  let idx := (selector >>> 3).toNat
  let dw := loadDescriptor m sys.gdtr idx
  let dw' := loadDescriptor m sys.gdtr (idx + 1)
  let seg := segmentAt m sys.gdtr idx
  if selector.getLsbD 2 = false ∧ idx ≠ 0 ∧ 8 * idx + 15 ≤ sys.gdtLimit ∧ seg.present ∧ seg.system = false ∧ seg.type = 9 ∧
      dw'.2.extractLsb' 8 5 = 0 then
    some (storeDescriptor m sys.gdtr idx (dw.1, dw.2 ||| 1#32 <<< 9), { sys with tr := (dw'.1 ++ seg.base).toNat })
  else none

/-- `load_tss` -/
def loadTss (m : Mem) (sys : SystemRegs) : Option (Mem × SystemRegs) := ltr (gdtSegmentSelector 5 0) m sys

/-- `syscall_init` -/
def syscallInit (sym : ArchSymbols) (sys : SystemRegs) : SystemRegs :=
  { sys with
    efer := sys.efer ||| 1#64 <<< 0
    lstar := sym.syscallEntry
    fmask := X86.rflagsIf
    star := kernelCodeSeg.setWidth 64 <<< 32 ||| starUser.setWidth 64 <<< 48 }

/-- `GATE_INTERRUPT` -/
def gateInterrupt : BitVec 8 := 0b10001110

/-- The gates that `irq_init` asks for, in its order. -/
def irqGates (sym : ArchSymbols) : List IdtEntry :=
  irqEntries.map fun entry => ⟨entry.1, sym.irqEntry entry.1, 8, gateInterrupt⟩

/-- `irq_init` -/
def irqInit (sym : ArchSymbols) (m : Mem) (sys : SystemRegs) : Mem × SystemRegs :=
  (idtEntries sym.idt m (irqGates sym), { sys with idtr := sym.idt, idtLimit := idtDescSize * 256 })

/-- `arch_init`. Without a result, the processor has not taken the task state segment. -/
def archInit (sym : ArchSymbols) (m : Mem) (sys : SystemRegs) : Option (Mem × SystemRegs) := do
  let m := unmapEarly sym.earlyPml4 m
  let (m, sys) := gdtInit sym m sys
  let (m, sys) ← loadTss m sys
  let sys := syscallInit sym sys
  return irqInit sym m sys

/-! ## Through the tables -/

/-- The segment of a selector. -/
def loadSegment (m : Mem) (sys : SystemRegs) (selector : BitVec 16) : Option Segment :=
  let idx := (selector >>> 3).toNat
  if selector.getLsbD 2 = false ∧ idx ≠ 0 ∧ 8 * idx + 7 ≤ sys.gdtLimit then some (segmentAt m sys.gdtr idx) else none

/-- Code for the 64-bit mode, in this ring. -/
def Segment.IsCode (seg : Segment) (ring : BitVec 2) : Prop :=
  seg.present ∧ seg.system ∧ seg.type.getLsbD 3 ∧ seg.type.getLsbD 2 = false ∧ seg.long ∧ seg.opSize = false ∧ seg.dpl = ring

/-- Data that can be written to, in this ring. -/
def Segment.IsData (seg : Segment) (ring : BitVec 2) : Prop :=
  seg.present ∧ seg.system ∧ seg.type.getLsbD 3 = false ∧ seg.type.getLsbD 1 ∧ seg.dpl = ring

instance (seg : Segment) (ring : BitVec 2) : Decidable (seg.IsCode ring) := inferInstanceAs (Decidable (_ ∧ _))

instance (seg : Segment) (ring : BitVec 2) : Decidable (seg.IsData ring) := inferInstanceAs (Decidable (_ ∧ _))

namespace X86

/-- Delivery of a vector as the tables in memory say. Without a result, the processor raises
another exception. -/
def deliverThrough (s : X86) (sys : SystemRegs) (vec : ℕ) (errcode : BitVec 64) : Option X86 :=
  let gate := loadGate s.mem sys.idtr vec
  let rsp0 := s.mem.loadPtr (sys.tr + 4)
  if vec * idtDescSize + 15 ≤ sys.idtLimit ∧ gate.present ∧ gate.type = 0b1110 ∧ gate.ist = 0 then do
    let seg ← loadSegment s.mem sys gate.selector
    if seg.IsCode 0 then some { s.deliver rsp0 vec errcode gate.offset with cs := gate.selector &&& ~~~3 } else none
  else none

/-- `syscall` as the registers say. -/
def syscallThrough (s : X86) (sys : SystemRegs) : Option X86 :=
  let selector : BitVec 16 := sys.star.extractLsb' 32 16
  if sys.efer.getLsbD 0 then
    some { s with
      regs := Function.update (Function.update s.regs .rcx s.rip) .r11 s.rflags
      rip := sys.lstar
      rflags := s.rflags &&& ~~~sys.fmask
      cs := selector &&& ~~~3
      ss := selector + 8 }
  else none

/-- `o64 sysret` as the registers say. -/
def sysretThrough (s : X86) (sys : SystemRegs) : Option X86 :=
  let selector : BitVec 16 := sys.star.extractLsb' 48 16
  if sys.efer.getLsbD 0 then
    some { s with
      rip := s.regs .rcx
      rflags := loadFlags sysretMask (s.regs .r11)
      cs := (selector + 16) ||| 3
      ss := (selector + 8) ||| 3 }
  else none

end X86

/-! ## Runs -/

/-- `arch_thread_switch` to a thread, on the processor that runs it. -/
def archThreadSwitch (sym : ArchSymbols) (s : X86) (next : ArchThread) : ℕ × X86 :=
  contextSwitch { s with mem := s.mem.storePtr (sym.tss + 4) next.kstackTop } next.rsp

/-- The bytes of the tables. -/
def ArchSymbols.InTables (sym : ArchSymbols) (x : ℕ) : Prop :=
  (sym.gdt ≤ x ∧ x < sym.gdt + gdtSize) ∨ (sym.tss ≤ x ∧ x < sym.tss + tssSize) ∨
    (sym.idt ≤ x ∧ x < sym.idt + idtDescSize * 256)

/-- What a processor does: it switches to a thread, from a stack that is none of the tables, or
anything else that leaves the tables alone. -/
inductive ArchLabel
  | switch (next : ArchThread)
  | other

def ArchStep (sym : ArchSymbols) (s : X86) : ArchLabel → X86 → Prop
  | .switch next, t => next.kstackTop < 2 ^ 64 ∧ 48 ≤ s.sp ∧ (∀ x, s.sp - 48 ≤ x → x < s.sp → ¬sym.InTables x) ∧
      t = (archThreadSwitch sym s next).2
  | .other, t => ∀ x, sym.InTables x → t.mem x = s.mem x

/-- The stack of the thread that has been switched to last. -/
def lastKstackTop (labels : List ArchLabel) : ℕ :=
  labels.foldl (fun top label => match label with
    | .switch next => next.kstackTop
    | .other => top) 0

@[simp]
theorem lastKstackTop_switch (labels : List ArchLabel) (next : ArchThread) :
    lastKstackTop (labels ++ [.switch next]) = next.kstackTop := by
  simp [lastKstackTop]

@[simp]
theorem lastKstackTop_other (labels : List ArchLabel) : lastKstackTop (labels ++ [.other]) = lastKstackTop labels := by
  simp [lastKstackTop]

/-- Vectors that have a gate. -/
def irqVectors : List ℕ := irqEntries.map Prod.fst

/-- The registers behind `arch_init`. -/
structure SystemReady (sym : ArchSymbols) (sys : SystemRegs) : Prop where
  gdtr : sys.gdtr = sym.gdt
  gdtLimit : sys.gdtLimit = gdtSize
  idtr : sys.idtr = sym.idt
  idtLimit : sys.idtLimit = idtDescSize * 256
  tr : sys.tr = sym.tss
  sce : sys.efer.getLsbD 0 = true
  lstar : sys.lstar = sym.syscallEntry
  fmask : sys.fmask = X86.rflagsIf
  star : sys.star = kernelCodeSeg.setWidth 64 <<< 32 ||| starUser.setWidth 64 <<< 48

/-- The tables behind `arch_init`, with this stack in the task state segment. -/
structure TablesReady (sym : ArchSymbols) (kstackTop : ℕ) (m : Mem) : Prop where
  kernelCode : (segmentAt m sym.gdt 1).IsCode 0
  kernelData : (segmentAt m sym.gdt 2).IsData 0
  userData : (segmentAt m sym.gdt 3).IsData 3
  userCode : (segmentAt m sym.gdt 4).IsCode 3
  gate : ∀ vec < 256, loadGate m sym.idt vec =
    if vec ∈ irqVectors then ⟨sym.irqEntry vec, 8, 0, 0b1110, 0, true⟩ else ⟨0, 0, 0, 0, 0, false⟩
  rsp0 : m.loadPtr (sym.tss + 4) = kstackTop

section Ready

variable {sym : ArchSymbols} {sys : SystemRegs} {kstackTop : ℕ} {m m' : Mem}

theorem segmentAt_congr {gdt idx : ℕ} (hsame : ∀ x, gdt + 8 * idx ≤ x → x < gdt + 8 * idx + 8 → m' x = m x) :
    segmentAt m' gdt idx = segmentAt m gdt idx := by
  unfold segmentAt loadDescriptor
  rw [Mem.load32_congr fun k hk => hsame _ (by omega) (by omega), Mem.load32_congr fun k hk => hsame _ (by omega) (by omega)]

theorem loadGate_congr {idt vec : ℕ} (hsame : ∀ x, idt + vec * 16 ≤ x → x < idt + vec * 16 + 16 → m' x = m x) :
    loadGate m' idt vec = loadGate m idt vec := by
  unfold loadGate idtDescSize
  simp only
  rw [Mem.load32_congr fun k hk => hsame _ (by omega) (by omega), Mem.load32_congr fun k hk => hsame _ (by omega) (by omega),
    Mem.load32_congr fun k hk => hsame _ (by omega) (by omega)]

theorem TablesReady.congr (h : TablesReady sym kstackTop m) (hsame : ∀ x, sym.InTables x → m' x = m x) :
    TablesReady sym kstackTop m' := by
  have hsegment (idx : ℕ) (hidx : idx < 16) : segmentAt m' sym.gdt idx = segmentAt m sym.gdt idx :=
    segmentAt_congr fun x hlo hhi => hsame x (Or.inl ⟨by omega, by unfold gdtSize; omega⟩)
  refine ⟨?_, ?_, ?_, ?_, fun vec hvec => ?_, ?_⟩
  · rw [hsegment 1 (by decide)]
    exact h.kernelCode
  · rw [hsegment 2 (by decide)]
    exact h.kernelData
  · rw [hsegment 3 (by decide)]
    exact h.userData
  · rw [hsegment 4 (by decide)]
    exact h.userCode
  · rw [← h.gate vec hvec]
    exact loadGate_congr fun x hlo hhi => hsame x (Or.inr (Or.inr ⟨by omega, by unfold idtDescSize; omega⟩))
  · rw [← h.rsp0]
    exact Mem.loadPtr_congr fun x hlo hhi => hsame x (Or.inr (Or.inl ⟨by omega, by unfold tssSize; omega⟩))

/-- Another stack in the task state segment. -/
theorem TablesReady.setRsp0 (h : TablesReady sym kstackTop m) {top : ℕ} (htop : top < 2 ^ 64) :
    TablesReady sym top (m.storePtr (sym.tss + 4) top) := by
  have hgdt := sym.gdt_tss
  have hidt := sym.tss_idt
  have hsegment (idx : ℕ) (hidx : idx < 16) :
      segmentAt (m.storePtr (sym.tss + 4) top) sym.gdt idx = segmentAt m sym.gdt idx :=
    segmentAt_congr fun x hlo hhi => Mem.storePtr_of_outside _ _ (by omega)
  refine ⟨?_, ?_, ?_, ?_, fun vec hvec => ?_, Mem.loadPtr_storePtr_self _ _ htop⟩
  · rw [hsegment 1 (by decide)]
    exact h.kernelCode
  · rw [hsegment 2 (by decide)]
    exact h.kernelData
  · rw [hsegment 3 (by decide)]
    exact h.userData
  · rw [hsegment 4 (by decide)]
    exact h.userCode
  · rw [← h.gate vec hvec]
    exact loadGate_congr fun x hlo hhi => Mem.storePtr_of_outside _ _ (by omega)

/-- A switch writes only to the stack that it leaves. -/
theorem contextSwitch_mem_of_outside (s : X86) (next : ℕ) (hroom : 48 ≤ s.sp) {x : ℕ} (hx : x < s.sp - 48 ∨ s.sp ≤ x) :
    (contextSwitch s next).2.mem x = s.mem x := by
  simp only [contextSwitch, X86.ret, X86.popAll_mem]
  exact StackMachine.pushAll_mem_of_outside s.toStackMachine (by exact hroom) hx

/-- A step keeps the tables, up to the stack that is switched to. -/
theorem TablesReady.step {labels : List ArchLabel} {label : ArchLabel} {s t : X86}
    (h : TablesReady sym (lastKstackTop labels) s.mem) (hstep : ArchStep sym s label t) :
    TablesReady sym (lastKstackTop (labels ++ [label])) t.mem := by
  cases label with
  | switch next =>
      obtain ⟨htop, hroom, hapart, rfl⟩ := hstep
      rw [lastKstackTop_switch]
      refine (h.setRsp0 htop).congr fun x hx => ?_
      have hout : x < s.sp - 48 ∨ s.sp ≤ x := by
        by_contra hin
        exact hapart x (by omega) (by omega) hx
      exact contextSwitch_mem_of_outside { s with mem := s.mem.storePtr (sym.tss + 4) next.kstackTop } next.rsp hroom hout
  | other =>
      rw [lastKstackTop_other]
      exact h.congr hstep

theorem TablesReady.run {labels : List ArchLabel} {s t : X86} (h : TablesReady sym 0 s.mem)
    (hrun : Run (ArchStep sym) s labels t) : TablesReady sym (lastKstackTop labels) t.mem := by
  induction hrun with
  | nil => exact h
  | snoc hrun hstep ih => exact ih.step hstep

/-! ## After `arch_init` -/

/-- A descriptor in memory is the segment that it was made of. -/
theorem segmentAt_of_load {idx : ℕ} {base limit flags : BitVec 64}
    (hload : loadDescriptor m sym.gdt idx = (gdtDw0 base limit, gdtDw1 base limit flags)) (hflags : flags &&& gdtFlagBits = flags) :
    segmentAt m sym.gdt idx = .of base limit flags := by
  rw [segmentAt, hload]
  exact decode_gdtDescriptor hflags

/-- The flags of the segments of `gdt_init`. -/
def gdtInitFlags (idx : ℕ) : BitVec 64 :=
  if idx = 1 then gdtGranularity ||| gdtLong ||| gdtSystem ||| gdtCodeSeg ||| gdtRead
  else if idx = 2 then gdtGranularity ||| gdtSystem ||| gdtRead
  else if idx = 3 then gdtGranularity ||| gdtSystem ||| gdtDplRing3 ||| gdtRead
  else gdtGranularity ||| gdtLong ||| gdtSystem ||| gdtDplRing3 ||| gdtCodeSeg ||| gdtRead

/-- The flags of the task state segment. -/
def tssFlags : BitVec 64 := gdtGranularity ||| 1#64 <<< 20 ||| 0b1001#64 <<< 8 ||| gdtPresent

theorem gdtInit_load (sym : ArchSymbols) (m : Mem) (sys : SystemRegs) {idx : ℕ} (hlo : 1 ≤ idx) (hhi : idx ≤ 6) :
    loadDescriptor (gdtInit sym m sys).1 sym.gdt idx =
      if idx = 6 then (((BitVec.ofNat 64 sym.tss) >>> 32 &&& 0xFFFFFFFF#64).setWidth 32, 0)
      else if idx = 5 then (gdtDw0 (BitVec.ofNat 64 sym.tss) (BitVec.ofNat 64 tssSize),
        gdtDw1 (BitVec.ofNat 64 sym.tss) (BitVec.ofNat 64 tssSize) tssFlags)
      else (gdtDw0 0 0xFFFFF#64, gdtDw1 0 0xFFFFF#64 (gdtInitFlags idx)) := by
  simp only [gdtInit, gdtDescriptor64, gdtDescriptor, tssDescriptor64, loadDescriptor_storeDescriptor]
  interval_cases idx <;> rfl

theorem gdtInit_of_outside (sym : ArchSymbols) (m : Mem) (sys : SystemRegs) {x : ℕ}
    (hout : x < sym.gdt ∨ sym.gdt + gdtSize ≤ x) : (gdtInit sym m sys).1 x = m x := by
  unfold gdtSize at hout
  simp only [gdtInit, gdtDescriptor64, gdtDescriptor, tssDescriptor64]
  rw [storeDescriptor_of_outside _ _ (by omega), storeDescriptor_of_outside _ _ (by omega),
    storeDescriptor_of_outside _ _ (by omega), storeDescriptor_of_outside _ _ (by omega),
    storeDescriptor_of_outside _ _ (by omega), storeDescriptor_of_outside _ _ (by omega)]

/-- The upper and the lower half of an address. -/
theorem append_halves (w : BitVec 64) : (w >>> 32 &&& 0xFFFFFFFF#64).setWidth 32 ++ w.setWidth 32 = w := by
  have hhigh : (w >>> 32 &&& 0xFFFFFFFF#64).setWidth 32 = w.extractLsb' 32 32 := by
    ext i hi
    interval_cases i <;> simp
  rw [hhigh, BitVec.setWidth_eq_extractLsb' (by decide), BitVec.extractLsb'_append_extractLsb'_eq_extractLsb' (by rfl)]
  exact BitVec.extractLsb'_eq_self

/-- The processor takes the task state segment. -/
theorem loadTss_gdtInit (sym : ArchSymbols) (m : Mem) (sys : SystemRegs) :
    ∃ dw, loadTss (gdtInit sym m sys).1 (gdtInit sym m sys).2 =
      some (storeDescriptor (gdtInit sym m sys).1 sym.gdt 5 dw, { (gdtInit sym m sys).2 with tr := sym.tss }) := by
  have hidx : (gdtSegmentSelector 5 0 >>> 3).toNat = 5 := by decide
  have hgdtr : (gdtInit sym m sys).2.gdtr = sym.gdt := rfl
  have hseg : segmentAt (gdtInit sym m sys).1 sym.gdt 5 = .of (BitVec.ofNat 64 sym.tss) (BitVec.ofNat 64 tssSize) tssFlags :=
    segmentAt_of_load (gdtInit_load sym m sys (by decide) (by decide)) (by decide)
  have hhigh := gdtInit_load sym m sys (show 1 ≤ 6 by decide) (by decide)
  rw [if_pos rfl] at hhigh
  have hbase : (((BitVec.ofNat 64 sym.tss >>> 32 &&& 0xFFFFFFFF#64).setWidth 32 : BitVec 32) ++
      (Segment.of (BitVec.ofNat 64 sym.tss) (BitVec.ofNat 64 tssSize) tssFlags).base).toNat = sym.tss := by
    rw [show (Segment.of (BitVec.ofNat 64 sym.tss) (BitVec.ofNat 64 tssSize) tssFlags).base =
      (BitVec.ofNat 64 sym.tss).setWidth 32 from rfl, append_halves, BitVec.toNat_ofNat, Nat.mod_eq_of_lt sym.tss_lt]
  have htype : tssFlags.extractLsb' 8 4 = 9 := by decide
  have hsystem : tssFlags.getLsbD 12 = false := by decide
  have hlimit : 8 * 5 + 15 ≤ gdtSize := by decide
  simp only [loadTss, ltr, hidx, hgdtr, hseg, hhigh, hbase]
  exact ⟨_, if_pos ⟨by decide, by decide, hlimit, rfl, hsystem, htype, rfl⟩⟩

/-- `irq_init` writes to the table only. -/
theorem idtEntries_of_outside {idt x : ℕ} {es : List IdtEntry} (hvecs : ∀ e ∈ es, e.vec < 255)
    (hout : x < idt ∨ idt + idtDescSize * 256 ≤ x) (m : Mem) : idtEntries idt m es x = m x := by
  induction es generalizing m with
  | nil => rfl
  | cons e es ih =>
      obtain ⟨hvec, hrest⟩ := List.forall_mem_cons.mp hvecs
      rw [idtEntries, List.foldl_cons]
      refine (ih hrest _).trans ?_
      unfold idtDescSize at hout
      simp only [idtEntry, idtDescSize]
      rw [store32_of_outside _ _ (by omega), store32_of_outside _ _ (by omega), store32_of_outside _ _ (by omega),
        store32_of_outside _ _ (by omega)]

/-- The gates of `irq_init` in a table that was clear. -/
theorem loadGate_irqGates (sym : ArchSymbols) (hclear : ∀ x, sym.idt ≤ x → x < sym.idt + idtDescSize * 256 → m x = 0)
    {vec : ℕ} (hvec : vec < 256) : loadGate (idtEntries sym.idt m (irqGates sym)) sym.idt vec =
      if vec ∈ irqVectors then ⟨sym.irqEntry vec, 8, 0, 0b1110, 0, true⟩ else ⟨0, 0, 0, 0, 0, false⟩ := by
  have hvecs : (irqGates sym).map IdtEntry.vec = irqVectors := rfl
  split_ifs with hmem
  · rw [← hvecs] at hmem
    obtain ⟨e, he, rfl⟩ := List.mem_map.mp hmem
    have hsorted : (irqGates sym).Pairwise fun e e' => e.vec < e'.vec := by
      rw [← List.pairwise_map, hvecs]
      decide
    rw [loadGate_idtEntries_of_lt hsorted m e he]
    obtain ⟨entry, -, rfl⟩ := List.mem_map.mp he
    have htype : gateInterrupt.extractLsb' 0 4 = 0b1110 := by decide
    have hdpl : gateInterrupt.extractLsb' 5 2 = 0 := by decide
    have hpresent : gateInterrupt.getLsbD 7 = true := by decide
    exact Gate.ext rfl rfl rfl htype hdpl (by simpa only [IdtEntry.gate] using hpresent)
  · have hzero : loadGate m sym.idt vec = ⟨0, 0, 0, 0, 0, false⟩ := by
      have hload (k : ℕ) (hk : k + 4 ≤ 16) : m.load32 (sym.idt + vec * idtDescSize + k) = 0 := by
        unfold idtDescSize at hclear ⊢
        rw [Mem.load32, hclear _ (by omega) (by omega), hclear _ (by omega) (by omega), hclear _ (by omega) (by omega),
          hclear _ (by omega) (by omega)]
        rfl
      have hfirst := hload 0 (by decide)
      rw [Nat.add_zero] at hfirst
      rw [loadGate]
      simp only [hfirst, hload 4 (by decide), hload 8 (by decide)]
      rfl
    have hne : ∀ e ∈ irqGates sym, vec ≠ e.vec := fun e he heq => hmem (hvecs ▸ heq ▸ List.mem_map_of_mem he)
    rw [loadGate_idtEntries_of_ne hne, hzero]
    split_ifs
    · rfl
    · rfl

/-- A clear byte stays clear. -/
theorem unmapEarly_zero (earlyPml4 : ℕ) {x : ℕ} (hx : m x = 0) : unmapEarly earlyPml4 m x = 0 := by
  unfold unmapEarly Mem.storeWord
  split_ifs
  · simp
  · exact hx

/-- `arch_init` returns, with everything in place. -/
theorem archInit_ready (sys : SystemRegs) (hclear : ∀ x, sym.InTables x → m x = 0) :
    ∃ m' sys', archInit sym m sys = some (m', sys') ∧ SystemReady sym sys' ∧ TablesReady sym 0 m' := by
  have hgdtTss := sym.gdt_tss
  have hgdtIdt := sym.gdt_idt
  have htssIdt := sym.tss_idt
  set m₁ := unmapEarly sym.earlyPml4 m with hm₁
  have hclear₁ : ∀ x, sym.InTables x → m₁ x = 0 := fun x hx => unmapEarly_zero _ (hclear x hx)
  obtain ⟨dw, htss⟩ := loadTss_gdtInit sym m₁ sys
  set m₂ := (gdtInit sym m₁ sys).1 with hm₂
  set m₃ := storeDescriptor m₂ sym.gdt 5 dw with hm₃
  have hrun : archInit sym m sys = some (irqInit sym m₃ (syscallInit sym { (gdtInit sym m₁ sys).2 with tr := sym.tss })) := by
    change (loadTss m₂ (gdtInit sym m₁ sys).2 >>= fun p => some (irqInit sym p.1 (syscallInit sym p.2))) = _
    rw [htss]
    rfl
  have hvecs : ∀ e ∈ irqGates sym, e.vec < 255 := by
    simp [irqGates, irqEntries]
  have houtside {x : ℕ} (hx : x < sym.gdt ∨ sym.gdt + 128 ≤ x) : m₃ x = m₁ x := by
    rw [hm₃, storeDescriptor_of_outside _ _ (by omega), hm₂, gdtInit_of_outside _ _ _ (by unfold gdtSize; omega)]
  have hsegment (idx : ℕ) (hlo : 1 ≤ idx) (hhi : idx ≤ 4) :
      segmentAt (idtEntries sym.idt m₃ (irqGates sym)) sym.gdt idx = .of 0 0xFFFFF#64 (gdtInitFlags idx) := by
    rw [segmentAt_congr fun x hlo hhi => idtEntries_of_outside hvecs (by unfold idtDescSize; omega) m₃]
    refine segmentAt_of_load ?_ (by unfold gdtInitFlags; interval_cases idx <;> decide)
    rw [hm₃, loadDescriptor_storeDescriptor, if_neg (by omega), hm₂, gdtInit_load sym m₁ sys hlo (by omega), if_neg (by omega),
      if_neg (by omega)]
  refine ⟨_, _, hrun, ⟨rfl, rfl, rfl, rfl, rfl, ?_, rfl, rfl, rfl⟩, ?_, ?_, ?_, ?_, fun vec hvec => ?_, ?_⟩
  · change (sys.efer ||| 1#64 <<< 0).getLsbD 0 = true
    simp
  · rw [hsegment 1 (by decide) (by decide)]
    decide
  · rw [hsegment 2 (by decide) (by decide)]
    decide
  · rw [hsegment 3 (by decide) (by decide)]
    decide
  · rw [hsegment 4 (by decide) (by decide)]
    decide
  · refine loadGate_irqGates sym (fun x hlo hhi => ?_) hvec
    rw [houtside (by unfold idtDescSize at hhi; omega)]
    exact hclear₁ x (Or.inr (Or.inr ⟨hlo, hhi⟩))
  · rw [@Mem.loadPtr_congr (fun _ => 0) _ _ fun x hlo hhi => ?_]
    · simp [Mem.loadPtr, Mem.loadWord]
    · rw [idtEntries_of_outside hvecs (by unfold idtDescSize; omega), houtside (by omega)]
      exact hclear₁ x (Or.inr (Or.inl ⟨by omega, by unfold tssSize; omega⟩))

/-! ## What the processor does -/

/-- The selectors of the kernel and of programs name segments of their ring. -/
structure SegmentsOk (m : Mem) (sys : SystemRegs) : Prop where
  kernelCode : ∃ seg, loadSegment m sys kernelCodeSeg = some seg ∧ seg.IsCode 0
  kernelData : ∃ seg, loadSegment m sys (kernelCodeSeg + 8) = some seg ∧ seg.IsData 0
  userCode : ∃ seg, loadSegment m sys userCodeSeg = some seg ∧ seg.IsCode 3
  userData : ∃ seg, loadSegment m sys userDataSeg = some seg ∧ seg.IsData 3

theorem SystemReady.loadSegment_eq (hsys : SystemReady sym sys) (m : Mem) {selector : BitVec 16} (hti : selector.getLsbD 2 = false)
    {idx : ℕ} (hidx : (selector >>> 3).toNat = idx) (hlo : idx ≠ 0) (hhi : idx < 16) :
    loadSegment m sys selector = some (segmentAt m sym.gdt idx) := by
  rw [loadSegment, hidx, hsys.gdtr, hsys.gdtLimit]
  exact if_pos ⟨hti, hlo, by unfold gdtSize; omega⟩

theorem TablesReady.segmentsOk (h : TablesReady sym kstackTop m) (hsys : SystemReady sym sys) : SegmentsOk m sys where
  kernelCode := ⟨_, hsys.loadSegment_eq m (by decide) (by decide) (by decide) (by decide), h.kernelCode⟩
  kernelData := ⟨_, hsys.loadSegment_eq m (by decide) (by decide) (by decide) (by decide), h.kernelData⟩
  userCode := ⟨_, hsys.loadSegment_eq m (by decide) (by decide) (by decide) (by decide), h.userCode⟩
  userData := ⟨_, hsys.loadSegment_eq m (by decide) (by decide) (by decide) (by decide), h.userData⟩

/-- Delivery through the tables is delivery to the stub, on the stack in the task state segment. -/
theorem TablesReady.deliverThrough {s : X86} (h : TablesReady sym kstackTop s.mem) (hsys : SystemReady sym sys) {vec : ℕ}
    (hvec : vec < 256) (errcode : BitVec 64) :
    s.deliverThrough sys vec errcode =
      if vec ∈ irqVectors then some (s.deliver kstackTop vec errcode (sym.irqEntry vec)) else none := by
  have hlimit : vec * idtDescSize + 15 ≤ idtDescSize * 256 := by
    unfold idtDescSize
    omega
  have hsegment : loadSegment s.mem sys 8 = some (segmentAt s.mem sym.gdt 1) :=
    hsys.loadSegment_eq s.mem (by decide) (by decide) (by decide) (by decide)
  have hcode := h.kernelCode
  unfold X86.deliverThrough
  simp only [hsys.idtr, hsys.idtLimit, hsys.tr, h.gate vec hvec, h.rsp0]
  by_cases hmem : vec ∈ irqVectors
  · simp only [if_pos hmem, hsegment]
    rw [if_pos ⟨hlimit, trivial, trivial, trivial⟩]
    exact if_pos hcode
  · simp only [if_neg hmem]
    exact if_neg (fun hgate => by simp at hgate)

theorem SystemReady.syscallThrough (hsys : SystemReady sym sys) (s : X86) :
    s.syscallThrough sys = some (s.syscall sym.syscallEntry) := by
  have hselector : sys.star.extractLsb' 32 16 = kernelCodeSeg := by
    rw [hsys.star]
    decide
  rw [X86.syscallThrough, hselector, hsys.lstar, hsys.fmask]
  exact if_pos hsys.sce

theorem SystemReady.sysretThrough (hsys : SystemReady sym sys) (s : X86) : s.sysretThrough sys = some s.sysret := by
  have hselector : sys.star.extractLsb' 48 16 = starUser := by
    rw [hsys.star]
    decide
  rw [X86.sysretThrough, hselector]
  exact if_pos hsys.sce

/-- `arch_init` returns. From then on, in every run of the processor that leaves the tables alone,
interrupts with a stub are delivered to it, from user mode on the stack of the thread that has been
switched to last, and others are not delivered; `syscall` goes to `syscall_entry` and `sysret`
back; and the selectors in use name segments of their ring. -/
theorem tables_deliver (sym : ArchSymbols) (m : Mem) (sys : SystemRegs) (hclear : ∀ x, sym.InTables x → m x = 0) :
    ∃ m' sys', archInit sym m sys = some (m', sys') ∧
      ∀ s t labels, s.mem = m' → Run (ArchStep sym) s labels t →
        (∀ vec < 256, ∀ errcode, t.deliverThrough sys' vec errcode =
          if vec ∈ irqVectors then some (t.deliver (lastKstackTop labels) vec errcode (sym.irqEntry vec)) else none) ∧
        t.syscallThrough sys' = some (t.syscall sym.syscallEntry) ∧ t.sysretThrough sys' = some t.sysret ∧
        SegmentsOk t.mem sys' := by
  obtain ⟨m', sys', hinit, hsys, hready⟩ := archInit_ready sys hclear
  refine ⟨m', sys', hinit, fun s t labels hs hrun => ?_⟩
  have htables := TablesReady.run (hs ▸ hready) hrun
  exact ⟨fun vec hvec errcode => htables.deliverThrough hsys hvec errcode, hsys.syscallThrough t, hsys.sysretThrough t,
    htables.segmentsOk hsys⟩

end Ready

/-- Tables behind each other, in the memory that the processor starts with. -/
def tablesSymbols : ArchSymbols where
  earlyPml4 := 0x200000
  gdt := 0xffffffff80200000
  tss := 0xffffffff80200080
  idt := 0xffffffff80201000
  irqEntry vec := 0xffffffff80100000 + BitVec.ofNat 64 (16 * vec)
  syscallEntry := 0xffffffff80104000
  tss_lt := by decide
  gdt_tss := by decide
  gdt_idt := by decide
  tss_idt := by decide

theorem tables_deliver_clear : ∃ m' sys', archInit tablesSymbols (fun _ => 0) ⟨0, 0, 0, 0, 0, 0, 0, 0, 0⟩ = some (m', sys') ∧
    ∀ s t labels, s.mem = m' → Run (ArchStep tablesSymbols) s labels t →
      (∀ vec < 256, ∀ errcode, t.deliverThrough sys' vec errcode =
        if vec ∈ irqVectors then some (t.deliver (lastKstackTop labels) vec errcode (tablesSymbols.irqEntry vec)) else none) ∧
      t.syscallThrough sys' = some (t.syscall tablesSymbols.syscallEntry) ∧ t.sysretThrough sys' = some t.sysret ∧
      SegmentsOk t.mem sys' :=
  tables_deliver tablesSymbols (fun _ => 0) ⟨0, 0, 0, 0, 0, 0, 0, 0, 0⟩ fun _ _ => rfl

end HeavenOS
