/-
# The memory map on the screen

`dump_memmap` of `kernel/kernel.c`: one line for each entry of the multiboot memory map, printed
with `printk` while the iterator of `Kernel.Multiboot` goes on. The map is not in the framebuffer,
so that printing does not change it. The line of an entry has two pointers, for which `printk` has
room only below 64 GiB.
-/

import HeavenOS.Kernel.Multiboot
import HeavenOS.Kernel.Screen

namespace HeavenOS

open Lib Printk

/-- `MB_MEMMAP_TYPE_RAM` -/
def mbMemmapTypeRam : ℕ := 1

/-- `MB_MEMMAP_TYPE_ACPI` -/
def mbMemmapTypeAcpi : ℕ := 3

/-- `MB_MEMMAP_TYPE_HIBER` -/
def mbMemmapTypeHiber : ℕ := 4

/-- `MB_MEMMAP_TYPE_DEFECTIVE` -/
def mbMemmapTypeDefective : ℕ := 5

/-- `memmap_entry->base_addr` -/
def mbEntryBase (m : Mem) (entry : ℕ) : BitVec 64 := m.loadWord entry

/-- `memmap_entry->length` -/
def mbEntryLength (m : Mem) (entry : ℕ) : BitVec 64 := m.loadWord (entry + 8)

/-- `memmap_entry->type` -/
def mbEntryType (m : Mem) (entry : ℕ) : ℕ := m.loadU32 (entry + 16)

/-- `printk` -/
def printk (fmt : List (BitVec 8)) (args : List Arg) : PrintkCall := ⟨fmt, args, 0xFFFFFF, 0⟩

/-- `"Multiboot memory map:\n"` -/
def memmapHeader : List (BitVec 8) :=
  literal ['M', 'u', 'l', 't', 'i', 'b', 'o', 'o', 't', ' ', 'm', 'e', 'm', 'o', 'r', 'y', ' ', 'm', 'a', 'p', ':', '\n']

/-- `"mem region: "` -/
def memmapRegion : List (BitVec 8) := literal ['m', 'e', 'm', ' ', 'r', 'e', 'g', 'i', 'o', 'n', ':', ' ']

/-- The `switch` over the type of an entry. -/
def memmapTypeText (type : ℕ) : List (BitVec 8) :=
  if type = mbMemmapTypeRam then literal ['[', 'R', 'A', 'M', ']', ' ', ' ', ' ', ' ', ' ', ' ', ' ']
  else if type = mbMemmapTypeAcpi then literal ['[', 'A', 'C', 'P', 'I', ']', ' ', ' ', ' ', ' ', ' ', ' ']
  else if type = mbMemmapTypeHiber then literal ['[', 'H', 'I', 'B', 'E', 'R', ']', ' ', ' ', ' ', ' ', ' ']
  else if type = mbMemmapTypeDefective then literal ['[', 'D', 'E', 'F', 'E', 'C', 'T', 'I', 'V', 'E', ']', ' ']
  else literal ['[', 'R', 'E', 'S', 'E', 'R', 'V', 'E', 'D', ']', ' ', ' ']

/-- `"%p - %p len=0x%x\n"` -/
def memmapFormat : List (BitVec 8) :=
  literal ['%', 'p', ' ', '-', ' ', '%', 'p', ' ', 'l', 'e', 'n', '=', '0', 'x', '%', 'x', '\n']

/-- The last call for an entry. Of the length `%x` takes the low half. -/
def memmapBounds (m : Mem) (entry : ℕ) : PrintkCall :=
  printk memmapFormat [.ptr (mbEntryBase m entry), .ptr (mbEntryBase m entry + mbEntryLength m entry),
    .u32 ((mbEntryLength m entry).setWidth 32)]

/-- The body of the loop of `dump_memmap`. The stack of the call with number `n` is `stack n`. -/
def dumpMemmapEntry (r : Region) (fb : Fb) (stack : ℕ → Mem × ℕ) (n entry : ℕ) (s : Console × Mem) :
    Except Fault (Console × Mem) := do
  let s ← (printk memmapRegion []).run r fb (stack n).1 (stack n).2 s
  let s ← (printk (memmapTypeText (mbEntryType s.2 entry)) []).run r fb (stack (n + 1)).1 (stack (n + 1)).2 s
  (memmapBounds s.2 entry).run r fb (stack (n + 2)).1 (stack (n + 2)).2 s

/-- The loop of `dump_memmap`. -/
def dumpMemmapLoop (r : Region) (fb : Fb) (mbMemmapInfo : ℕ) (stack : ℕ → Mem × ℕ) :
    (fuel n currEntry : ℕ) → Console × Mem → Except Fault (Console × Mem)
  | 0, _, _, _ => .error .unfinished
  | fuel + 1, n, currEntry, s =>
      let (entry, currEntry) := mbMemmapIterNext s.2 mbMemmapInfo currEntry
      if entry = 0 then .ok s
      else do
        let s ← dumpMemmapEntry r fb stack n entry s
        dumpMemmapLoop r fb mbMemmapInfo stack fuel (n + 3) currEntry s

/-- `dump_memmap` -/
def dumpMemmap (r : Region) (fb : Fb) (mbMemmapInfo : ℕ) (stack : ℕ → Mem × ℕ) (fuel : ℕ) (s : Console × Mem) :
    Except Fault (Console × Mem) := do
  let currEntry ← (mbMemmapIterInit mbMemmapInfo).mapError .panic
  let s ← (printk memmapHeader []).run r fb (stack 0).1 (stack 0).2 s
  dumpMemmapLoop r fb mbMemmapInfo stack fuel 1 currEntry s

/-! ## Texts -/

/-- The end of the line of an entry. -/
def memmapBoundsText (m : Mem) (entry : ℕ) : List (BitVec 8) :=
  pointerText (mbEntryBase m entry).toNat ++ literal [' ', '-', ' '] ++
    pointerText (mbEntryBase m entry + mbEntryLength m entry).toNat ++ literal [' ', 'l', 'e', 'n', '=', '0', 'x'] ++
    numeral 16 ((mbEntryLength m entry).setWidth 32).toNat ++ literal ['\n']

/-- The line of an entry. -/
def memmapLine (m : Mem) (entry : ℕ) : List (BitVec 8) :=
  memmapRegion ++ memmapTypeText (mbEntryType m entry) ++ memmapBoundsText m entry

/-- A text in white on black. -/
def whiteText (text : List (BitVec 8)) : List Output := text.map fun c => ⟨c, 0xFFFFFF, 0⟩

/-- A memory map with `n` entries at `info`. -/
structure MemmapTag (m : Mem) (info n : ℕ) : Prop where
  /-- An entry has room for its fields. -/
  entry : 24 ≤ mbEntrySize m info
  size : mbTagSize m info = 16 + n * mbEntrySize m info
  fits : info + mbTagSize m info < 2 ^ 64

/-- The entry with number `i`. -/
def mbEntryAt (m : Mem) (info i : ℕ) : ℕ := info + 16 + i * mbEntrySize m info

/-- What `dump_memmap` prints for a memory map with `n` entries. -/
def memmapText (m : Mem) (info n : ℕ) : List (BitVec 8) :=
  memmapHeader ++ (List.range n).flatMap fun i => memmapLine m (mbEntryAt m info i)

/-- Both ends of the entry are below 64 GiB. -/
def MemmapEntryFits (m : Mem) (entry : ℕ) : Prop :=
  (mbEntryBase m entry).toNat < 2 ^ 36 ∧ (mbEntryBase m entry + mbEntryLength m entry).toNat < 2 ^ 36

/-- A format without conversions. -/
theorem parse_plain {text : List (BitVec 8)} (h : ascii '%' ∉ text) (args : List Arg) :
    parse true text args = some (text.map .char, args, true) := by
  induction text with
  | nil => rfl
  | cons c text ih =>
      rw [List.mem_cons, not_or] at h
      rw [parse, if_pos (Ne.symm h.1), ih h.2]
      rfl

theorem render_plain (text : List (BitVec 8)) : render (text.map .char) = text := by
  induction text with
  | nil => rfl
  | cons c text ih =>
      rw [List.map_cons, render_cons, ih]
      rfl

theorem clean_plain (stale : Bool) (text : List (BitVec 8)) : Clean stale (text.map .char) := by
  induction text with
  | nil => trivial
  | cons c text ih => exact ih

/-- Such a format is its own text. -/
theorem printk_renders {text : List (BitVec 8)} (h : ascii '%' ∉ text) : (printk text []).Renders text := by
  refine ⟨_, _, _, parse_plain h [], fun p hp => ?_, clean_plain true text, render_plain text⟩
  obtain ⟨c, -, rfl⟩ := List.mem_map.mp hp
  trivial

/-- The pieces of the last call for an entry. -/
def boundsPieces (m : Mem) (entry : ℕ) : List Piece :=
  [.pointer (mbEntryBase m entry)] ++ (literal [' ', '-', ' ']).map .char ++
    [.pointer (mbEntryBase m entry + mbEntryLength m entry)] ++ (literal [' ', 'l', 'e', 'n', '=', '0', 'x']).map .char ++
    [.hex ((mbEntryLength m entry).setWidth 32)] ++ (literal ['\n']).map .char

theorem memmapBounds_parse (m : Mem) (entry : ℕ) :
    parse true (memmapBounds m entry).fmt (memmapBounds m entry).args = some (boundsPieces m entry, [], true) := by
  rfl

theorem boundsPieces_safe {m : Mem} {entry : ℕ} : (∀ p ∈ boundsPieces m entry, p.Safe) ↔ MemmapEntryFits m entry := by
  simp [boundsPieces, literal, Piece.Safe, MemmapEntryFits]

theorem render_boundsPieces (m : Mem) (entry : ℕ) : render (boundsPieces m entry) = memmapBoundsText m entry := by
  have hone (p : Piece) : render [p] = p.text := by rw [render_cons, render, List.flatMap_nil, List.append_nil]
  simp only [boundsPieces, render_append, render_plain, hone]
  rfl

theorem memmapBounds_renders {m : Mem} {entry : ℕ} (hfits : MemmapEntryFits m entry) :
    (memmapBounds m entry).Renders (memmapBoundsText m entry) :=
  ⟨_, _, _, memmapBounds_parse m entry, boundsPieces_safe.mpr hfits, trivial, render_boundsPieces m entry⟩

/-! ## Characters -/

theorem digitChar_plain (d : ℕ) : Plain [digitChar d] := by
  intro c hc
  obtain rfl := List.mem_singleton.mp hc
  have hdigits : ∀ d < 16, (digitChar d).toNat < 128 ∧ digitChar d ≠ ascii '\r' := by decide
  by_cases hd : d < 16
  · exact hdigits d hd
  · have hnone : Printk.digits[d]? = none := List.getElem?_eq_none (Nat.not_lt.mp hd)
    rw [digitChar, List.getD_eq_getElem?_getD, hnone]
    decide

theorem numeral_plain (base a : ℕ) : Plain (numeral base a) := by
  unfold numeral
  split_ifs
  · exact (show Plain (literal ['0']) from (plain_literal rfl).1)
  · intro c hc
    obtain ⟨d, -, rfl⟩ := List.mem_map.mp (List.mem_reverse.mp hc)
    exact digitChar_plain d _ (List.mem_singleton_self _)

theorem pointerText_plain (ptr : ℕ) : Plain (pointerText ptr) := by
  unfold pointerText
  split_ifs
  · exact (plain_literal rfl).1
  · exact Plain.append (plain_literal rfl).1 (numeral_plain 16 ptr)

theorem memmapBoundsText_plain (m : Mem) (entry : ℕ) : Plain (memmapBoundsText m entry) := by
  refine .append (.append (.append (.append (.append ?_ ?_) ?_) ?_) ?_) ?_
  · exact pointerText_plain _
  · exact (plain_literal rfl).1
  · exact pointerText_plain _
  · exact (plain_literal rfl).1
  · exact numeral_plain 16 _
  · exact (plain_literal rfl).1

theorem memmapTypeText_plain (type : ℕ) : Plain (memmapTypeText type) ∧ ascii '%' ∉ memmapTypeText type := by
  unfold memmapTypeText
  split_ifs <;> exact plain_literal rfl

/-! ## Memory next to the framebuffer -/

section Loads

variable {r : Region} {m m' : Mem} (h : SameOutside r m m')

include h

theorem SameOutside.loadWord {a : ℕ} (hout : a + 8 ≤ r.lo ∨ r.hi ≤ a) : m'.loadWord a = m.loadWord a :=
  Mem.loadWord_congr fun x _ _ => h x (by omega)

theorem SameOutside.loadU32 {a : ℕ} (hout : a + 4 ≤ r.lo ∨ r.hi ≤ a) : m'.loadU32 a = m.loadU32 a := by
  unfold Mem.loadU32
  rw [h (a + 3) (by omega), h (a + 2) (by omega), h (a + 1) (by omega), h a (by omega)]

/-- An entry outside of the region is as before. -/
theorem SameOutside.entry {entry : ℕ} (hout : entry + 20 ≤ r.lo ∨ r.hi ≤ entry) :
    mbEntryBase m' entry = mbEntryBase m entry ∧ mbEntryLength m' entry = mbEntryLength m entry ∧
      mbEntryType m' entry = mbEntryType m entry :=
  ⟨h.loadWord (by omega), h.loadWord (by omega), h.loadU32 (by omega)⟩

end Loads

/-! ## The entries -/

section Entries

variable {m : Mem} {info n : ℕ} (htag : MemmapTag m info n)

include htag

/-- An entry lies in the tag. -/
theorem MemmapTag.entryAt_bounds {i : ℕ} (hi : i < n) :
    info + 16 ≤ mbEntryAt m info i ∧ mbEntryAt m info (i + 1) = mbEntryAt m info i + mbEntrySize m info ∧
      mbEntryAt m info i + 24 ≤ info + mbTagSize m info ∧ mbEntryAt m info (i + 1) ≤ info + mbTagSize m info := by
  have hmul := Nat.mul_le_mul_right (mbEntrySize m info) (show i + 1 ≤ n by omega)
  have hentry := htag.entry
  have htagSize := htag.size
  unfold mbEntryAt
  rw [Nat.succ_mul] at *
  omega

/-- The iterator goes from entry to entry. -/
theorem MemmapTag.iterNext {i : ℕ} (hi : i ≤ n) :
    mbMemmapIterNext m info (mbEntryAt m info i) =
      if i < n then (mbEntryAt m info i, mbEntryAt m info (i + 1)) else (0, mbEntryAt m info i) := by
  have hfits := htag.fits
  rw [mbMemmapIterNext, Nat.mod_eq_of_lt hfits]
  by_cases hlt : i < n
  · obtain ⟨-, hnext, hin, hin'⟩ := htag.entryAt_bounds hlt
    rw [if_pos hlt, if_neg (by omega), ← hnext, Nat.mod_eq_of_lt (by omega)]
  · obtain rfl : i = n := by omega
    rw [if_neg hlt, if_pos (by rw [htag.size, mbEntryAt]; omega)]

/-- One iteration of the loop of `dump_memmap`. -/
theorem MemmapTag.dumpMemmapLoop_succ {r : Region} {fb : Fb} {stack : ℕ → Mem × ℕ} {fuel k i : ℕ} (hi : i ≤ n)
    {s : Console × Mem} (hiter : ∀ entry, mbMemmapIterNext s.2 info entry = mbMemmapIterNext m info entry) :
    dumpMemmapLoop r fb info stack (fuel + 1) k (mbEntryAt m info i) s =
      if i < n then
        dumpMemmapEntry r fb stack k (mbEntryAt m info i) s >>=
          dumpMemmapLoop r fb info stack fuel (k + 3) (mbEntryAt m info (i + 1))
      else .ok s := by
  rw [dumpMemmapLoop, hiter, htag.iterNext hi]
  split_ifs with hlt
  · have := (htag.entryAt_bounds hlt).1
    simp only [if_neg (show mbEntryAt m info i ≠ 0 by omega)]
  · rfl

end Entries

/-- The iterator reads the header of the memory map only. -/
theorem SameOutside.iterNext {r : Region} {m m' : Mem} (h : SameOutside r m m') {info : ℕ}
    (hout : info + 16 ≤ r.lo ∨ r.hi ≤ info) (entry : ℕ) : mbMemmapIterNext m' info entry = mbMemmapIterNext m info entry := by
  unfold mbMemmapIterNext mbTagSize mbEntrySize
  rw [h.loadU32 (by omega), h.loadU32 (by omega)]

/-! ## The lines -/

section Dump

variable {fb : Fb} {w h p : ℕ} (hfb : fb.Geometry w h p) (hw : 8 ≤ w) (hh : 8 ≤ h) (hsize : h * p < 2 ^ 31)

include hfb hw hh hsize

/-- A text without conversions. -/
theorem OnScreen.printk {xs : List Output} {s : Console × Mem} (hs : OnScreen fb w h xs s) (text : List (BitVec 8))
    (hplain : Plain text) (hpercent : ascii '%' ∉ text) (buf : Mem) (size : ℕ) :
    ∃ s', (printk text []).run fb.region fb buf size s = .ok s' ∧ SameOutside fb.region s.2 s'.2 ∧
      OnScreen fb w h (xs ++ whiteText text) s' :=
  hs.call hfb hw hh hsize (printk_renders hpercent) hplain buf size

/-- The line of an entry is drawn exactly if the entry fits. -/
theorem OnScreen.dumpMemmapEntry {xs : List Output} {s : Console × Mem} (hs : OnScreen fb w h xs s) {entry : ℕ}
    (hout : entry + 20 ≤ fb.region.lo ∨ fb.region.hi ≤ entry) (stack : ℕ → Mem × ℕ) (n : ℕ) :
    (MemmapEntryFits s.2 entry → ∃ s', dumpMemmapEntry fb.region fb stack n entry s = .ok s' ∧
      SameOutside fb.region s.2 s'.2 ∧ OnScreen fb w h (xs ++ whiteText (memmapLine s.2 entry)) s') ∧
    ∀ s', dumpMemmapEntry fb.region fb stack n entry s = .ok s' → MemmapEntryFits s.2 entry := by
  obtain ⟨hplain, hpercent⟩ : Plain memmapRegion ∧ ascii '%' ∉ memmapRegion := plain_literal rfl
  obtain ⟨s₁, hregion, hkept₁, hs₁⟩ := hs.printk hfb hw hh hsize _ hplain hpercent (stack n).1 (stack n).2
  obtain ⟨hplain, hpercent⟩ := memmapTypeText_plain (mbEntryType s₁.2 entry)
  obtain ⟨s₂, htype, hkept₂, hs₂⟩ := hs₁.printk hfb hw hh hsize _ hplain hpercent (stack (n + 1)).1 (stack (n + 1)).2
  have hrun : HeavenOS.dumpMemmapEntry fb.region fb stack n entry s =
      (memmapBounds s₂.2 entry).run fb.region fb (stack (n + 2)).1 (stack (n + 2)).2 s₂ := by
    rw [HeavenOS.dumpMemmapEntry, hregion, Fault.ok_bind, htype, Fault.ok_bind]
  obtain ⟨-, -, htype₁⟩ := hkept₁.entry hout
  obtain ⟨hbase, hlength, -⟩ := (hkept₁.trans hkept₂).entry hout
  have hfits : MemmapEntryFits s₂.2 entry ↔ MemmapEntryFits s.2 entry := by
    rw [MemmapEntryFits, MemmapEntryFits, hbase, hlength]
  have htext : memmapBoundsText s₂.2 entry = memmapBoundsText s.2 entry := by
    rw [memmapBoundsText, memmapBoundsText, hbase, hlength]
  rw [hrun]
  constructor
  · intro hentry
    obtain ⟨s', hbounds, hkept, hs'⟩ := hs₂.call hfb hw hh hsize (memmapBounds_renders (hfits.mpr hentry))
      (memmapBoundsText_plain s₂.2 entry) (stack (n + 2)).1 (stack (n + 2)).2
    refine ⟨s', hbounds, (hkept₁.trans hkept₂).trans hkept, ?_⟩
    have hline : xs ++ whiteText (memmapLine s.2 entry) =
        xs ++ whiteText memmapRegion ++ whiteText (memmapTypeText (mbEntryType s₁.2 entry)) ++
          (memmapBounds s₂.2 entry).output (memmapBoundsText s₂.2 entry) := by
      rw [htext, htype₁, memmapLine, whiteText, List.map_append, List.map_append, List.append_assoc, List.append_assoc,
        List.append_assoc]
      rfl
    rwa [hline]
  · intro s' hbounds
    exact hfits.mp (boundsPieces_safe.mp (PrintkCall.safe_of_run hs₂.on.initialized hbounds (memmapBounds_parse s₂.2 entry)))

variable {info n : ℕ} {m : Mem} (htag : MemmapTag m info n)
  (hout : info + mbTagSize m info ≤ fb.region.lo ∨ fb.region.hi ≤ info)

include htag hout

/-- Entries from number `i` on: the loop returns exactly if they all fit, and draws their lines. -/
theorem OnScreen.dumpMemmapLoop (stack : ℕ → Mem × ℕ) {fuel i k : ℕ} (hi : i ≤ n) (hfuel : n < i + fuel)
    {xs : List Output} {s : Console × Mem} (hs : OnScreen fb w h xs s) (hkept : SameOutside fb.region m s.2) :
    ((∃ s', dumpMemmapLoop fb.region fb info stack fuel k (mbEntryAt m info i) s = .ok s') ↔
      ∀ j, i ≤ j → j < n → MemmapEntryFits m (mbEntryAt m info j)) ∧
    ∀ s', dumpMemmapLoop fb.region fb info stack fuel k (mbEntryAt m info i) s = .ok s' → SameOutside fb.region m s'.2 ∧
      OnScreen fb w h (xs ++ whiteText ((List.range' i (n - i)).flatMap fun j => memmapLine m (mbEntryAt m info j))) s' := by
  induction fuel generalizing i k xs s with
  | zero => omega
  | succ fuel ih =>
      rw [htag.dumpMemmapLoop_succ hi (hkept.iterNext (by have := htag.size; omega))]
      by_cases hlast : i = n
      · subst hlast
        rw [if_neg (lt_irrefl _), Nat.sub_self, List.range'_zero]
        refine ⟨⟨fun _ j _ _ => by omega, fun _ => ⟨s, rfl⟩⟩, fun s' hs' => ?_⟩
        obtain rfl := Except.ok.inj hs'
        exact ⟨hkept, by rwa [List.flatMap_nil, whiteText, List.map_nil, List.append_nil]⟩
      · have hlt : i < n := by omega
        have houtside : mbEntryAt m info i + 20 ≤ fb.region.lo ∨ fb.region.hi ≤ mbEntryAt m info i := by
          have := htag.entryAt_bounds hlt
          omega
        obtain ⟨hbase, hlength, htype⟩ := hkept.entry houtside
        have hfits : MemmapEntryFits s.2 (mbEntryAt m info i) ↔ MemmapEntryFits m (mbEntryAt m info i) := by
          rw [MemmapEntryFits, MemmapEntryFits, hbase, hlength]
        have hline : memmapLine s.2 (mbEntryAt m info i) = memmapLine m (mbEntryAt m info i) := by
          rw [memmapLine, memmapLine, memmapBoundsText, memmapBoundsText, hbase, hlength, htype]
        obtain ⟨hdraw, hdrawn⟩ := hs.dumpMemmapEntry hfb hw hh hsize houtside stack k
        rw [hfits] at hdraw hdrawn
        rw [hline] at hdraw
        have hlines : (List.range' i (n - i)).flatMap (fun j => memmapLine m (mbEntryAt m info j)) =
            memmapLine m (mbEntryAt m info i) ++
              (List.range' (i + 1) (n - (i + 1))).flatMap fun j => memmapLine m (mbEntryAt m info j) := by
          rw [show n - i = n - (i + 1) + 1 by omega, List.range'_succ, List.flatMap_cons]
        rw [if_pos hlt, hlines, whiteText, List.map_append, ← List.append_assoc]
        by_cases hentry : MemmapEntryFits m (mbEntryAt m info i)
        · obtain ⟨s₁, hstep, hkept₁, hs₁⟩ := hdraw hentry
          obtain ⟨hreturns, hdone⟩ := ih (k := k + 3) hlt (by omega) hs₁ (hkept.trans hkept₁)
          rw [hstep, Fault.ok_bind]
          refine ⟨hreturns.trans ⟨fun hrest j hlo hhi => ?_, fun hall j hlo hhi => hall j (by omega) hhi⟩, hdone⟩
          rcases hlo.eq_or_lt with rfl | hlo
          · exact hentry
          · exact hrest j hlo hhi
        · -- the line cannot be drawn
          have hnot (s' : Console × Mem) :
              (HeavenOS.dumpMemmapEntry fb.region fb stack k (mbEntryAt m info i) s >>=
                HeavenOS.dumpMemmapLoop fb.region fb info stack fuel (k + 3) (mbEntryAt m info (i + 1))) ≠ .ok s' := fun hs' => by
            obtain ⟨s₁, hstep, -⟩ := Fault.bind_eq_ok.mp hs'
            exact hentry (hdrawn s₁ hstep)
          exact ⟨⟨fun ⟨s', hs'⟩ => absurd hs' (hnot s'), fun hall => absurd (hall i (le_refl i) hlt) hentry⟩,
            fun s' hs' => absurd hs' (hnot s')⟩

/-- On a memory map that is not in the framebuffer `dump_memmap` returns exactly if both ends of
every entry are below 64 GiB. The screen then shows the map behind what it has shown before, and
memory outside of the framebuffer, and with it the map, is as before. -/
theorem memmap_on_screen (hinfo : info ≠ 0) (stack : ℕ → Mem × ℕ) {fuel : ℕ} (hfuel : n < fuel) {cons : Console}
    {xs : List Output} (hs : OnScreen fb w h xs (cons, m)) :
    ((∃ s', dumpMemmap fb.region fb info stack fuel (cons, m) = .ok s') ↔
      ∀ i < n, MemmapEntryFits m (mbEntryAt m info i)) ∧
    ∀ s', dumpMemmap fb.region fb info stack fuel (cons, m) = .ok s' → SameOutside fb.region m s'.2 ∧
      OnScreen fb w h (xs ++ whiteText (memmapText m info n)) s' := by
  have hfits := htag.fits
  have htagSize := htag.size
  obtain ⟨hplain, hpercent⟩ : Plain memmapHeader ∧ ascii '%' ∉ memmapHeader := plain_literal rfl
  obtain ⟨s₁, hheader, hkept, hs₁⟩ := hs.printk hfb hw hh hsize _ hplain hpercent (stack 0).1 (stack 0).2
  have hrun : dumpMemmap fb.region fb info stack fuel (cons, m) =
      HeavenOS.dumpMemmapLoop fb.region fb info stack fuel 1 (mbEntryAt m info 0) s₁ := by
    rw [dumpMemmap, mbMemmapIterInit, kassert_of_true hinfo, ok_bind, Nat.mod_eq_of_lt (by omega), mbEntryAt, Nat.zero_mul]
    exact congrArg (· >>= _) hheader
  obtain ⟨hreturns, hdone⟩ := hs₁.dumpMemmapLoop hfb hw hh hsize htag hout stack (k := 1) (Nat.zero_le n)
    (show n < 0 + fuel by omega) hkept
  rw [Nat.sub_zero, ← List.range_eq_range'] at hdone
  rw [hrun, memmapText, whiteText, List.map_append, ← List.append_assoc]
  exact ⟨hreturns.trans ⟨fun hall i hi => hall i (Nat.zero_le i) hi, fun hall i _ hi => hall i hi⟩, hdone⟩

end Dump

theorem memmapBytes_memmap : MemmapTag (Mem.ofBytes 0 memmapBytes) 24 1 := ⟨by decide, by decide, by decide⟩

/-- A map of one empty region, on the small screen. -/
theorem memmap_on_screen_empty : ∃ s,
    dumpMemmap smallFb.region smallFb 24 (fun n => (fun _ => 0, n)) 2 (smallConsole, Mem.ofBytes 0 memmapBytes) = .ok s ∧
      OnScreen smallFb 16 16 (whiteText (memmapText (Mem.ofBytes 0 memmapBytes) 24 1)) s := by
  have hblack : smallFb.Black (Mem.ofBytes 0 memmapBytes) 16 16 := by
    have hzero (a : ℕ) (ha : 72 ≤ a) : Mem.ofBytes 0 memmapBytes a = 0 := by
      have hnone : memmapBytes[a - 0]? = none := List.getElem?_eq_none ha
      rw [Mem.ofBytes, if_neg (Nat.not_lt_zero a), List.getD_eq_getElem?_getD, hnone]
      rfl
    intro px _ py _
    have hfar : 72 ≤ smallFb.addr + py * smallFb.pitch.toNat + 4 * px := by
      have : 72 ≤ smallFb.addr := by decide
      omega
    rw [Fb.pixel, Mem.load32, hzero _ (by omega), hzero _ (by omega), hzero _ (by omega), hzero _ hfar]
    rfl
  have hs := onScreen_start smallFb_geometry (by decide) (by decide) (show consInit smallFb .start = .ok smallConsole by rfl)
    hblack
  obtain ⟨hreturns, hdone⟩ := memmap_on_screen smallFb_geometry (by decide) (by decide) (by decide) memmapBytes_memmap
    (Or.inl (by decide)) (by decide) (fun n => (fun _ => 0, n)) (show 1 < 2 by decide) hs
  obtain ⟨s, hrun⟩ := hreturns.mpr (by unfold MemmapEntryFits; decide)
  exact ⟨s, hrun, (hdone s hrun).2⟩

end HeavenOS
