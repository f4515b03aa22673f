/-
# The console

The text output of `kernel/console.c`. A character is drawn at the cursor, which moves on, to the
next line at the end of a line, and the screen scrolls where a line would begin below it. The
cursor and the sizes are of type `int`.
-/

import HeavenOS.Drivers.Fb
import HeavenOS.Kernel.Font
import HeavenOS.Kernel.Printk
import HeavenOS.Lib.Runs

namespace HeavenOS

open Lib Printk

/-- `FONT_WIDTH` -/
def fontWidth : ℤ := 8

/-- `FONT_HEIGHT` -/
def fontHeight : ℤ := 8

/-- The static variables of the console. -/
structure Console where
  initialized : Bool
  width : ℤ
  height : ℤ
  currRow : ℤ
  currCol : ℤ
  deriving DecidableEq

/-- Before `cons_init`. -/
def Console.start : Console := ⟨false, 0, 0, 0, 0⟩

/-- `cons_init` -/
def consInit (fb : Fb) (s : Console) : Except Fault Console := do
  let (fbWidth, fbHeight) ← fbGetSize fb
  return { s with initialized := true, width := fbWidth.tdiv fontWidth, height := fbHeight.tdiv fontHeight }

/-- `draw_char`: the index is the `char` converted to `unsigned int`. -/
def drawChar (r : Region) (fb : Fb) (m : Mem) (c : BitVec 8) (row col : ℤ) (fgColor bgColor : BitVec 32) :
    Except Fault Mem :=
  match font[(c.signExtend 32).toNat]? with
  | none => .error .outOfBounds
  | some glyph => fbDrawGlyph r fb m glyph (wrapInt (fontWidth * col)) (wrapInt (fontHeight * row)) fgColor bgColor

/-- `cons_newline_and_return` -/
def consNewlineAndReturn (r : Region) (fb : Fb) (s : Console) (m : Mem) : Except Fault (Console × Mem) :=
  let s := { s with currCol := 0, currRow := wrapInt (s.currRow + 1) }
  if s.currRow = s.height then do
    let m ← fbScrollUp r fb m fontHeight 0
    return ({ s with currRow := wrapInt (s.currRow - 1) }, m)
  else .ok (s, m)

/-- A character with its colours. -/
structure Output where
  char : BitVec 8
  fgColor : BitVec 32
  bgColor : BitVec 32
  deriving DecidableEq

/-- `cons_putchar_color` -/
def consPutcharColor (r : Region) (fb : Fb) (s : Console × Mem) (x : Output) : Except Fault (Console × Mem) := do
  let (s, m) := s
  (kassert (s.initialized = true) "cons_initialized").mapError .panic
  if x.char = ascii '\n' then consNewlineAndReturn r fb s m
  else if x.char = ascii '\r' then return ({ s with currRow := 0 }, m)
  else
    let m ← drawChar r fb m x.char s.currRow s.currCol x.fgColor x.bgColor
    let s := { s with currCol := wrapInt (s.currCol + 1) }
    if s.currCol = s.width then consNewlineAndReturn r fb s m else return (s, m)

/-- `cons_print_color` and `cons_write_color` for the characters of a string. -/
def consPrintColor (r : Region) (fb : Fb) (s : Console × Mem) (str : List (BitVec 8)) (fgColor bgColor : BitVec 32) :
    Except Fault (Console × Mem) := do
  (kassert (s.1.initialized = true) "cons_initialized").mapError .panic
  str.foldlM (fun s c => consPutcharColor r fb s ⟨c, fgColor, bgColor⟩) s

/-! ## The grid of a terminal -/

/-- Cells of characters, and the cursor. -/
structure Grid where
  cells : ℕ → ℕ → Option Output
  row : ℕ
  col : ℕ

namespace Grid

def blank : Grid := ⟨fun _ _ => none, 0, 0⟩

/-- The next line; below the last one all lines move up and the last one becomes blank. -/
def newline (rows : ℕ) (g : Grid) : Grid :=
  if g.row + 1 = rows then ⟨fun r c => if r + 1 < rows then g.cells (r + 1) c else none, g.row, 0⟩
  else { g with row := g.row + 1, col := 0 }

/-- Store a character at the cursor. -/
def store (g : Grid) (x : Output) : Grid :=
  { g with cells := fun r c => if r = g.row ∧ c = g.col then some x else g.cells r c, col := g.col + 1 }

/-- What a terminal does with a character. -/
def put (rows cols : ℕ) (g : Grid) (x : Output) : Grid :=
  if x.char = ascii '\n' then g.newline rows
  else if x.char = ascii '\r' then { g with col := 0 }
  else if (g.store x).col = cols then (g.store x).newline rows
  else g.store x

/-- The glyph of a character. -/
def glyph (c : BitVec 8) : List ℕ := font.getD c.toNat []

/-- The pixels of the grid; there is nothing outside of the cells. -/
def pixel (rows cols : ℕ) (g : Grid) (px py : ℕ) : BitVec 32 :=
  if py / 8 < rows ∧ px / 8 < cols then
    match g.cells (py / 8) (px / 8) with
    | none => 0
    | some x => if pixelSet (glyph x.char) (py % 8) (px % 8) then x.fgColor else x.bgColor
  else 0

end Grid

/-! ## One character -/

/-- The console fits the screen, and the cursor is on it. -/
structure Console.On (s : Console) (w h row col : ℕ) : Prop where
  initialized : s.initialized = true
  width : s.width = (w / 8 : ℕ)
  height : s.height = (h / 8 : ℕ)
  currRow : s.currRow = row
  currCol : s.currCol = col
  row_lt : row < h / 8
  col_lt : col < w / 8

/-- The products of `int` that a character needs do not overflow. -/
structure StepFits (fb : Fb) (s : Console) (c : BitVec 8) : Prop where
  draw : c ≠ ascii '\n' → c ≠ ascii '\r' → (8 * s.currRow + 7) * fb.pitch < 2 ^ 31
  scroll : s.currRow + 1 = s.height → c = ascii '\n' ∨ c ≠ ascii '\r' ∧ s.currCol + 1 = s.width →
    (fb.height - 1) * fb.pitch < 2 ^ 31

/-- The screen shows the grid. -/
def Fb.Shows (fb : Fb) (m : Mem) (w h : ℕ) (g : Grid) : Prop :=
  ∀ px < w, ∀ py < h, fb.pixel m px py = g.pixel (h / 8) (w / 8) px py

/-- Scrolling the grid is scrolling its pixels, also if there are rows of pixels below the last
line. -/
theorem Grid.pixel_newline {g : Grid} {h cols : ℕ} (hlast : g.row + 1 = h / 8) {px py : ℕ} (hpy : py < h) :
    (g.newline (h / 8)).pixel (h / 8) cols px py = if py + 8 < h then g.pixel (h / 8) cols px (py + 8) else 0 := by
  rw [newline, if_pos hlast]
  unfold pixel
  rw [show (py + 8) / 8 = py / 8 + 1 by omega, Nat.add_mod_right]
  by_cases hin : py / 8 + 1 < h / 8
  · rw [if_pos (show py + 8 < h by omega)]
    simp only [hin, if_true, true_and, show py / 8 < h / 8 by omega]
  · simp only [hin, if_false, false_and]
    split_ifs <;> rfl

section Step

variable {fb : Fb} {w h p : ℕ} (hfb : fb.Geometry w h p) (hw : 8 ≤ w) (hh : 8 ≤ h) {r : Region}
  (hr : r.lo ≤ fb.addr ∧ fb.addr + p * h ≤ r.hi)

include hfb hw hh hr

/-- A new line, on the screen or below it. -/
theorem consNewlineAndReturn_spec {s : Console} {m : Mem} {row : ℕ} (hinit : s.initialized = true)
    (hwidth : s.width = (w / 8 : ℕ)) (hheight : s.height = (h / 8 : ℕ)) (hrow : s.currRow = row) (hlt : row < h / 8)
    (hfit : row + 1 = h / 8 → (h - 1) * p < 2 ^ 31) :
    ∃ s' m' row', consNewlineAndReturn r fb s m = .ok (s', m') ∧ s'.On w h row' 0 ∧
      ∀ g : Grid, g.row = row → fb.Shows m w h g → (g.newline (h / 8)).row = row' ∧ fb.Shows m' w h (g.newline (h / 8)) := by
  have hheight' := hfb.height_lt
  have hnext : wrapInt (s.currRow + 1) = (row + 1 : ℕ) := by
    rw [hrow, ← Int.natCast_succ, wrapInt_natCast (by omega)]
  unfold consNewlineAndReturn
  simp only [hnext, hheight, Nat.cast_inj]
  split_ifs with hlast
  · obtain ⟨m', hscroll, hpixels⟩ := @fbScrollUp_spec fb w h p hfb r hr m hh (by omega) (hfit hlast) 0
    have hback : wrapInt ((row + 1 : ℕ) - 1) = row := by
      rw [Int.natCast_succ, Int.add_sub_cancel, wrapInt_natCast (by omega)]
    refine ⟨⟨s.initialized, s.width, (h / 8 : ℕ), row, 0⟩, m', row,
      by rw [show fontHeight = 8 from rfl, hscroll, hback]; rfl,
      ⟨hinit, hwidth, rfl, rfl, rfl, hlt, by omega⟩, fun g hg hshows => ⟨?_, fun px hpx py hpy => ?_⟩⟩
    · rw [Grid.newline, if_pos (hg ▸ hlast)]
      exact hg
    · rw [hpixels px hpx py hpy, Grid.pixel_newline (hg ▸ hlast) hpy]
      split_ifs with hup
      · exact hshows px hpx (py + 8) hup
      · rfl
  · refine ⟨_, m, row + 1, rfl, ⟨hinit, hwidth, rfl, rfl, rfl, by omega, by omega⟩, fun g hg hshows => ⟨?_, ?_⟩⟩
    · rw [Grid.newline, if_neg (hg ▸ hlast), hg]
    · rw [Grid.newline, if_neg (hg ▸ hlast)]
      exact hshows

omit hw in
/-- A 7-bit character at the cursor. -/
theorem drawChar_spec {s : Console} {m : Mem} {row col : ℕ} (hs : s.On w h row col) (hfit : (8 * row + 7) * p < 2 ^ 31)
    {x : Output} (hchar : x.char.toNat < 128) :
    ∃ m', drawChar r fb m x.char s.currRow s.currCol x.fgColor x.bgColor = .ok m' ∧
      ∀ g : Grid, g.row = row → g.col = col → fb.Shows m w h g → fb.Shows m' w h (g.store x) := by
  have hrow := hs.row_lt
  have hcol := hs.col_lt
  have hheight := hfb.height_lt
  have hpitch := hfb.pitch_lt
  have hrows := hfb.rows
  have hindex : (x.char.signExtend 32).toNat = x.char.toNat := by
    rw [BitVec.signExtend_eq_setWidth_of_msb_false (by rw [BitVec.msb_eq_decide]; simpa using hchar), BitVec.toNat_setWidth,
      Nat.mod_eq_of_lt (by omega)]
  have hglyph : font[(x.char.signExtend 32).toNat]? = some (Grid.glyph x.char) := by
    rw [hindex, Grid.glyph, List.getD_eq_getElem?_getD, List.getElem?_eq_getElem (by rw [font_length]; exact hchar)]
    rfl
  obtain ⟨m', hdraw, hpixels⟩ := @fbDrawGlyph_spec fb w h p hfb r hr m (8 * col) (8 * row) (by omega) (by omega) hfit
    (Grid.glyph x.char) x.fgColor x.bgColor
  refine ⟨m', ?_, fun g hgrow hgcol hshows px hpx py hpy => ?_⟩
  · rw [drawChar, hglyph, hs.currRow, hs.currCol]
    simp only [fontWidth, fontHeight]
    rw [show (8 : ℤ) * col = (8 * col : ℕ) by omega, show (8 : ℤ) * row = (8 * row : ℕ) by omega,
      wrapInt_natCast (by omega), wrapInt_natCast (by omega)]
    exact hdraw
  · rw [hpixels px hpx py, hshows px hpx py hpy]
    unfold Grid.pixel Grid.store
    by_cases hcell : py / 8 = row ∧ px / 8 = col
    · obtain ⟨rfl, rfl⟩ := hcell
      rw [if_pos (show (8 * (px / 8) ≤ px ∧ px < 8 * (px / 8) + 8) ∧ 8 * (py / 8) ≤ py ∧ py < 8 * (py / 8) + 8 by omega),
        if_pos (show py / 8 < h / 8 ∧ px / 8 < w / 8 from ⟨hrow, hcol⟩)]
      simp only [hgrow, hgcol, and_self, if_true]
      rw [show py - 8 * (py / 8) = py % 8 by omega, show px - 8 * (px / 8) = px % 8 by omega]
    · rw [if_neg (by omega)]
      simp only [hgrow, hgcol, hcell, if_false]

/-- A 7-bit character for which nothing overflows. -/
theorem consPutcharColor_spec {s : Console} {m : Mem} {row col : ℕ} (hs : s.On w h row col) {x : Output}
    (hfit : StepFits fb s x.char) (hchar : x.char.toNat < 128) :
    ∃ s' m' row' col', consPutcharColor r fb (s, m) x = .ok (s', m') ∧ s'.On w h row' col' ∧
      ((x.char = ascii '\r' → row = 0 ∧ col = 0) → ∀ g : Grid, g.row = row → g.col = col → fb.Shows m w h g →
        (g.put (h / 8) (w / 8) x).row = row' ∧ (g.put (h / 8) (w / 8) x).col = col' ∧
          fb.Shows m' w h (g.put (h / 8) (w / 8) x)) := by
  have hscroll (hlast : row + 1 = h / 8) (hc : x.char = ascii '\n' ∨ x.char ≠ ascii '\r' ∧ col + 1 = w / 8) :
      (h - 1) * p < 2 ^ 31 := by
    have hint := hfit.scroll (by rw [hs.currRow, hs.height]; omega)
      (hc.imp_right fun h => ⟨h.1, by rw [hs.currCol, hs.width]; omega⟩)
    rw [hfb.height, hfb.pitch, show (h : ℤ) - 1 = (h - 1 : ℕ) by omega] at hint
    exact_mod_cast hint
  have hinit := hs.initialized
  have hwidth := hs.width
  have hheight := hs.height
  have hrow := hs.row_lt
  have hcol := hs.col_lt
  have hnewline (g : Grid) : (g.newline (h / 8)).col = 0 := by
    unfold Grid.newline
    split_ifs <;> rfl
  have hcall : consPutcharColor r fb (s, m) x =
      if x.char = ascii '\n' then consNewlineAndReturn r fb s m
      else if x.char = ascii '\r' then .ok ({ s with currRow := 0 }, m)
      else drawChar r fb m x.char s.currRow s.currCol x.fgColor x.bgColor >>= fun m =>
        if wrapInt (s.currCol + 1) = s.width then consNewlineAndReturn r fb { s with currCol := wrapInt (s.currCol + 1) } m
        else .ok ({ s with currCol := wrapInt (s.currCol + 1) }, m) := by
    rw [consPutcharColor, kassert_of_true hinit]
    rfl
  rw [hcall]
  by_cases hn : x.char = ascii '\n'
  · obtain ⟨s', m', row', hcall, hs', hgrid⟩ := consNewlineAndReturn_spec hfb hw hh hr hinit hwidth hheight hs.currRow hrow
      (m := m) fun hlast => hscroll hlast (Or.inl hn)
    refine ⟨s', m', row', 0, by rw [if_pos hn, hcall], hs', fun _ g hgrow _ hshows => ?_⟩
    rw [Grid.put, if_pos hn]
    exact ⟨(hgrid g hgrow hshows).1, hnewline g, (hgrid g hgrow hshows).2⟩
  · by_cases hr' : x.char = ascii '\r'
    · refine ⟨{ s with currRow := 0 }, m, 0, col, by rw [if_neg hn, if_pos hr'],
        ⟨hinit, hwidth, hheight, rfl, hs.currCol, by omega, hcol⟩, fun hstart g hgrow hgcol hshows => ?_⟩
      obtain ⟨rfl, rfl⟩ := hstart hr'
      rw [Grid.put, if_neg hn, if_pos hr']
      exact ⟨hgrow, rfl, hshows⟩
    · have hdrawFit : (8 * row + 7) * p < 2 ^ 31 := by
        have hint := hfit.draw hn hr'
        rw [hs.currRow, hfb.pitch] at hint
        exact_mod_cast hint
      obtain ⟨m', hdraw, hstore⟩ := @drawChar_spec fb w h p hfb hh r hr s m row col hs hdrawFit x hchar
      have hnext : wrapInt (s.currCol + 1) = (col + 1 : ℕ) := by
        have hrows := hfb.rows
        have hpitch := hfb.pitch_lt
        rw [hs.currCol, ← Int.natCast_succ, wrapInt_natCast (by omega)]
      rw [if_neg hn, if_neg hr', hdraw, Fault.ok_bind]
      have hend_iff : wrapInt (s.currCol + 1) = s.width ↔ col + 1 = w / 8 := by rw [hnext, hwidth, Nat.cast_inj]
      by_cases hend : col + 1 = w / 8
      · obtain ⟨s', m'', row', hcall, hs', hgrid⟩ :=
          @consNewlineAndReturn_spec fb w h p hfb hw hh r hr { s with currCol := wrapInt (s.currCol + 1) } m' row hinit hwidth
            hheight hs.currRow hrow fun hlast => hscroll hlast (Or.inr ⟨hr', hend⟩)
        refine ⟨s', m'', row', 0, by rw [if_pos (hend_iff.mpr hend)]; exact hcall, hs', fun _ g hgrow hgcol hshows => ?_⟩
        have hgrid' := hgrid (g.store x) hgrow (hstore g hgrow hgcol hshows)
        have hfull : (g.store x).col = w / 8 := by rw [← hend, ← hgcol]; rfl
        rw [Grid.put, if_neg hn, if_neg hr', if_pos hfull]
        exact ⟨hgrid'.1, hnewline _, hgrid'.2⟩
      · refine ⟨{ s with currCol := wrapInt (s.currCol + 1) }, m', row, col + 1, by rw [if_neg (fun h => hend (hend_iff.mp h))],
          ⟨hinit, hwidth, hheight, hs.currRow, hnext, hrow, by omega⟩, fun _ g hgrow hgcol hshows => ?_⟩
        have hroom : (g.store x).col ≠ w / 8 := by
          rw [show (g.store x).col = col + 1 by rw [← hgcol]; rfl]
          exact hend
        rw [Grid.put, if_neg hn, if_neg hr', if_neg hroom]
        exact ⟨hgrow, congrArg (· + 1) hgcol, hstore g hgrow hgcol hshows⟩

end Step

end HeavenOS
