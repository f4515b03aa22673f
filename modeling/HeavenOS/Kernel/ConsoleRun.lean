/-
# Runs of the console

Characters are sent to the console one after the other, from the state that `cons_init` leaves.
As long as the characters have seven bits and no product overflows, the cursor stays on the grid
and every access inside of the framebuffer; and as long as a carriage return comes only where it
is no move at all, the screen shows what a terminal would.
-/

import HeavenOS.Kernel.Console

namespace HeavenOS

open Lib Printk

/-- One character of seven bits, without an overflow. -/
def SafeOutput (fb : Fb) (s : Console × Mem) (x : Output) (s' : Console × Mem) : Prop :=
  (x.char.toNat < 128 ∧ StepFits fb s.1 x.char) ∧ consPutcharColor fb.region fb s x = .ok s'

/-- A carriage return comes at the beginning of the first line. -/
def HarmlessReturn (s : Console) (c : BitVec 8) : Prop := c = ascii '\r' → s.currRow = 0 ∧ s.currCol = 0

/-- Such a character that a terminal would treat in the same way. -/
def FaithfulOutput (fb : Fb) (s : Console × Mem) (x : Output) (s' : Console × Mem) : Prop :=
  HarmlessReturn s.1 x.char ∧ SafeOutput fb s x s'

/-- A black screen. -/
def Fb.Black (fb : Fb) (m : Mem) (w h : ℕ) : Prop := ∀ px < w, ∀ py < h, fb.pixel m px py = 0

/-- The grid after these characters. -/
def Grid.after (w h : ℕ) (xs : List Output) : Grid := xs.foldl (Grid.put (h / 8) (w / 8)) Grid.blank

section Runs

variable {fb : Fb} {w h p : ℕ} (hfb : fb.Geometry w h p) (hw : 8 ≤ w) (hh : 8 ≤ h)

include hfb

theorem Fb.Geometry.region : fb.region.lo ≤ fb.addr ∧ fb.addr + p * h ≤ fb.region.hi := by
  unfold Fb.region
  rw [hfb.pitch, hfb.height, Int.toNat_natCast, Int.toNat_natCast]
  exact ⟨le_refl _, le_refl _⟩

include hw hh

/-- The console that `cons_init` leaves. -/
theorem consInit_on {s : Console} (hinit : consInit fb .start = .ok s) : s.On w h 0 0 := by
  rw [consInit, fbGetSize, hfb.assertInitialized] at hinit
  obtain rfl := Except.ok.inj hinit
  exact ⟨rfl, by rw [hfb.width]; rfl, by rw [hfb.height]; rfl, rfl, rfl, by omega, by omega⟩

/-- The cursor stays on the grid. -/
theorem cursor_on {cons : Console} (hinit : consInit fb .start = .ok cons) {m : Mem} {xs : List Output} {s : Console × Mem}
    (hrun : Run (SafeOutput fb) (cons, m) xs s) : ∃ row col, s.1.On w h row col := by
  refine hrun.invariant (fun s => ∃ row col, s.1.On w h row col) ⟨0, 0, consInit_on hfb hw hh hinit⟩ ?_
  rintro ⟨s, m⟩ x s' ⟨row, col, hs⟩ ⟨⟨hchar, hfit⟩, hstep⟩
  obtain ⟨s'', m'', row', col', hcall, hs', -⟩ := consPutcharColor_spec hfb hw hh hfb.region (m := m) hs hfit hchar
  obtain rfl := Except.ok.inj (hstep.symm.trans hcall)
  exact ⟨row', col', hs'⟩

omit hw hh in
/-- On a framebuffer below 2 GiB nothing overflows. -/
theorem Console.On.stepFits (hsize : h * p < 2 ^ 31) {s : Console} {row col : ℕ} (hs : s.On w h row col) (c : BitVec 8) :
    StepFits fb s c := by
  have hrow := hs.row_lt
  have hdraw := Nat.mul_le_mul_right p (show 8 * row + 7 ≤ h by omega)
  have hscroll := Nat.mul_le_mul_right p (show h - 1 ≤ h by omega)
  refine ⟨fun _ _ => ?_, fun _ _ => ?_⟩
  · rw [hs.currRow, hfb.pitch]
    exact_mod_cast lt_of_le_of_lt hdraw hsize
  · rw [hfb.height, hfb.pitch, ← Int.natCast_pred_of_pos (show 0 < h by omega)]
    exact_mod_cast lt_of_le_of_lt hscroll hsize

/-- On a framebuffer below 2 GiB every string of seven-bit characters can be printed. -/
theorem consPrintColor_ok (hsize : h * p < 2 ^ 31) {s : Console} {m : Mem} {row col : ℕ} (hs : s.On w h row col)
    {str : List (BitVec 8)} (hstr : ∀ c ∈ str, c.toNat < 128) (fgColor bgColor : BitVec 32) :
    ∃ s' m' row' col', consPrintColor fb.region fb (s, m) str fgColor bgColor = .ok (s', m') ∧ s'.On w h row' col' := by
  rw [consPrintColor, kassert_of_true hs.initialized, show Except.mapError Fault.panic (.ok ()) = .ok () from rfl, Fault.ok_bind]
  induction str generalizing s m row col with
  | nil => exact ⟨s, m, row, col, rfl, hs⟩
  | cons c str ih =>
      obtain ⟨s', m', row', col', hcall, hs', -⟩ := consPutcharColor_spec hfb hw hh hfb.region (m := m)
        (x := ⟨c, fgColor, bgColor⟩) hs (hs.stepFits hfb hsize c) (hstr c List.mem_cons_self)
      rw [List.foldlM_cons, hcall, Fault.ok_bind]
      exact ih hs' fun d hd => hstr d (List.mem_cons_of_mem _ hd)

/-- So every text without carriage returns is a run of faithful steps. -/
theorem exists_faithfulRun (hsize : h * p < 2 ^ 31) {s : Console} (m : Mem) {row col : ℕ} (hs : s.On w h row col)
    {xs : List Output} (hxs : ∀ x ∈ xs, x.char.toNat < 128 ∧ x.char ≠ ascii '\r') :
    ∃ t, Run (FaithfulOutput fb) (s, m) xs t := by
  induction xs generalizing s m row col with
  | nil => exact ⟨_, Run.nil⟩
  | cons x xs ih =>
      obtain ⟨hchar, hreturn⟩ := hxs x List.mem_cons_self
      obtain ⟨s', m', row', col', hcall, hs', -⟩ := consPutcharColor_spec hfb hw hh hfb.region (m := m) hs
        (hs.stepFits hfb hsize x.char) hchar
      obtain ⟨t, hrun⟩ := ih m' hs' fun y hy => hxs y (List.mem_cons_of_mem _ hy)
      have hstep : FaithfulOutput fb (s, m) x (s', m') :=
        ⟨fun hc => absurd hc hreturn, ⟨hchar, hs.stepFits hfb hsize x.char⟩, hcall⟩
      exact ⟨t, (Run.single _ hstep).trans hrun⟩

omit hfb hw hh in
/-- There is no glyph for a character with the eighth bit. -/
theorem consPutcharColor_high {r : Region} {s : Console} (hinit : s.initialized = true) (m : Mem) {x : Output}
    (hchar : 128 ≤ x.char.toNat) : consPutcharColor r fb (s, m) x = .error .outOfBounds := by
  have hne (c : Char) (hc : (ascii c).toNat < 128) : x.char ≠ ascii c := by
    rintro heq
    rw [heq] at hchar
    omega
  have hlarge : 128 ≤ (x.char.signExtend 32).toNat := by
    have hmsb : x.char.msb = true := by
      rw [BitVec.msb_eq_decide]
      simpa using hchar
    rw [BitVec.toNat_signExtend, hmsb]
    simp only [if_true]
    omega
  have hglyph : font[(x.char.signExtend 32).toNat]? = none := List.getElem?_eq_none (by rw [font_length]; exact hlarge)
  rw [consPutcharColor, kassert_of_true hinit]
  simp only [hne '\n' (by decide), hne '\r' (by decide), if_false, drawChar, hglyph]
  rfl

/-- In every run of safe steps the cursor is on the grid, and a character for which nothing
overflows leaves neither the font nor the framebuffer exactly if it has seven bits. -/
theorem console_in_bounds {cons : Console} (hinit : consInit fb .start = .ok cons) {m : Mem} {xs : List Output}
    {s : Console × Mem} (hrun : Run (SafeOutput fb) (cons, m) xs s) :
    ((0 ≤ s.1.currRow ∧ s.1.currRow < s.1.height) ∧ 0 ≤ s.1.currCol ∧ s.1.currCol < s.1.width) ∧
      ∀ x, StepFits fb s.1 x.char → ((∃ s', consPutcharColor fb.region fb s x = .ok s') ↔ x.char.toNat < 128) := by
  obtain ⟨row, col, hs⟩ := cursor_on hfb hw hh hinit hrun
  have hrow := hs.row_lt
  have hcol := hs.col_lt
  rw [hs.currRow, hs.currCol, hs.height, hs.width]
  refine ⟨⟨⟨by omega, by omega⟩, by omega, by omega⟩, fun x hfit => ⟨?_, fun hchar => ?_⟩⟩
  · rintro ⟨s', hstep⟩
    by_contra hhigh
    rw [consPutcharColor_high hs.initialized s.2 (Nat.not_lt.mp hhigh)] at hstep
    cases hstep
  · obtain ⟨s', m', -, -, hcall, -⟩ := consPutcharColor_spec hfb hw hh hfb.region (m := s.2) hs hfit hchar
    exact ⟨_, hcall⟩

/-- In every run of faithful steps on a black screen the screen shows the grid of a terminal, and
the next such step returns. -/
theorem console_shows_grid {cons : Console} (hinit : consInit fb .start = .ok cons) {m : Mem} (hblack : fb.Black m w h)
    {xs : List Output} {s : Console × Mem} (hrun : Run (FaithfulOutput fb) (cons, m) xs s) :
    fb.Shows s.2 w h (Grid.after w h xs) ∧
      ∀ x, x.char.toNat < 128 → StepFits fb s.1 x.char → HarmlessReturn s.1 x.char →
        ∃ s', consPutcharColor fb.region fb s x = .ok s' := by
  have hinv : ∃ row col, s.1.On w h row col ∧ (Grid.after w h xs).row = row ∧ (Grid.after w h xs).col = col ∧
      fb.Shows s.2 w h (Grid.after w h xs) := by
    induction hrun with
    | nil =>
        refine ⟨0, 0, consInit_on hfb hw hh hinit, rfl, rfl, fun px hpx py hpy => ?_⟩
        rw [hblack px hpx py hpy]
        unfold Grid.pixel
        split_ifs <;> rfl
    | @snoc xs s s' x _ hstep ih =>
        obtain ⟨row, col, hs, hrow, hcol, hshows⟩ := ih
        obtain ⟨hreturn, ⟨hchar, hfit⟩, hcall⟩ := hstep
        obtain ⟨s'', m'', row', col', hcall', hs', hgrid⟩ := consPutcharColor_spec hfb hw hh hfb.region (m := s.2) hs hfit hchar
        obtain rfl := Except.ok.inj (hcall.symm.trans hcall')
        have hstart (hc : x.char = ascii '\r') : row = 0 ∧ col = 0 := by
          have hzero := hreturn hc
          rw [hs.currRow, hs.currCol] at hzero
          omega
        rw [Grid.after, List.foldl_append]
        exact ⟨row', col', hs', hgrid hstart _ hrow hcol hshows⟩
  obtain ⟨row, col, hs, -, -, hshows⟩ := hinv
  refine ⟨hshows, fun x hchar hfit _ => ?_⟩
  obtain ⟨s', m', -, -, hcall, -⟩ := consPutcharColor_spec hfb hw hh hfb.region (m := s.2) hs hfit hchar
  exact ⟨_, hcall⟩

end Runs

/-! ## A small screen -/

/-- A screen of two lines of two characters. -/
def smallFb : Fb := ⟨true, directMapStart, 16, 16, 64, 1024⟩

def smallConsole : Console := ⟨true, 2, 2, 0, 0⟩

/-- A character in white on black. -/
def white (c : Char) : Output := ⟨ascii c, 0xFFFFFF, 0⟩

theorem smallFb_geometry : smallFb.Geometry 16 16 64 :=
  ⟨rfl, rfl, rfl, rfl, by decide, by decide, by decide, by decide⟩

theorem smallFb_fits (s : Console) (hrow : s.currRow ≤ 1) (c : BitVec 8) : StepFits smallFb s c := by
  refine ⟨fun _ _ => ?_, fun _ _ => by decide⟩
  rw [show smallFb.pitch = 64 from rfl]
  omega

theorem smallFb_black : smallFb.Black (fun _ => 0) 16 16 := fun _ _ _ _ => by
  rw [Fb.pixel, Mem.load32]
  decide

/-- The first character on the small screen. -/
theorem smallConsole_first : ∃ s m, consPutcharColor smallFb.region smallFb (smallConsole, fun _ => 0) (white 'A') = .ok (s, m) ∧
    s.On 16 16 0 1 ∧ smallFb.Shows m 16 16 (Grid.after 16 16 [white 'A']) := by
  have hon := consInit_on smallFb_geometry (by decide) (by decide) (show consInit smallFb .start = .ok smallConsole from rfl)
  have hshows : smallFb.Shows (fun _ => 0) 16 16 Grid.blank := fun px hpx py hpy => by
    rw [smallFb_black px hpx py hpy]
    unfold Grid.pixel
    split_ifs <;> rfl
  obtain ⟨s, m, row, col, hcall, hs, hgrid⟩ := consPutcharColor_spec smallFb_geometry (by decide) (by decide)
    smallFb_geometry.region (m := fun _ => 0) hon (smallFb_fits _ (by decide) _) (x := white 'A') (by decide)
  obtain ⟨rfl, rfl, hshows'⟩ := hgrid (fun hc => absurd hc (by decide)) Grid.blank rfl rfl hshows
  exact ⟨s, m, hcall, hs, hshows'⟩

/-- Three lines, of which the first is scrolled off the screen. -/
def threeLines : List Output := [white 'A', white 'B', white 'C', white '\n', white 'D']

theorem exists_threeLines : ∃ t, Run (FaithfulOutput smallFb) (smallConsole, fun _ => 0) threeLines t :=
  exists_faithfulRun smallFb_geometry (by decide) (by decide) (by decide) _
    (consInit_on smallFb_geometry (by decide) (by decide) (show consInit smallFb .start = .ok smallConsole from rfl)) (by decide)

theorem console_in_bounds_small : ∃ t, Run (SafeOutput smallFb) (smallConsole, fun _ => 0) threeLines t ∧
    t.1.currRow < t.1.height := by
  obtain ⟨t, hrun⟩ := exists_threeLines
  have hsafe := hrun.mono fun _ _ _ hstep => hstep.2
  exact ⟨t, hsafe, (console_in_bounds smallFb_geometry (by decide) (by decide)
    (show consInit smallFb .start = .ok smallConsole from rfl) hsafe).1.1.2⟩

/-- A byte above 127, as a signature of the firmware may hold it. -/
theorem console_out_of_bounds :
    consPutcharColor smallFb.region smallFb (smallConsole, fun _ => 0) ⟨0x80, 0xFFFFFF, 0⟩ = .error .outOfBounds :=
  consPutcharColor_high rfl _ (by decide)

theorem console_shows_grid_small : ∃ t, Run (FaithfulOutput smallFb) (smallConsole, fun _ => 0) threeLines t ∧
    smallFb.Shows t.2 16 16 (Grid.after 16 16 threeLines) := by
  obtain ⟨t, hrun⟩ := exists_threeLines
  exact ⟨t, hrun, (console_shows_grid smallFb_geometry (by decide) (by decide)
    (show consInit smallFb .start = .ok smallConsole from rfl) smallFb_black hrun).1⟩

/-- After `A` and a carriage return a `B` is drawn beside the `A`, not over it. -/
theorem console_return_stays : ∃ s,
    [white 'A', white '\r', white 'B'].foldlM (consPutcharColor smallFb.region smallFb) (smallConsole, fun _ => 0) = .ok s ∧
      ¬smallFb.Shows s.2 16 16 (Grid.after 16 16 [white 'A', white '\r', white 'B']) := by
  obtain ⟨s, m, hcall, hs, hshows⟩ := smallConsole_first
  have hreturn : consPutcharColor smallFb.region smallFb (s, m) (white '\r') = .ok ({ s with currRow := 0 }, m) := by
    rw [consPutcharColor, kassert_of_true hs.initialized]
    rfl
  have hs' : Console.On { s with currRow := 0 } 16 16 0 1 :=
    ⟨hs.initialized, hs.width, hs.height, rfl, hs.currCol, hs.row_lt, hs.col_lt⟩
  obtain ⟨s', m', row', col', hlast, -, hgrid⟩ := consPutcharColor_spec smallFb_geometry (by decide) (by decide)
    smallFb_geometry.region (m := m) hs' (smallFb_fits _ (show (0 : ℤ) ≤ 1 by decide) _) (x := white 'B') (by decide)
  obtain ⟨-, -, hshows'⟩ := hgrid (fun hc => absurd hc (by decide)) (Grid.after 16 16 [white 'A']) rfl rfl hshows
  refine ⟨(s', m'), ?_, fun hother => ?_⟩
  · rw [List.foldlM_cons, hcall, Fault.ok_bind, List.foldlM_cons, hreturn, Fault.ok_bind, List.foldlM_cons, hlast]
    rfl
  · have hpixel := (hshows' 0 (by decide) 0 (by decide)).symm.trans (hother 0 (by decide) 0 (by decide))
    revert hpixel
    decide

end HeavenOS
