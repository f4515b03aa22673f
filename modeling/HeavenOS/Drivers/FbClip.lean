/-
# Clipping

Drawing is meant to set the pixels of a rectangle that are on the screen, and nothing else. The
rows outside of the screen are left out and the right edge is cut off, but a column left of the
screen is drawn into the row before, and to the right of the screen the width of a copy becomes
negative. The exact condition is found for `fb_draw_rect` and for `fb_draw`.
-/

import HeavenOS.Drivers.Fb

namespace HeavenOS

open Lib

/-- A rectangle of `int`s whose sums do not overflow. -/
structure Rect where
  x : ℤ
  y : ℤ
  width : ℤ
  height : ℤ
  x_ge : -2 ^ 31 ≤ x
  y_ge : -2 ^ 31 ≤ y
  width_nonneg : 0 ≤ width
  height_nonneg : 0 ≤ height
  width_lt : width < 2 ^ 31
  height_lt : height < 2 ^ 31
  right_lt : x + width < 2 ^ 31
  bottom_lt : y + height < 2 ^ 31

/-- The pixel is on the screen and in the rectangle. -/
structure Rect.Shown (q : Rect) (fb : Fb) (px py : ℕ) : Prop where
  screen_x : px < fb.width
  screen_y : py < fb.height
  left : q.x ≤ px
  right : px < q.x + q.width
  above : q.y ≤ py
  below : py < q.y + q.height

/-- The address of a pixel of the screen. -/
def Fb.pixelStart (fb : Fb) (px py : ℕ) : ℕ := fb.addr + py * fb.pitch.toNat + 4 * px

/-- Exactly the pixels of the rectangle that are on the screen have been set. -/
structure Painted (fb : Fb) (q : Rect) (f : ℤ → ℤ → BitVec 32) (m m' : Mem) : Prop where
  pixel : ∀ px py, q.Shown fb px py → fb.pixel m' px py = f px py
  rest : ∀ a, (∀ px py, q.Shown fb px py → ¬(fb.pixelStart px py ≤ a ∧ a < fb.pixelStart px py + 4)) → m' a = m a

/-- `fb_draw_rect` is clipped for this rectangle. -/
def DrawRectClipped (fb : Fb) (q : Rect) : Prop :=
  ∀ m color, ∃ m', fbDrawRect .whole fb m color q.x q.y q.width q.height = .ok m' ∧ Painted fb q (fun _ _ => color) m m'

/-- The colour of the array for a pixel. -/
def Rect.colour (q : Rect) (array : Mem) (px py : ℤ) : BitVec 32 :=
  array.load32 (4 * ((py - q.y) * q.width + (px - q.x))).toNat

/-- `fb_draw` is clipped for this rectangle and an array with a colour for each of its pixels. -/
def DrawClipped (fb : Fb) (q : Rect) : Prop :=
  ∀ m array, ∃ m', fbDraw .whole fb m (4 * (q.width * q.height)).toNat array q.x q.y q.width q.height = .ok m' ∧
    Painted fb q (q.colour array) m m'

/-- The first row of the screen that the rectangle reaches. -/
def Rect.top (q : Rect) : ℤ := max q.y 0

/-- The row behind the last one of the screen that it reaches. -/
def Rect.bottom (q : Rect) (fb : Fb) : ℤ := min (q.y + q.height) fb.height

/-- Nothing of the rectangle is drawn, or it begins on the screen and the offset of its last row is
an `int`. -/
def Rect.Fits (q : Rect) (fb : Fb) : Prop :=
  q.bottom fb ≤ q.top ∨ q.width = 0 ∨ fb.width ≤ q.x ∨ 0 ≤ q.x ∧ (q.bottom fb - 1) * fb.pitch < 2 ^ 31

/-- The same for an array, whose offsets have to be `int`s as well; behind the right edge of the
screen only the first column may be drawn at. -/
def Rect.ArrayFits (q : Rect) (fb : Fb) : Prop :=
  q.bottom fb ≤ q.top ∨ (q.width = 0 ∧ q.x ≤ fb.width) ∨ q.x = fb.width ∨
    (0 ≤ q.x ∧ q.x < fb.width) ∧ (q.bottom fb - 1) * fb.pitch < 2 ^ 31 ∧ q.width * (q.bottom fb - 1 - q.y) < 2 ^ 31

instance (q : Rect) (fb : Fb) : Decidable (q.Fits fb) := inferInstanceAs (Decidable (_ ∨ _))

instance (q : Rect) (fb : Fb) : Decidable (q.ArrayFits fb) := inferInstanceAs (Decidable (_ ∨ _))

/-! ## Copies of an array -/

section Copies

variable {r : Region} {cap : ℕ} {data m m' : Mem} {dst : ℕ} {src : ℤ}

theorem copyByte_ok {i : ℕ} (h : copyByte r cap data dst src i m = .ok m') :
    (0 ≤ src + i ∧ (src + i).toNat < cap) ∧ m' = m.storeByte ((dst + i) % 2 ^ 64) (data (src + i).toNat) := by
  unfold copyByte Buffer.load at h
  split_ifs at h with hneg hcap
  · simp only [Fault.ok_bind] at h
    split_ifs at h
    exact ⟨⟨by omega, hcap⟩, (Except.ok.inj h).symm⟩
  · cases h

variable {n : ℕ} (h : memcpyArray r cap data m dst src n = .ok m')

include h

/-- A copy that returns has read from the array only. -/
theorem memcpyArray_inside (hpos : 0 < n) : 0 ≤ src ∧ src + n ≤ cap := by
  obtain ⟨_, _, hfirst⟩ := forLoop_returned h hpos
  obtain ⟨_, _, hlast⟩ := forLoop_returned h (show n - 1 < n by omega)
  have hlow := (copyByte_ok hfirst).1
  have hhigh := (copyByte_ok hlast).1
  omega

/-- The first byte of a copy is that of the array. -/
theorem memcpyArray_first (hpos : 0 < n) (hn : n ≤ 2 ^ 64) : m' (dst % 2 ^ 64) = data src.toNat := by
  refine forLoop_establish h (fun m => m (dst % 2 ^ 64) = data src.toNat) hpos (fun m m' hstep => ?_)
    fun i hi hin m m' hm hstep => ?_
  · rw [(copyByte_ok hstep).2, Nat.add_zero, Int.natCast_zero, add_zero, Mem.storeByte_self]
  · rw [(copyByte_ok hstep).2, Mem.storeByte_of_ne _ _ (by omega)]
    exact hm

omit h in
/-- Behind a copy of zeros its first byte is zero, and so is what was zero before. -/
theorem memcpyArray_zero (h : memcpyArray r cap (fun _ => 0) m dst src n = .ok m') {x : ℕ}
    (hx : m x = 0 ∨ 0 < n ∧ x = dst % 2 ^ 64) : m' x = 0 := by
  have hkeep (i : ℕ) (m m' : Mem) (hm : m x = 0) (hstep : copyByte r cap (fun _ => 0) dst src i m = .ok m') : m' x = 0 := by
    rw [(copyByte_ok hstep).2, Mem.storeByte]
    split_ifs
    · rfl
    · exact hm
  rcases hx with hzero | ⟨hpos, rfl⟩
  · exact forLoop_inv h (fun _ m => m x = 0) hzero fun i _ m m' hm hstep => hkeep i m m' hm hstep
  · refine forLoop_establish h (fun m => m (dst % 2 ^ 64) = 0) hpos (fun m m' hstep => ?_)
      fun i _ _ m m' hm hstep => hkeep i m m' hm hstep
    rw [(copyByte_ok hstep).2, Nat.add_zero, Mem.storeByte_self]

omit h in
/-- A copy of whole colours. -/
theorem memcpyArray_colors {j : ℕ} (hsrc : src = (4 * j : ℕ)) (hcap : 4 * j + 4 * n ≤ cap) (hr : r.Has dst (4 * n))
    (hwrap : dst + 4 * n ≤ 2 ^ 64) :
    memcpyArray r cap data m dst src (4 * n) = .ok (m.store32s dst (fun i => data.load32 (4 * (j + i))) n) := by
  unfold Region.Has at hr
  let state (i : ℕ) : Mem := fun x => if dst ≤ x ∧ x < dst + i then data (4 * j + (x - dst)) else m x
  have hfinal : state (4 * n) = m.store32s dst (fun i => data.load32 (4 * (j + i))) n := by
    funext x
    refine if_congr Iff.rfl ?_ rfl
    rw [Mem.load32_byte _ (by omega)]
    exact congrArg data (by omega)
  rw [← hfinal]
  refine forLoop_eq state (funext fun x => if_neg (by omega)) fun i hi => ?_
  rw [copyByte, if_neg (by omega), show (src + i).toNat = 4 * j + i by omega, Buffer.load, if_pos (by omega), Fault.ok_bind]
  simp only
  rw [Nat.mod_eq_of_lt (by omega), if_pos (by unfold Region.Has; omega)]
  refine congrArg Except.ok (funext fun x => ?_)
  rcases Nat.lt_trichotomy x (dst + i) with hlt | rfl | hgt
  · rw [Mem.storeByte_of_ne _ _ (by omega)]
    exact if_congr (by omega) rfl rfl
  · rw [Mem.storeByte_self]
    exact ((if_pos (by omega)).trans (by rw [Nat.add_sub_cancel_left])).symm
  · rw [Mem.storeByte_of_ne _ _ (by omega)]
    exact if_congr (by omega) rfl rfl

end Copies

/-! ## Rows of a rectangle -/

section Rows

variable {fb : Fb} {w h p : ℕ} (hfb : fb.Geometry w h p) {q : Rect}

/-- The rows of the rectangle are numbered by `int`s. -/
theorem Rect.wrapInt_row (q : Rect) {i : ℕ} (hi : i < q.height.toNat) : wrapInt (q.y + i) = q.y + i := by
  have hlow := q.y_ge
  have hhigh := q.bottom_lt
  exact wrapInt_of_range (by omega) (by omega)

/-- A rectangle without rows on the screen has no pixel there. -/
theorem Rect.not_shown_of_rows (hrows : q.bottom fb ≤ q.top) (px py : ℕ) : ¬q.Shown fb px py := fun hshown => by
  have hscreen := hshown.screen_y
  have habove := hshown.above
  have hbelow := hshown.below
  unfold Rect.bottom Rect.top at hrows
  omega

/-- A rectangle without columns on the screen has no pixel there. -/
theorem Rect.not_shown_of_columns (hcols : q.width = 0 ∨ fb.width ≤ q.x) (px py : ℕ) : ¬q.Shown fb px py := fun hshown => by
  have hscreen := hshown.screen_x
  have hleft := hshown.left
  have hright := hshown.right
  omega

theorem Rect.row_outside (hrows : q.bottom fb ≤ q.top) {i : ℕ} (hi : i < q.height.toNat) :
    q.y + i < 0 ∨ fb.height ≤ q.y + i := by
  unfold Rect.bottom Rect.top at hrows
  omega

theorem Fb.pixelAddr_eq (fb : Fb) (x y : ℤ) :
    (fb.pixelAddr x y : ℤ) = (fb.addr + wrapInt (y * fb.pitch) + 4 * x) % 2 ^ 64 := by
  unfold Fb.pixelAddr toSize
  omega

/-- The rectangle has nothing on the screen, and nothing is drawn. -/
theorem painted_nothing {body : ℕ → Mem → Except Fault Mem} {f : ℤ → ℤ → BitVec 32} (hnone : ∀ px py, ¬q.Shown fb px py)
    (hbody : ∀ i < q.height.toNat, ∀ m, body i m = .ok m) (m : Mem) :
    ∃ m', forLoop body m q.height.toNat = .ok m' ∧ Painted fb q f m m' :=
  ⟨m, forLoop_eq (fun _ => m) rfl fun i hi => hbody i hi m, fun px py hshown => absurd hshown (hnone px py), fun _ _ => rfl⟩

include hfb

/-- The width of a row, which may be negative. -/
theorem Fb.Geometry.clipWidth : fb.clipWidth q.x q.width = min q.width (fb.width - q.x) := by
  have hrows := hfb.rows
  have hpitch := hfb.pitch_lt
  have hleft := q.x_ge
  have hwidth := q.width_nonneg
  have hwidth' := q.width_lt
  have hright := q.right_lt
  rw [Fb.clipWidth, wrapInt_of_range (by omega) hright, hfb.width]
  split_ifs with hclip
  · rw [wrapInt_of_range (by omega) (by omega)]
    omega
  · omega

/-- The rows on the screen are drawn one after the other. -/
theorem painted_rows {body : ℕ → Mem → Except Fault Mem} {f : ℤ → ℤ → BitVec 32} {x n : ℕ} (hx : q.x = x)
    (hn : (n : ℤ) = min q.width (w - x))
    (hskip : ∀ i < q.height.toNat, q.y + i < 0 ∨ h ≤ q.y + i → ∀ m, body i m = .ok m)
    (hdraw : ∀ i < q.height.toNat, ∀ py : ℕ, q.y + i = py → py < h → ∀ m,
      body i m = .ok (m.store32s (fb.addr + py * p + 4 * x) (fun j => f (x + j : ℕ) py) n)) (m : Mem) :
    ∃ m', forLoop body m q.height.toNat = .ok m' ∧ Painted fb q f m m' := by
  have hwidth : fb.width = w := hfb.width
  have hheight : fb.height = h := hfb.height
  have hp : fb.pitch.toNat = p := by rw [hfb.pitch, Int.toNat_natCast]
  obtain ⟨m', hloop, hpixel, hrest⟩ := @forLoop_ok _ body m q.height.toNat
    (fun i m' => (∀ px py, q.Shown fb px py → py < q.y + i → fb.pixel m' px py = f px py) ∧
      ∀ a, (∀ px py, q.Shown fb px py → ¬(fb.pixelStart px py ≤ a ∧ a < fb.pixelStart px py + 4)) → m' a = m a)
    ⟨fun px py hshown hpy => absurd hshown.above (by omega), fun _ _ => rfl⟩ fun i hi m' hinv => by
      by_cases hrow : q.y + i < 0 ∨ h ≤ q.y + i
      · refine ⟨m', hskip i hi hrow m', fun px py hshown hpy => hinv.1 px py hshown ?_, hinv.2⟩
        have := hshown.screen_y
        omega
      · obtain ⟨py, hpy⟩ := Int.eq_ofNat_of_zero_le (show 0 ≤ q.y + i by omega)
        refine ⟨_, hdraw i hi py hpy (by omega) m', fun px py' hshown hlt => ?_, fun a hout => ?_⟩
        · have hscreen := hshown.screen_x
          have hleft := hshown.left
          have hright := hshown.right
          rw [hfb.pixel_store32s (by omega) _ (by omega)]
          split_ifs with hin
          · rw [hin.1, Nat.add_sub_cancel' hin.2.1]
          · exact hinv.1 px py' hshown (by omega)
        · rw [Mem.store32s_of_outside]
          · exact hinv.2 a hout
          · by_contra hin
            have hshown : q.Shown fb (x + (a - (fb.addr + py * p + 4 * x)) / 4) py :=
              ⟨by omega, by omega, by omega, by omega, by omega, by omega⟩
            refine hout _ _ hshown ?_
            rw [Fb.pixelStart, hp]
            omega
  refine ⟨m', hloop, fun px py hshown => hpixel px py hshown ?_, hrest⟩
  have := hshown.below
  omega

/-- If the offset of the last row is an `int`, then so are those before. -/
theorem Fb.Geometry.row_fits (hlast : (q.bottom fb - 1) * fb.pitch < 2 ^ 31) {i : ℕ} (hi : i < q.height.toNat) {py : ℕ}
    (hpy : q.y + i = py) (hlt : py < h) : py * p < 2 ^ 31 := by
  have hrow : (py : ℤ) ≤ q.bottom fb - 1 := by
    unfold Rect.bottom
    rw [hfb.height]
    omega
  have hmul := Int.mul_le_mul_of_nonneg_right hrow (show 0 ≤ fb.pitch by rw [hfb.pitch]; omega)
  rw [hfb.pitch, ← Int.natCast_mul] at hmul
  rw [hfb.pitch] at hlast
  omega

/-- The address for a row, if it is one of a pixel, is not before the first pixel. -/
theorem offset_le_of_shown {r : ℤ} {px py : ℕ} (hshown : q.Shown fb px py)
    (hbyte : fb.pixelStart px py ≤ fb.pixelAddr q.x r ∧ fb.pixelAddr q.x r < fb.pixelStart px py + 4) :
    q.top * p + 4 * max q.x 0 ≤ wrapInt (r * p) + 4 * q.x := by
  have hx := hshown.screen_x
  have hy := hshown.screen_y
  have hleft := hshown.left
  have habove := hshown.above
  rw [hfb.width] at hx
  rw [hfb.height] at hy
  have htop : q.top * p ≤ (py : ℤ) * p := Int.mul_le_mul_of_nonneg_right (by unfold Rect.top; omega) (by omega)
  have hrow := hfb.row_le (y := py) (by omega)
  have hfits := hfb.fits
  have hsize : p * h < 2 ^ 31 * 2 ^ 31 := Nat.mul_lt_mul'' hfb.pitch_lt hfb.height_lt
  have hlow := (wrapInt_range (r * p)).1
  have hge := q.x_ge
  have haddr := fb.pixelAddr_eq q.x r
  rw [hfb.pitch] at haddr
  rw [Fb.pixelStart, hfb.pitch, Int.toNat_natCast] at hbyte
  rw [← Int.natCast_mul] at htop
  by_contra hlt
  omega

/-- If a drawing of zeros has changed pixels of the rectangle only, it has begun on the screen, and
the offsets of its rows are `int`s. -/
theorem fits_of_painted {body : ℕ → Mem → Except Fault Mem} {f : ℤ → ℤ → BitVec 32} {m' : Mem} (hrows : q.top < q.bottom fb)
    (hloop : forLoop body (fun _ => 0xFF) q.height.toNat = .ok m') (hpaint : Painted fb q f (fun _ => 0xFF) m')
    (hkeep : ∀ i < q.height.toNat, ∀ m m' a, m a = 0 → body i m = .ok m' → m' a = 0)
    (hset : ∀ i < q.height.toNat, 0 ≤ q.y + i → q.y + i < h → ∀ m m', body i m = .ok m' →
      m' (fb.pixelAddr q.x (q.y + i)) = 0) :
    0 ≤ q.x ∧ (q.bottom fb - 1) * fb.pitch < 2 ^ 31 := by
  have hpos : 0 ≤ q.top := le_max_right _ _
  have hoffset {r : ℤ} (hlow : q.top ≤ r) (hhigh : r < q.bottom fb) :
      q.top * p + 4 * max q.x 0 ≤ wrapInt (r * p) + 4 * q.x := by
    obtain ⟨i, hi⟩ := Int.eq_ofNat_of_zero_le (show 0 ≤ r - q.y by unfold Rect.top at hlow; omega)
    obtain rfl : r = q.y + i := by omega
    have hi' : i < q.height.toNat := by
      unfold Rect.bottom at hhigh
      omega
    have hrow : q.y + i < h := by
      unfold Rect.bottom at hhigh
      rw [hfb.height] at hhigh
      omega
    have hzero : m' (fb.pixelAddr q.x (q.y + i)) = 0 :=
      forLoop_establish hloop (fun m => m (fb.pixelAddr q.x (q.y + i)) = 0) hi' (hset i hi' (by omega) hrow)
        fun j _ hj m m' hm hstep => hkeep j hj m m' _ hm hstep
    by_contra hbefore
    have hsame := hpaint.rest (fb.pixelAddr q.x (q.y + i)) fun px py hshown hbyte =>
      hbefore (offset_le_of_shown hfb hshown hbyte)
    exact absurd (hzero.symm.trans hsame) (by decide)
  have hprod : 0 ≤ q.top * p := Int.mul_nonneg hpos (by omega)
  obtain ⟨k, hk⟩ := exists_wrapInt (q.top * p)
  have hfirst := hoffset (le_refl _) hrows
  have hlow := wrapInt_range (q.top * p)
  refine ⟨by omega, ?_⟩
  have hall (n : ℕ) (hn : q.top + n < q.bottom fb) : (q.top + n) * p < 2 ^ 31 := by
    induction n with
    | zero =>
        rw [Int.natCast_zero, add_zero]
        omega
    | succ n ih =>
        have hprev := ih (by omega)
        have hpitch := hfb.pitch_lt
        have hnext : (q.top + (n + 1 : ℕ)) * p = (q.top + n) * p + p := by
          rw [Int.natCast_succ, ← add_assoc, add_mul, one_mul]
        have hnonneg : 0 ≤ (q.top + n) * p := Int.mul_nonneg (by omega) (by omega)
        have hthis := hoffset (r := q.top + (n + 1 : ℕ)) (by omega) hn
        rw [hnext] at hthis ⊢
        obtain ⟨k', hk'⟩ := exists_wrapInt ((q.top + n) * p + p)
        have hlow' := wrapInt_range ((q.top + n) * p + p)
        omega
  have hlast := hall (q.bottom fb - 1 - q.top).toNat (by omega)
  rw [hfb.pitch]
  rwa [show q.top + (q.bottom fb - 1 - q.top).toNat = q.bottom fb - 1 by omega] at hlast

/-! ## One colour -/

section OneColour

variable {color : BitVec 32} {m : Mem} {y : ℤ}

omit hfb in
theorem fbPutRectFragment_skip {r : Region} {x width : ℤ} (hy : y < 0 ∨ fb.height ≤ y) :
    fbPutRectFragment r fb m color x y width = .ok m := if_pos hy

theorem fbPutRectFragment_none (hnone : q.width = 0 ∨ fb.width ≤ q.x) :
    fbPutRectFragment .whole fb m color q.x y q.width = .ok m := by
  unfold fbPutRectFragment
  split_ifs
  · rfl
  · rw [hfb.clipWidth, show (min q.width (fb.width - q.x)).toNat = 0 by omega]
    rfl

/-- A rectangle that begins on the screen is drawn, and so is one of which there is nothing to draw. -/
theorem drawRectClipped_of_fits (hfits : q.Fits fb) : DrawRectClipped fb q := by
  intro m color
  rw [fbDrawRect, hfb.assertInitialized, Fault.ok_bind]
  by_cases hnone : q.width = 0 ∨ fb.width ≤ q.x
  · exact painted_nothing (Rect.not_shown_of_columns hnone) (fun i _ m => fbPutRectFragment_none hfb hnone) m
  by_cases hrows : q.bottom fb ≤ q.top
  · refine painted_nothing (Rect.not_shown_of_rows hrows) (fun i hi m => ?_) m
    rw [q.wrapInt_row hi, fbPutRectFragment_skip (Rect.row_outside hrows hi)]
  obtain ⟨hx, hlast⟩ : 0 ≤ q.x ∧ (q.bottom fb - 1) * fb.pitch < 2 ^ 31 := by
    rcases hfits with h | h | h | h
    · exact absurd h hrows
    · exact absurd (Or.inl h) hnone
    · exact absurd (Or.inr h) hnone
    · exact h
  have hwidth := q.width_nonneg
  obtain ⟨x, hx⟩ := Int.eq_ofNat_of_zero_le hx
  rw [hfb.width] at hnone
  obtain ⟨n, hn⟩ := Int.eq_ofNat_of_zero_le (show 0 ≤ min q.width (w - x) by omega)
  refine painted_rows hfb hx hn.symm (fun i hi hout m => ?_) (fun i hi py hpy hlt m => ?_) m
  · rw [q.wrapInt_row hi, fbPutRectFragment_skip (by rw [hfb.height]; exact hout)]
  · rw [q.wrapInt_row hi, hpy, fbPutRectFragment, if_neg (by rw [hfb.height]; omega), hfb.clipWidth, hfb.width, hx, hn]
    exact hfb.storeColors ⟨Nat.zero_le _, hfb.fits⟩ (by omega) (by omega) hlt (hfb.row_fits hlast hi hpy hlt) _

/-- The rectangle is clipped exactly if it begins on the screen, or nothing of it is drawn. -/
theorem drawRectClipped_iff : DrawRectClipped fb q ↔ q.Fits fb := by
  refine ⟨fun hclip => ?_, drawRectClipped_of_fits hfb⟩
  have hwidth := q.width_nonneg
  by_cases hrows : q.bottom fb ≤ q.top
  · exact Or.inl hrows
  by_cases hzero : q.width = 0
  · exact Or.inr (Or.inl hzero)
  by_cases hright : fb.width ≤ q.x
  · exact Or.inr (Or.inr (Or.inl hright))
  obtain ⟨m', hcall, hpaint⟩ := hclip (fun _ => 0xFF) 0
  rw [fbDrawRect, hfb.assertInitialized, Fault.ok_bind] at hcall
  refine Or.inr (Or.inr (Or.inr (fits_of_painted hfb (by omega) hcall hpaint ?_ ?_)))
  · intro i _ m m' a ha hstep
    unfold fbPutRectFragment at hstep
    split_ifs at hstep
    · obtain rfl := Except.ok.inj hstep
      exact ha
    · exact storeColors_zero hstep (Or.inl ha)
  · intro i hi hlow hhigh m m' hstep
    rw [fbPutRectFragment, q.wrapInt_row hi, if_neg (by rw [hfb.height]; omega), hfb.clipWidth] at hstep
    exact storeColors_zero hstep (Or.inr ⟨by omega, (Nat.mod_mod _ _).symm⟩)

end OneColour

/-! ## An array of colours -/

section Array

variable {r : Region} {m array : Mem} {cap : ℕ} {data y : ℤ}

/-- The number of bytes of a row. -/
def rowSize (width : ℤ) : ℕ := 4 * toSize width % 2 ^ 64

omit hfb in
theorem rowSize_of_nonneg {n : ℤ} (hn : 0 ≤ n) (hlt : n < 2 ^ 31) : rowSize n = 4 * n.toNat := by
  unfold rowSize toSize
  omega

omit hfb in
/-- A negative width becomes almost the whole address space. -/
theorem rowSize_of_neg {n : ℤ} (hn : n < 0) (hlow : -2 ^ 31 ≤ n) : (rowSize n : ℤ) = 2 ^ 64 + 4 * n := by
  unfold rowSize toSize
  omega

omit hfb in
theorem fbPutLineFragment_skip {x width : ℤ} (hy : y < 0 ∨ fb.height ≤ y) :
    fbPutLineFragment r fb m cap array data x y width = .ok m := if_pos hy

theorem fbPutLineFragment_row (hlow : 0 ≤ y) (hhigh : y < h) :
    fbPutLineFragment r fb m cap array data q.x y q.width =
      memcpyArray r cap array m (fb.pixelAddr q.x y) (4 * data) (rowSize (min q.width (fb.width - q.x))) := by
  rw [fbPutLineFragment, if_neg (by rw [hfb.height]; omega), hfb.clipWidth]
  rfl

omit hfb in
/-- The array has fewer bytes than the address space, by more than a row. -/
theorem Rect.array_lt (q : Rect) : 4 * (q.width * q.height) ≤ 2 ^ 64 - 2 ^ 33 := by
  have hwidth := q.width_lt
  have hheight := q.height_lt
  have hmul := Int.mul_le_mul (show q.width ≤ 2 ^ 31 - 1 by omega) (show q.height ≤ 2 ^ 31 - 1 by omega) q.height_nonneg (by decide)
  omega

/-- To the right of the screen the copy of a row leaves the array. -/
theorem fbPutLineFragment_right {m' : Mem} (hright : fb.width < q.x) (hlow : 0 ≤ y) (hhigh : y < h) :
    fbPutLineFragment r fb m (4 * (q.width * q.height)).toNat array data q.x y q.width ≠ .ok m' := by
  rw [fbPutLineFragment_row hfb hlow hhigh]
  intro hstep
  have hwidth := q.width_nonneg
  have hx := q.right_lt
  have hlt := q.array_lt
  have hnonneg := Int.mul_nonneg q.width_nonneg q.height_nonneg
  rw [hfb.width] at hright hstep
  have hsize := rowSize_of_neg (n := min q.width (w - q.x)) (by omega) (by omega)
  have hinside := memcpyArray_inside hstep (by omega)
  omega

/-- A rectangle can only be drawn if the offset of its last row in the array is an `int`. -/
theorem offset_of_drawClipped (hclip : DrawClipped fb q) (hrows : q.top < q.bottom fb) (hpos : 0 < q.width) {x : ℕ}
    (hx : q.x = x) (hxw : x < w) (hlast : (q.bottom fb - 1) * fb.pitch < 2 ^ 31) :
    q.width * (q.bottom fb - 1 - q.y) < 2 ^ 31 := by
  have hpitch := hfb.pitch_lt
  have hheight : fb.height = h := hfb.height
  have hwidth := q.width_lt
  unfold Rect.top Rect.bottom at hrows
  obtain ⟨py, hpy⟩ := Int.eq_ofNat_of_zero_le (show 0 ≤ q.bottom fb - 1 by unfold Rect.bottom; omega)
  obtain ⟨i, hi⟩ := Int.eq_ofNat_of_zero_le (show 0 ≤ q.bottom fb - 1 - q.y by unfold Rect.bottom; omega)
  rw [hi]
  unfold Rect.bottom at hpy hi
  have hrow : q.y + i = py := by omega
  have hlt : i < q.height.toNat := by omega
  have hend : py < h := by omega
  have hfit := hfb.row_fits hlast hlt hrow hend
  have haddr : fb.pixelAddr q.x (q.y + i) = fb.pixelStart x py := by
    rw [hx, hrow, hfb.pixelAddr hxw hend hfit, Fb.pixelStart, hfb.pitch, Int.toNat_natCast]
  by_contra hbig
  -- only the first byte for the last row is not zero
  obtain ⟨m', hcall, hpaint⟩ := hclip (fun _ => 0) (fun a => if a = 4 * (q.width * i).toNat then 1 else 0)
  rw [fbDraw, hfb.assertInitialized, Fault.ok_bind] at hcall
  have hone : m' (fb.pixelStart x py) = 1 := by
    have hshown : q.Shown fb x py := ⟨by rw [hfb.width]; omega, by omega, by omega, by omega, by omega, by omega⟩
    have hbyte := Mem.load32_byte m' (a := fb.pixelStart x py) (k := 0) (by decide)
    rw [show m'.load32 (fb.pixelStart x py) = _ from hpaint.pixel x py hshown, Rect.colour, Mem.load32_byte _ (by decide),
      if_pos (by rw [hx, sub_self, add_zero, show (py : ℤ) - q.y = i by omega, mul_comm (i : ℤ)]; omega)] at hbyte
    exact hbyte.symm
  have hzero : m' (fb.pixelStart x py) = 0 := by
    refine forLoop_establish hcall (fun m => m (fb.pixelStart x py) = 0) hlt (fun m m' hstep => ?_) fun j hij hj m m' hm hstep => ?_
    · rw [q.wrapInt_row hlt, fbPutLineFragment_row hfb (by omega) (by omega), hfb.width, rowSize_of_nonneg (by omega) (by omega)] at hstep
      have hfirst := memcpyArray_first hstep (by omega) (by omega)
      have hwrap := wrapInt_range (q.width * i)
      rwa [if_neg (by omega), haddr, Nat.mod_eq_of_lt (by rw [← haddr]; exact Nat.mod_lt _ (by decide))] at hfirst
    · rw [q.wrapInt_row hj, fbPutLineFragment_skip (by omega)] at hstep
      obtain rfl := Except.ok.inj hstep
      exact hm
  exact absurd (hzero.symm.trans hone) (by decide)

/-- A row of the array on the screen. -/
theorem fbPutLineFragment_draw {x n i py : ℕ} (hx : q.x = x) (hn : (n : ℤ) = min q.width (w - x)) (hpos : 0 < n)
    (hi : i < q.height.toNat) (hrow : q.y + i = py) (hlt : py < h) (hfit : py * p < 2 ^ 31) (hoffset : q.width * i < 2 ^ 31) :
    fbPutLineFragment .whole fb m (4 * (q.width * q.height)).toNat array (wrapInt (q.width * i)) q.x py q.width =
      .ok (m.store32s (fb.addr + py * p + 4 * x) (fun j => q.colour array (x + j : ℕ) py) n) := by
  have hwidth := q.width_lt
  have hend := hfb.row_le hlt
  have hfits := hfb.fits
  have hnonneg : 0 ≤ q.width * i := Int.mul_nonneg q.width_nonneg (by omega)
  have hnext : q.width * i + q.width ≤ q.width * q.height := by
    have hmul := Int.mul_le_mul_of_nonneg_left (show (i : ℤ) + 1 ≤ q.height by omega) q.width_nonneg
    rwa [mul_add, mul_one] at hmul
  have hcolour (j : ℕ) : q.colour array (x + j : ℕ) py = array.load32 (4 * ((q.width * i).toNat + j)) := by
    rw [Rect.colour, hx, show (py : ℤ) - q.y = i by omega, mul_comm (i : ℤ)]
    exact congrArg array.load32 (by omega)
  simp only [hcolour]
  rw [fbPutLineFragment_row hfb (by omega) (by omega), hfb.width, rowSize_of_nonneg (by omega) (by omega), hx,
    hfb.pixelAddr (by omega) hlt hfit, show (min q.width (w - x)).toNat = n by omega]
  rw [wrapInt_of_range (by omega) hoffset]
  exact memcpyArray_colors (by omega) (by omega) ⟨Nat.zero_le _, show _ ≤ 2 ^ 64 by omega⟩ (by omega)

/-- Nothing is drawn of an array without columns on the screen, unless it is to the right of it. -/
theorem fbPutLineFragment_none (hnone : (q.width = 0 ∧ q.x ≤ fb.width) ∨ q.x = fb.width) :
    fbPutLineFragment r fb m cap array data q.x y q.width = .ok m := by
  by_cases hout : y < 0 ∨ fb.height ≤ y
  · exact fbPutLineFragment_skip hout
  · have hwidth := q.width_nonneg
    have hheight := hfb.height
    rw [fbPutLineFragment_row hfb (by omega) (by omega), show min q.width (fb.width - q.x) = 0 by omega]
    rfl

/-- An array whose rows can be reached is drawn. -/
theorem drawClipped_of_fits (hfits : q.ArrayFits fb) : DrawClipped fb q := by
  intro m array
  rw [fbDraw, hfb.assertInitialized, Fault.ok_bind]
  by_cases hnone : (q.width = 0 ∧ q.x ≤ fb.width) ∨ q.x = fb.width
  · exact painted_nothing (Rect.not_shown_of_columns (by omega)) (fun i _ m => fbPutLineFragment_none hfb hnone) m
  by_cases hrows : q.bottom fb ≤ q.top
  · refine painted_nothing (Rect.not_shown_of_rows hrows) (fun i hi m => ?_) m
    rw [q.wrapInt_row hi, fbPutLineFragment_skip (Rect.row_outside hrows hi)]
  obtain ⟨⟨hx, hxw⟩, hlast, hoffset⟩ : (0 ≤ q.x ∧ q.x < fb.width) ∧ (q.bottom fb - 1) * fb.pitch < 2 ^ 31 ∧
      q.width * (q.bottom fb - 1 - q.y) < 2 ^ 31 := by
    rcases hfits with h | h | h | h
    · exact absurd h hrows
    · exact absurd (Or.inl h) hnone
    · exact absurd (Or.inr h) hnone
    · exact h
  have hwidth := q.width_nonneg
  obtain ⟨x, hx⟩ := Int.eq_ofNat_of_zero_le hx
  rw [hfb.width] at hnone hxw
  obtain ⟨n, hn⟩ := Int.eq_ofNat_of_zero_le (show 0 ≤ min q.width (w - x) by omega)
  refine painted_rows hfb hx hn.symm (fun i hi hout m => ?_) (fun i hi py hpy hlt m => ?_) m
  · rw [q.wrapInt_row hi, fbPutLineFragment_skip (by rw [hfb.height]; exact hout)]
  · have hi' : (i : ℤ) ≤ q.bottom fb - 1 - q.y := by
      unfold Rect.bottom
      rw [hfb.height]
      omega
    rw [q.wrapInt_row hi, hpy]
    exact fbPutLineFragment_draw hfb hx hn.symm (by omega) hi hpy hlt (hfb.row_fits hlast hi hpy hlt)
      (lt_of_le_of_lt (Int.mul_le_mul_of_nonneg_left hi' hwidth) hoffset)

/-- A drawing of an array that returns is not to the right of the screen. -/
theorem left_of_fbDraw {m' : Mem} (hrows : q.top < q.bottom fb)
    (hcall : fbDraw r fb m (4 * (q.width * q.height)).toNat array q.x q.y q.width q.height = .ok m') : q.x ≤ fb.width := by
  unfold Rect.bottom Rect.top at hrows
  obtain ⟨i, hi⟩ := Int.eq_ofNat_of_zero_le (show 0 ≤ q.top - q.y by unfold Rect.top; omega)
  unfold Rect.top at hi
  have hlt : i < q.height.toNat := by omega
  have hheight := hfb.height
  rw [fbDraw, hfb.assertInitialized, Fault.ok_bind] at hcall
  obtain ⟨m, m', hstep⟩ := forLoop_returned hcall hlt
  rw [q.wrapInt_row hlt] at hstep
  by_contra hright
  exact fbPutLineFragment_right hfb (by omega) (by omega) (by omega) hstep

/-- The same rectangle is clipped exactly if the rows of the array can be reached as well, and it
is not to the right of the screen. -/
theorem drawClipped_iff : DrawClipped fb q ↔ q.ArrayFits fb := by
  refine ⟨fun hclip => ?_, drawClipped_of_fits hfb⟩
  have hwidth := q.width_nonneg
  by_cases hrows : q.bottom fb ≤ q.top
  · exact Or.inl hrows
  obtain ⟨m', hcall, hpaint⟩ := hclip (fun _ => 0xFF) (fun _ => 0)
  have hleft := left_of_fbDraw hfb (by omega) hcall
  by_cases hedge : q.x = fb.width
  · exact Or.inr (Or.inr (Or.inl hedge))
  by_cases hzero : q.width = 0
  · exact Or.inr (Or.inl ⟨hzero, hleft⟩)
  rw [fbDraw, hfb.assertInitialized, Fault.ok_bind] at hcall
  obtain ⟨hx, hlast⟩ : 0 ≤ q.x ∧ (q.bottom fb - 1) * fb.pitch < 2 ^ 31 := by
    refine fits_of_painted hfb (by omega) hcall hpaint ?_ ?_
    · intro i _ m m' a ha hstep
      unfold fbPutLineFragment at hstep
      split_ifs at hstep
      · obtain rfl := Except.ok.inj hstep
        exact ha
      · exact memcpyArray_zero hstep (Or.inl ha)
    · intro i hi hlow hhigh m m' hstep
      have hlt := q.width_lt
      rw [q.wrapInt_row hi, fbPutLineFragment_row hfb hlow hhigh, rowSize_of_nonneg (by omega) (by omega)] at hstep
      exact memcpyArray_zero hstep (Or.inr ⟨by omega, (Nat.mod_mod _ _).symm⟩)
  obtain ⟨x, hx'⟩ := Int.eq_ofNat_of_zero_le hx
  have hscreen := hfb.width
  exact Or.inr (Or.inr (Or.inr ⟨⟨hx, by omega⟩, hlast,
    offset_of_drawClipped hfb hclip (by omega) (by omega) hx' (by omega) hlast⟩))

end Array

/-- Exactly when drawing is clipped to the screen. -/
theorem drawing_clipped (q : Rect) : (DrawRectClipped fb q ↔ q.Fits fb) ∧ (DrawClipped fb q ↔ q.ArrayFits fb) :=
  ⟨drawRectClipped_iff hfb, drawClipped_iff hfb⟩

end Rows

/-! ## A tiny screen -/

/-- A screen of two rows of four pixels. -/
def tinyFb : Fb := ⟨true, directMapStart, 4, 2, 16, 32⟩

theorem tinyFb_geometry : tinyFb.Geometry 4 2 16 :=
  ⟨rfl, rfl, rfl, rfl, by decide, by decide, by decide, by decide⟩

/-- A rectangle that reaches over the right edge, the upper and the lower one. -/
def cornerRect : Rect := ⟨1, -1, 8, 8, by decide, by decide, by decide, by decide, by decide, by decide, by decide, by decide⟩

/-- A pixel to the left of the screen. -/
def leftRect : Rect := ⟨-1, 0, 1, 1, by decide, by decide, by decide, by decide, by decide, by decide, by decide, by decide⟩

/-- A pixel to the right of the screen. -/
def rightRect : Rect := ⟨5, 0, 1, 1, by decide, by decide, by decide, by decide, by decide, by decide, by decide, by decide⟩

theorem drawing_clipped_corner : DrawRectClipped tinyFb cornerRect ∧ DrawClipped tinyFb cornerRect :=
  ⟨(drawing_clipped tinyFb_geometry cornerRect).1.mpr (by decide), (drawing_clipped tinyFb_geometry cornerRect).2.mpr (by decide)⟩

/-- Neither function leaves out a pixel to the left, and `fb_draw` none to the right. -/
theorem drawing_not_clipped :
    ¬DrawRectClipped tinyFb leftRect ∧ ¬DrawClipped tinyFb leftRect ∧ ¬DrawClipped tinyFb rightRect :=
  ⟨fun hclip => absurd ((drawRectClipped_iff tinyFb_geometry).mp hclip) (by decide),
    fun hclip => absurd ((drawClipped_iff tinyFb_geometry).mp hclip) (by decide),
    fun hclip => absurd ((drawClipped_iff tinyFb_geometry).mp hclip) (by decide)⟩

end HeavenOS
