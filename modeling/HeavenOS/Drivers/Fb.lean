/-
# The framebuffer

The driver of `drivers/fb.c`. Sizes and coordinates are of type `int`, whose products and sums
wrap on this target, and addresses are of 64 bits. A region says which addresses may be accessed:
all of them, or those of the framebuffer only.
-/

import HeavenOS.Kernel.Multiboot
import HeavenOS.Mm.Paging
import HeavenOS.Utils.Memmove

namespace HeavenOS

open Lib

/-! ## Numbers of type `int` -/

/-- The value of an `int` expression. -/
def wrapInt (a : ℤ) : ℤ := Int.bmod a (2 ^ 32)

/-- An `int` converted to `size_t`. -/
def toSize (a : ℤ) : ℕ := (a % 2 ^ 64).toNat

theorem wrapInt_of_range {a : ℤ} (hlo : -2 ^ 31 ≤ a) (hhi : a < 2 ^ 31) : wrapInt a = a :=
  Int.bmod_eq_of_le (by omega) (by omega)

theorem wrapInt_natCast {a : ℕ} (h : a < 2 ^ 31) : wrapInt a = a := wrapInt_of_range (by omega) (by omega)

theorem wrapInt_range (a : ℤ) : -2 ^ 31 ≤ wrapInt a ∧ wrapInt a < 2 ^ 31 :=
  ⟨Int.le_bmod (by decide), Int.bmod_lt (by decide)⟩

theorem exists_wrapInt (a : ℤ) : ∃ k : ℤ, a = wrapInt a + 2 ^ 32 * k :=
  ⟨a.bdiv (2 ^ 32), (Int.bmod_add_bdiv a (2 ^ 32)).symm⟩

theorem toSize_natCast {a : ℕ} (h : a < 2 ^ 64) : toSize a = a := by
  unfold toSize
  omega

/-! ## The driver -/

/-- The static variables of the driver. -/
structure Fb where
  initialized : Bool
  addr : ℕ
  width : ℤ
  height : ℤ
  pitch : ℤ
  bufSize : ℤ
  deriving DecidableEq

/-- `kassert(fb_initialized)` -/
def Fb.assertInitialized (fb : Fb) : Except Fault Unit :=
  (kassert (fb.initialized = true) "fb_initialized").mapError .panic

/-- `fb_init` -/
def fbInit (m : Mem) (p : MbPointers) : Except Fault Fb := do
  (kassert (p.mbFbInfo ≠ 0 ∧ m (p.mbFbInfo + 29) = 1 ∧ m (p.mbFbInfo + 28) = 32)
    "mb_fb_info != NULL && mb_fb_info->type == 1 && mb_fb_info->depth == 32").mapError .panic
  let pitch := m.loadU32 (p.mbFbInfo + 16)
  let height := wrapInt (m.loadU32 (p.mbFbInfo + 24))
  return {
    initialized := true
    addr := physToVirt (m.loadPtr (p.mbFbInfo + 8))
    width := wrapInt (m.loadU32 (p.mbFbInfo + 20))
    height := height
    pitch := wrapInt pitch
    bufSize := wrapInt (pitch * height) }

/-- `fb_get_size` -/
def fbGetSize (fb : Fb) : Except Fault (ℤ × ℤ) := do
  fb.assertInitialized
  return (fb.width, fb.height)

/-- `fb_addr + y * fb_pitch + x * sizeof(fb_color_t)` -/
def Fb.pixelAddr (fb : Fb) (x y : ℤ) : ℕ := (fb.addr + toSize (wrapInt (y * fb.pitch)) + 4 * toSize x) % 2 ^ 64

/-- The width that `fb_put_line_fragment` and `fb_put_rect_fragment` go on with. -/
def Fb.clipWidth (fb : Fb) (x width : ℤ) : ℤ :=
  if fb.width < wrapInt (x + width) then wrapInt (fb.width - x) else width

/-- `fb_put_rect_fragment` -/
def fbPutRectFragment (r : Region) (fb : Fb) (m : Mem) (color : BitVec 32) (x y width : ℤ) : Except Fault Mem :=
  if y < 0 ∨ fb.height ≤ y then .ok m
  else storeColors r m (fb.pixelAddr x y) (fun _ => color) (fb.clipWidth x width).toNat

/-- `fb_draw_rect` -/
def fbDrawRect (r : Region) (fb : Fb) (m : Mem) (color : BitVec 32) (x y width height : ℤ) : Except Fault Mem := do
  fb.assertInitialized
  forLoop (fun i m => fbPutRectFragment r fb m color x (wrapInt (y + i)) width) m height.toNat

/-- `*d = *s` for byte `i`, from an array of `cap` bytes. -/
def copyByte (r : Region) (cap : ℕ) (data : Mem) (dst : ℕ) (src : ℤ) (i : ℕ) (m : Mem) : Except Fault Mem :=
  if src + i < 0 then .error .outOfBounds
  else do
    let c ← Buffer.load cap data (src + i).toNat
    let a := (dst + i) % 2 ^ 64
    if r.Has a 1 then .ok (m.storeByte a c) else .error .outOfBounds

/-- `memcpy` from the bytes of an array, `cap` of them, into memory. -/
def memcpyArray (r : Region) (cap : ℕ) (data : Mem) (m : Mem) (dst : ℕ) (src : ℤ) (sz : ℕ) : Except Fault Mem :=
  forLoop (copyByte r cap data dst src) m sz

/-- `fb_put_line_fragment`, for the pixels of the array from `data` on. -/
def fbPutLineFragment (r : Region) (fb : Fb) (m : Mem) (cap : ℕ) (array : Mem) (data x y width : ℤ) : Except Fault Mem :=
  if y < 0 ∨ fb.height ≤ y then .ok m
  else memcpyArray r cap array m (fb.pixelAddr x y) (4 * data) (4 * toSize (fb.clipWidth x width) % 2 ^ 64)

/-- `fb_draw`, for an array of `cap` bytes. -/
def fbDraw (r : Region) (fb : Fb) (m : Mem) (cap : ℕ) (array : Mem) (x y width height : ℤ) : Except Fault Mem := do
  fb.assertInitialized
  forLoop (fun i m => fbPutLineFragment r fb m cap array (wrapInt (width * i)) x (wrapInt (y + i)) width) m height.toNat

/-- `pixel_set` in `fb_draw_glyph` -/
def pixelSet (glyph : List ℕ) (h w : ℕ) : Bool := (glyph.getD h 0 >>> w) &&& 1 ≠ 0

/-- `fb_draw_glyph` -/
def fbDrawGlyph (r : Region) (fb : Fb) (m : Mem) (glyph : List ℕ) (x y : ℤ) (fgColor bgColor : BitVec 32) :
    Except Fault Mem := do
  fb.assertInitialized
  forLoop (fun h m =>
    storeColors r m (fb.pixelAddr x (wrapInt (y + h))) (fun w => if pixelSet glyph h w then fgColor else bgColor) 8) m 8

/-- `fb_scroll_up` -/
def fbScrollUp (r : Region) (fb : Fb) (m : Mem) (height : ℤ) (color : BitVec 32) : Except Fault Mem := do
  fb.assertInitialized
  let src := (fb.addr + toSize (wrapInt (fb.pitch * height))) % 2 ^ 64
  let (m, _) ← memmove r m fb.addr src (toSize (wrapInt (fb.pitch * wrapInt (fb.height - height))))
  let first := wrapInt (fb.height - height)
  forLoop (fun i m => fbPutRectFragment r fb m color 0 (first + i) fb.width) m (fb.height - first).toNat

/-! ## Pixels -/

/-- A framebuffer of `w` times `h` pixels with `p` bytes for each row, inside of the address space. -/
structure Fb.Geometry (fb : Fb) (w h p : ℕ) : Prop where
  initialized : fb.initialized = true
  width : fb.width = w
  height : fb.height = h
  pitch : fb.pitch = p
  height_lt : h < 2 ^ 31
  pitch_lt : p < 2 ^ 31
  rows : 4 * w ≤ p
  fits : fb.addr + p * h ≤ 2 ^ 64

/-- The bytes of the framebuffer. -/
def Fb.region (fb : Fb) : Region := ⟨fb.addr, fb.addr + fb.pitch.toNat * fb.height.toNat⟩

/-- The pixel in column `px` of row `py`. -/
def Fb.pixel (fb : Fb) (m : Mem) (px py : ℕ) : BitVec 32 := m.load32 (fb.addr + py * fb.pitch.toNat + 4 * px)

/-- What `fb_init` reads is a framebuffer, if its sizes are `int`s and a row fits into the pitch. -/
theorem fbInit_geometry {m : Mem} {p : MbPointers} {fb : Fb} (hinit : fbInit m p = .ok fb)
    (hwidth : 4 * m.loadU32 (p.mbFbInfo + 20) ≤ m.loadU32 (p.mbFbInfo + 16)) (hpitch : m.loadU32 (p.mbFbInfo + 16) < 2 ^ 31)
    (hheight : m.loadU32 (p.mbFbInfo + 24) < 2 ^ 31)
    (hfits : physToVirt (m.loadPtr (p.mbFbInfo + 8)) + m.loadU32 (p.mbFbInfo + 16) * m.loadU32 (p.mbFbInfo + 24) ≤ 2 ^ 64) :
    fb.Geometry (m.loadU32 (p.mbFbInfo + 20)) (m.loadU32 (p.mbFbInfo + 24)) (m.loadU32 (p.mbFbInfo + 16)) := by
  unfold fbInit at hinit
  by_cases htag : p.mbFbInfo ≠ 0 ∧ m (p.mbFbInfo + 29) = 1 ∧ m (p.mbFbInfo + 28) = 32
  · rw [kassert_of_true htag, show Except.mapError Fault.panic (.ok ()) = .ok () from rfl, Fault.ok_bind] at hinit
    obtain rfl := Except.ok.inj hinit
    have hwidth' : m.loadU32 (p.mbFbInfo + 20) < 2 ^ 31 := by omega
    refine ⟨rfl, ?_, ?_, ?_, hheight, hpitch, hwidth, hfits⟩ <;> dsimp only
    · exact wrapInt_natCast hwidth'
    · exact wrapInt_natCast hheight
    · exact wrapInt_natCast hpitch
  · rw [kassert, if_neg htag] at hinit
    cases hinit

section Pixels

variable {fb : Fb} {w h p : ℕ} (hfb : fb.Geometry w h p) {r : Region}
  (hr : r.lo ≤ fb.addr ∧ fb.addr + p * h ≤ r.hi) {m : Mem}

include hfb

theorem Fb.Geometry.assertInitialized : fb.assertInitialized = .ok () := by
  rw [Fb.assertInitialized, kassert_of_true hfb.initialized]
  rfl

/-- A row of the screen ends inside of the framebuffer. -/
theorem Fb.Geometry.row_le {y : ℕ} (hy : y < h) : fb.addr + y * p + 4 * w ≤ fb.addr + p * h := by
  have hmul := Nat.mul_le_mul_right p (Nat.succ_le_of_lt hy)
  rw [Nat.succ_mul, Nat.mul_comm h] at hmul
  have := hfb.rows
  omega

/-- Without an overflow the address is that of the pixel. -/
theorem Fb.Geometry.pixelAddr {x y : ℕ} (hx : x < w) (hy : y < h) (hfit : y * p < 2 ^ 31) :
    fb.pixelAddr x y = fb.addr + y * p + 4 * x := by
  have hrow := hfb.row_le hy
  have hfits := hfb.fits
  have hrows := hfb.rows
  have hpitch := hfb.pitch_lt
  rw [Fb.pixelAddr, hfb.pitch, ← Int.natCast_mul, wrapInt_natCast hfit, toSize_natCast (by omega), toSize_natCast (by omega),
    Nat.mod_eq_of_lt (by omega)]

include hr in
/-- A row of colours on the screen. -/
theorem Fb.Geometry.storeColors {x y n : ℕ} (hn : x + n ≤ w) (hpos : 0 < n) (hy : y < h) (hfit : y * p < 2 ^ 31)
    (f : ℕ → BitVec 32) :
    Lib.storeColors r m (fb.pixelAddr x y) f n = .ok (m.store32s (fb.addr + y * p + 4 * x) f n) := by
  have hrow := hfb.row_le hy
  have hfits := hfb.fits
  rw [hfb.pixelAddr (by omega) hy hfit]
  exact storeColors_spec ⟨by omega, by omega⟩ (by omega)

/-- What a row of colours changes on the screen. -/
theorem Fb.Geometry.pixel_store32s {x y n : ℕ} (hn : x + n ≤ w) (f : ℕ → BitVec 32) {px py : ℕ} (hpx : px < w) :
    fb.pixel (m.store32s (fb.addr + y * p + 4 * x) f n) px py =
      if py = y ∧ x ≤ px ∧ px < x + n then f (px - x) else fb.pixel m px py := by
  have hrows := hfb.rows
  have hp : fb.pitch.toNat = p := by rw [hfb.pitch, Int.toNat_natCast]
  unfold Fb.pixel
  rw [hp]
  split_ifs with hin
  · obtain ⟨rfl, hlo, hhi⟩ := hin
    rw [show fb.addr + py * p + 4 * px = fb.addr + py * p + 4 * x + 4 * (px - x) by omega]
    exact Mem.load32_store32s m f (by omega)
  · apply Mem.load32_store32s_of_disjoint
    rcases Nat.lt_trichotomy py y with hlt | rfl | hgt
    · have hmul := Nat.mul_le_mul_right p (Nat.succ_le_of_lt hlt)
      rw [Nat.succ_mul] at hmul
      omega
    · omega
    · have hmul := Nat.mul_le_mul_right p (Nat.succ_le_of_lt hgt)
      rw [Nat.succ_mul] at hmul
      omega

include hr

/-- A glyph on the screen. -/
theorem fbDrawGlyph_spec {x y : ℕ} (hx : x + 8 ≤ w) (hy : y + 8 ≤ h) (hfit : (y + 7) * p < 2 ^ 31) (glyph : List ℕ)
    (fgColor bgColor : BitVec 32) :
    ∃ m', fbDrawGlyph r fb m glyph x y fgColor bgColor = .ok m' ∧
      ∀ px < w, ∀ py, fb.pixel m' px py =
        if (x ≤ px ∧ px < x + 8) ∧ y ≤ py ∧ py < y + 8 then
          if pixelSet glyph (py - y) (px - x) then fgColor else bgColor
        else fb.pixel m px py := by
  have hheight := hfb.height_lt
  rw [fbDrawGlyph, hfb.assertInitialized, Fault.ok_bind]
  refine forLoop_ok (fun i m' => ∀ px < w, ∀ py, fb.pixel m' px py =
      if (x ≤ px ∧ px < x + 8) ∧ y ≤ py ∧ py < y + i then
        if pixelSet glyph (py - y) (px - x) then fgColor else bgColor
      else fb.pixel m px py) (fun px _ py => ?_) fun i hi m' hinv => ?_
  · rw [if_neg (by omega)]
  · have hrow : (y + i) * p < 2 ^ 31 := lt_of_le_of_lt (Nat.mul_le_mul_right p (by omega)) hfit
    have hcall := @Fb.Geometry.storeColors fb w h p hfb r hr m' x (y + i) 8 hx (by decide) (by omega) hrow
      (fun c => if pixelSet glyph i c then fgColor else bgColor)
    have haddr : wrapInt (y + i) = (y + i : ℕ) := by
      rw [← Int.natCast_add, wrapInt_natCast (by omega)]
    rw [← haddr] at hcall
    refine ⟨_, hcall, fun px hpx py => ?_⟩
    rw [hfb.pixel_store32s hx _ hpx, hinv px hpx py]
    by_cases hnew : py = y + i
    · subst hnew
      by_cases hcol : x ≤ px ∧ px < x + 8
      · rw [if_pos (show y + i = y + i ∧ x ≤ px ∧ px < x + 8 from ⟨rfl, hcol⟩),
          if_pos (show (x ≤ px ∧ px < x + 8) ∧ y ≤ y + i ∧ y + i < y + (i + 1) from ⟨hcol, by omega⟩),
          Nat.add_sub_cancel_left]
      · rw [if_neg (fun h => hcol h.2), if_neg (fun h => hcol h.1), if_neg (fun h => hcol h.1)]
    · have hrange : py < y + i ↔ py < y + (i + 1) := (Nat.lt_succ_iff_lt_or_eq.trans (or_iff_left hnew)).symm
      rw [if_neg (fun h => hnew h.1)]
      simp only [hrange]

/-- A full row of one colour. -/
theorem fbPutRectFragment_row {y : ℕ} (hy : y < h) (hw : 0 < w) (hfit : y * p < 2 ^ 31) (color : BitVec 32) :
    fbPutRectFragment r fb m color 0 y fb.width = .ok (m.store32s (fb.addr + y * p) (fun _ => color) w) := by
  have hrows := hfb.rows
  have hpitch := hfb.pitch_lt
  have hclip : fb.clipWidth 0 fb.width = w := by
    rw [Fb.clipWidth, hfb.width, zero_add, wrapInt_natCast (by omega), if_neg (lt_irrefl _)]
  rw [fbPutRectFragment, if_neg (by rw [hfb.height]; omega), hclip, Int.toNat_natCast]
  exact hfb.storeColors hr (x := 0) (by omega) hw hy hfit _

/-- The copy in `fb_scroll_up`. -/
theorem memmove_scroll (hh : 8 ≤ h) (hw : 0 < w) (hfit : (h - 1) * p < 2 ^ 31) :
    memmove r m fb.addr ((fb.addr + toSize (wrapInt (fb.pitch * 8))) % 2 ^ 64)
        (toSize (wrapInt (fb.pitch * wrapInt (fb.height - 8)))) =
      .ok (m.move fb.addr (fb.addr + 8 * p) ((h - 8) * p), false) := by
  have hheight := hfb.height_lt
  have hfits := hfb.fits
  have hrest : (h - 8) * p ≤ (h - 1) * p := Nat.mul_le_mul_right p (by omega)
  have hn : toSize (wrapInt (fb.pitch * wrapInt (fb.height - 8))) = (h - 8) * p := by
    rw [hfb.pitch, hfb.height, show ((h : ℤ) - 8) = (h - 8 : ℕ) by omega, wrapInt_natCast (by omega), ← Int.natCast_mul,
      wrapInt_natCast (by rw [Nat.mul_comm]; omega), toSize_natCast (by rw [Nat.mul_comm]; omega), Nat.mul_comm]
  rw [hn]
  by_cases hmore : h = 8
  · rw [hmore, Nat.sub_self, Nat.zero_mul, memmove_zero, Mem.move_zero]
  · have hsum : (h - 8) * p + 8 * p = p * h := by
      rw [← Nat.add_mul, Nat.sub_add_cancel hh, Nat.mul_comm]
    have height : 8 * p ≤ (h - 1) * p := Nat.mul_le_mul_right p (by omega)
    have hsrc : toSize (wrapInt (fb.pitch * 8)) = 8 * p := by
      rw [hfb.pitch, show (p : ℤ) * 8 = (8 * p : ℕ) by omega, wrapInt_natCast (by omega), toSize_natCast (by omega)]
    have hsrc' : r.Has (fb.addr + 8 * p) ((h - 8) * p) := by
      unfold Region.Has
      omega
    have hdst : r.Has fb.addr ((h - 8) * p) := by
      unfold Region.Has
      omega
    have hnine : p * 9 ≤ p * h := Nat.mul_le_mul_left p (by omega)
    have hrows := hfb.rows
    rw [hsrc, Nat.mod_eq_of_lt (by omega)]
    exact memmove_eq m hsrc' hdst (by omega) (by omega)

/-- The screen is moved up by eight rows. -/
theorem fbScrollUp_spec (hh : 8 ≤ h) (hw : 0 < w) (hfit : (h - 1) * p < 2 ^ 31) (color : BitVec 32) :
    ∃ m', fbScrollUp r fb m 8 color = .ok m' ∧
      ∀ px < w, ∀ py < h, fb.pixel m' px py = if py + 8 < h then fb.pixel m px (py + 8) else color := by
  have hheight := hfb.height_lt
  have hrows := hfb.rows
  have hp : fb.pitch.toNat = p := by rw [hfb.pitch, Int.toNat_natCast]
  -- what the copy leaves on the screen
  have hmoved {px py : ℕ} (hpx : px < w) (hpy : py + 8 < h) :
      fb.pixel (m.move fb.addr (fb.addr + 8 * p) ((h - 8) * p)) px py = fb.pixel m px (py + 8) := by
    have hmul := Nat.mul_le_mul_right p (show py + 1 ≤ h - 8 by omega)
    rw [Nat.succ_mul] at hmul
    unfold Fb.pixel
    rw [hp, Nat.add_mul]
    refine Mem.load32_congr fun k hk => ?_
    rw [Mem.move, if_pos (by omega)]
    exact congrArg m (by omega)
  have hfirst : wrapInt (fb.height - 8) = (h - 8 : ℕ) := by
    rw [hfb.height, show ((h : ℤ) - 8) = (h - 8 : ℕ) by omega, wrapInt_natCast (by omega)]
  rw [fbScrollUp, hfb.assertInitialized, Fault.ok_bind]
  simp only [memmove_scroll hfb hr hh hw hfit, Fault.ok_bind]
  rw [hfirst, hfb.height, show ((h : ℤ) - (h - 8 : ℕ)).toNat = 8 by omega]
  obtain ⟨m', hloop, hinv⟩ := @forLoop_ok _ (fun i m => fbPutRectFragment r fb m color 0 ((h - 8 : ℕ) + i) fb.width) _ 8
    (fun i m' => (∀ px < w, ∀ py, py + 8 < h → fb.pixel m' px py = fb.pixel m px (py + 8)) ∧
      ∀ px < w, ∀ py, h ≤ py + 8 → py + 8 < h + i → fb.pixel m' px py = color)
    ⟨fun px hpx py hpy => hmoved hpx hpy, fun px _ py hlo hhi => absurd hhi (by omega)⟩ fun i hi m' hinv => by
      have hrow : (h - 8 + i) * p < 2 ^ 31 := lt_of_le_of_lt (Nat.mul_le_mul_right p (by omega)) hfit
      have hcall := @fbPutRectFragment_row fb w h p hfb r hr m' (h - 8 + i) (by omega) hw hrow color
      refine ⟨_, by rwa [← Int.natCast_add], fun px hpx py hpy => ?_, fun px hpx py hlo hhi => ?_⟩
      · rw [← Nat.add_zero (fb.addr + _), ← Nat.mul_zero 4, hfb.pixel_store32s (by omega) _ hpx, if_neg (by omega)]
        exact hinv.1 px hpx py hpy
      · rw [← Nat.add_zero (fb.addr + _), ← Nat.mul_zero 4, hfb.pixel_store32s (by omega) _ hpx]
        split_ifs with hlast
        · rfl
        · exact hinv.2 px hpx py hlo (by omega)
  refine ⟨m', hloop, fun px hpx py hpy => ?_⟩
  split_ifs with hup
  · exact hinv.1 px hpx py hup
  · exact hinv.2 px hpx py (by omega) (by omega)

end Pixels

end HeavenOS
