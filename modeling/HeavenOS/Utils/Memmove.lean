/-
# Moving memory

The function `memmove` of `common.h`. It copies with the string instructions of the processor,
quadword by quadword if everything is aligned and byte by byte otherwise, and backwards if the
destination begins inside of the source.
-/

import HeavenOS.Common
import HeavenOS.Lib.Raster

namespace HeavenOS

open Lib

/-- `movsb` or `movsq`: one element of `size` bytes. -/
def movs (r : Region) (size : ℕ) (m : Mem) (dst src : ℕ) : Except Fault Mem :=
  if r.Has src size ∧ r.Has dst size then .ok (m.move dst src size) else .error .outOfBounds

/-- A pointer after `i` elements, downwards if the direction flag is set. -/
def movsPtr (df : Bool) (size p i : ℕ) : ℕ := if df then subU64 p (size * i) else (p + size * i) % 2 ^ 64

/-- `rep movsb` or `rep movsq` -/
def repMovs (r : Region) (size : ℕ) (df : Bool) (m : Mem) (dst src count : ℕ) : Except Fault Mem :=
  forLoop (fun i m => movs r size m (movsPtr df size dst i) (movsPtr df size src i)) m count

/-- `!(((intptr_t)s & 7) | ((intptr_t)d & 7) | (n & 7))` -/
def WordAligned (s d n : ℕ) : Prop := s &&& 7 ||| d &&& 7 ||| n &&& 7 = 0

instance (s d n : ℕ) : Decidable (WordAligned s d n) := inferInstanceAs (Decidable (_ = _))

/-- `memmove`: the memory, and the direction flag. -/
def memmove (r : Region) (m : Mem) (dst src n : ℕ) : Except Fault (Mem × Bool) :=
  if src < dst ∧ dst < (src + n) % 2 ^ 64 then do
    let s := (src + n) % 2 ^ 64
    let d := (dst + n) % 2 ^ 64
    let m ←
      if WordAligned s d n then repMovs r 8 true m (subU64 d 8) (subU64 s 8) (n / 8)
      else repMovs r 1 true m (subU64 d 1) (subU64 s 1) n
    -- `cld`
    return (m, false)
  else do
    let m ←
      if WordAligned src dst n then repMovs r 8 false m dst src (n / 8)
      else repMovs r 1 false m dst src n
    -- the flag was cleared before the copy
    return (m, false)

theorem WordAligned.dvd {s d n : ℕ} (h : WordAligned s d n) : 8 ∣ n := by
  have hlast : n &&& 2 ^ 3 - 1 = 0 := (Nat.or_eq_zero_iff.mp h).2
  rw [Nat.and_two_pow_sub_one_eq_mod] at hlast
  exact Nat.dvd_of_mod_eq_zero hlast

/-- Upwards the elements copy the whole block, if the destination does not begin inside of the
source. -/
theorem repMovs_upwards {r : Region} {size count dst src : ℕ} (m : Mem) (hsrc : r.Has src (size * count))
    (hdst : r.Has dst (size * count)) (hsrc' : src + size * count ≤ 2 ^ 64) (hdst' : dst + size * count ≤ 2 ^ 64)
    (hdir : dst ≤ src ∨ src + size * count ≤ dst) (hsize : 0 < size) :
    repMovs r size false m dst src count = .ok (m.move dst src (size * count)) := by
  refine forLoop_eq (fun i => m.move dst src (size * i)) (by simp) fun i hi => ?_
  · have hlast : size * i + size ≤ size * count := by
      rw [← Nat.mul_succ]
      exact Nat.mul_le_mul_left size hi
    unfold Region.Has at *
    simp only [movsPtr, Bool.false_eq_true, if_false]
    rw [Nat.mod_eq_of_lt (by omega), Nat.mod_eq_of_lt (by omega), movs, if_pos (by unfold Region.Has; omega)]
    congr 1
    funext x
    simp only [Mem.move, Nat.mul_succ]
    by_cases hnew : dst + size * i ≤ x ∧ x < dst + size * i + size
    · -- the element is read where nothing has been written yet
      rw [if_pos hnew, if_neg (by omega), if_pos (by omega)]
      exact congrArg m (by omega)
    · rw [if_neg hnew]
      exact if_congr (by omega) rfl rfl

/-- The place `k` bytes before the end of a block, where the end may be the end of memory. -/
theorem subU64_end {p n k : ℕ} (hpos : 0 < k) (hle : k ≤ p + n) (hwrap : p + n ≤ 2 ^ 64) :
    subU64 ((p + n) % 2 ^ 64) k = p + n - k := by
  unfold subU64
  omega

/-- Downwards the elements copy the whole block, if the source does not begin behind the
destination. -/
theorem repMovs_downwards {r : Region} {size count dst src : ℕ} (m : Mem) (hsrc : r.Has src (size * count))
    (hdst : r.Has dst (size * count)) (hsrc' : src + size * count ≤ 2 ^ 64) (hdst' : dst + size * count ≤ 2 ^ 64)
    (hdir : src ≤ dst) (hsize : 0 < size) :
    repMovs r size true m (subU64 ((dst + size * count) % 2 ^ 64) size) (subU64 ((src + size * count) % 2 ^ 64) size) count =
      .ok (m.move dst src (size * count)) := by
  -- after `i` elements the last `size * i` bytes are in place
  have hloop : repMovs r size true m (subU64 ((dst + size * count) % 2 ^ 64) size)
      (subU64 ((src + size * count) % 2 ^ 64) size) count =
        .ok (m.move (dst + (size * count - size * count)) (src + (size * count - size * count)) (size * count)) := by
    refine forLoop_eq (fun i => m.move (dst + (size * count - size * i)) (src + (size * count - size * i)) (size * i))
      (by simp) fun i hi => ?_
    have hlast : size * i + size ≤ size * count := by
      rw [← Nat.mul_succ]
      exact Nat.mul_le_mul_left size hi
    have hptr {p : ℕ} (hp : p + size * count ≤ 2 ^ 64) :
        movsPtr true size (subU64 ((p + size * count) % 2 ^ 64) size) i = p + size * count - size - size * i := by
      rw [movsPtr, if_pos rfl, subU64_end hsize (by omega) hp, subU64_of_le (by omega) (by omega)]
    unfold Region.Has at *
    rw [hptr hsrc', hptr hdst', movs, if_pos (by unfold Region.Has; omega)]
    congr 1
    funext x
    simp only [Mem.move, Nat.mul_succ]
    by_cases hnew : dst + size * count - size - size * i ≤ x ∧ x < dst + size * count - size - size * i + size
    · -- the element is read where nothing has been written yet
      rw [if_pos hnew, if_neg (by omega), if_pos (by omega)]
      exact congrArg m (by omega)
    · rw [if_neg hnew]
      by_cases hold : dst + (size * count - size * i) ≤ x ∧ x < dst + (size * count - size * i) + size * i
      · rw [if_pos hold, if_pos (by omega)]
        exact congrArg m (by omega)
      · rw [if_neg hold, if_neg (by omega)]
  rwa [Nat.sub_self, Nat.add_zero, Nat.add_zero] at hloop

section Paths

variable {r : Region} {dst src n : ℕ} (m : Mem) (hsrc : r.Has src n) (hdst : r.Has dst n) (hsrc' : src + n ≤ 2 ^ 64)
  (hdst' : dst + n ≤ 2 ^ 64)

include hsrc hdst hsrc' hdst'

/-- The two ways upwards. -/
theorem upwards_paths (hdir : dst ≤ src ∨ src + n ≤ dst) :
    (8 ∣ n → repMovs r 8 false m dst src (n / 8) = .ok (m.move dst src n)) ∧
      repMovs r 1 false m dst src n = .ok (m.move dst src n) := by
  constructor
  · rintro ⟨count, rfl⟩
    rw [Nat.mul_div_cancel_left count (by decide)]
    exact repMovs_upwards m hsrc hdst hsrc' hdst' hdir (by decide)
  · have hbytes := @repMovs_upwards r 1 n dst src m
    rw [Nat.one_mul] at hbytes
    exact hbytes hsrc hdst hsrc' hdst' hdir (by decide)

/-- The two ways downwards. -/
theorem downwards_paths (hdir : src ≤ dst) :
    (8 ∣ n → repMovs r 8 true m (subU64 ((dst + n) % 2 ^ 64) 8) (subU64 ((src + n) % 2 ^ 64) 8) (n / 8) =
        .ok (m.move dst src n)) ∧
      repMovs r 1 true m (subU64 ((dst + n) % 2 ^ 64) 1) (subU64 ((src + n) % 2 ^ 64) 1) n = .ok (m.move dst src n) := by
  constructor
  · rintro ⟨count, rfl⟩
    rw [Nat.mul_div_cancel_left count (by decide)]
    exact repMovs_downwards m hsrc hdst hsrc' hdst' hdir (by decide)
  · have hbytes := @repMovs_downwards r 1 n dst src m
    rw [Nat.one_mul] at hbytes
    exact hbytes hsrc hdst hsrc' hdst' hdir (by decide)

/-- `memmove` copies the whole block, whichever way the ranges overlap. -/
theorem memmove_eq : memmove r m dst src n = .ok (m.move dst src n, false) := by
  by_cases hover : src < dst ∧ dst < (src + n) % 2 ^ 64
  · obtain ⟨hwords, hbytes⟩ := downwards_paths m hsrc hdst hsrc' hdst' (Nat.le_of_lt hover.1)
    rw [memmove, if_pos hover]
    simp only
    split_ifs with haligned
    · rw [hwords haligned.dvd]
      rfl
    · rw [hbytes]
      rfl
  · -- the end of the source wraps to zero only where the destination does not begin behind the source
    have hdir : dst ≤ src ∨ src + n ≤ dst := by omega
    obtain ⟨hwords, hbytes⟩ := upwards_paths m hsrc hdst hsrc' hdst' hdir
    rw [memmove, if_neg hover]
    split_ifs with haligned
    · rw [hwords haligned.dvd]
      rfl
    · rw [hbytes]
      rfl

end Paths

/-- Nothing to copy. -/
theorem memmove_zero (r : Region) (m : Mem) (dst src : ℕ) : memmove r m dst src 0 = .ok (m, false) := by
  have hnone (size : ℕ) : repMovs r size false m dst src 0 = .ok m := rfl
  rw [memmove, if_neg (by omega), Nat.zero_div, hnone, hnone, ite_self]
  rfl

/-! ## Copies at once -/

/-- A block has been copied as if all of it were read before anything is written. -/
structure CopiedAtOnce (dst src n : ℕ) (m m' : Mem) : Prop where
  copied : ∀ i < n, m' (dst + i) = m (src + i)
  outside : ∀ x, x < dst ∨ dst + n ≤ x → m' x = m x

theorem copiedAtOnce_move (dst src n : ℕ) (m : Mem) : CopiedAtOnce dst src n m (m.move dst src n) where
  copied i hi := by
    rw [Mem.move, if_pos (by omega), Nat.add_sub_cancel_left]
  outside x hx := by
    rw [Mem.move, if_neg (by omega)]

/-- `memmove` copies all bytes at once, and leaves the direction flag clear. The quadwords are
moved like the bytes, upwards and downwards. -/
theorem memmove_copies_at_once {r : Region} {dst src n : ℕ} (m : Mem) (hsrc : r.Has src n) (hdst : r.Has dst n)
    (hsrc' : src + n ≤ 2 ^ 64) (hdst' : dst + n ≤ 2 ^ 64) :
    (∃ m', memmove r m dst src n = .ok (m', false) ∧ CopiedAtOnce dst src n m m') ∧
      (dst ≤ src ∨ src + n ≤ dst → WordAligned src dst n →
        repMovs r 8 false m dst src (n / 8) = repMovs r 1 false m dst src n) ∧
      (src < dst ∧ dst < src + n → WordAligned ((src + n) % 2 ^ 64) ((dst + n) % 2 ^ 64) n →
        repMovs r 8 true m (subU64 ((dst + n) % 2 ^ 64) 8) (subU64 ((src + n) % 2 ^ 64) 8) (n / 8) =
          repMovs r 1 true m (subU64 ((dst + n) % 2 ^ 64) 1) (subU64 ((src + n) % 2 ^ 64) 1) n) := by
  refine ⟨⟨_, memmove_eq m hsrc hdst hsrc' hdst', copiedAtOnce_move dst src n m⟩, fun hdir haligned => ?_,
    fun hdir haligned => ?_⟩
  · obtain ⟨hwords, hbytes⟩ := upwards_paths m hsrc hdst hsrc' hdst' hdir
    rw [hwords haligned.dvd, hbytes]
  · obtain ⟨hwords, hbytes⟩ := downwards_paths m hsrc hdst hsrc' hdst' (Nat.le_of_lt hdir.1)
    rw [hwords haligned.dvd, hbytes]

/-- Sixteen bytes that overlap in eight, moved downwards in quadwords. -/
theorem memmove_copies_at_once_overlap :
    ∃ m', memmove Region.whole (fun a => BitVec.ofNat 8 a) 8 0 16 = .ok (m', false) ∧ m' 8 = 0 ∧ m' 23 = 15 ∧ m' 24 = 24 := by
  obtain ⟨⟨m', hmove, hcopied⟩, -⟩ := @memmove_copies_at_once Region.whole 8 0 16 (fun a => BitVec.ofNat 8 a) (by decide)
    (by decide) (by decide) (by decide)
  exact ⟨m', hmove, hcopied.copied 0 (by decide), hcopied.copied 15 (by decide), hcopied.outside 24 (by decide)⟩

end HeavenOS
