/-
# Byte-addressed memory

A memory is a total map from addresses to bytes. Words are little-endian and
eight bytes wide, and pointers are words read as numbers. The module knows no
program: it gives loads and stores their read-after-write laws, and the two
library loops `memset` and `memcpy` the block fill and the block copy they
amount to.

Addresses are natural numbers. A client whose addresses wrap keeps the reduction
modulo the address space on its own side.
-/

import Mathlib.Data.BitVec
import Mathlib.Data.Set.Function

namespace HeavenOS.Lib

/-- A byte for every address. -/
abbrev Mem := ℕ → BitVec 8

namespace Mem

/-- Replace one byte. -/
def storeByte (m : Mem) (a : ℕ) (b : BitVec 8) : Mem :=
  fun x => if x = a then b else m x

/-- The little-endian word at `a`. -/
def loadWord (m : Mem) (a : ℕ) : BitVec 64 :=
  m (a + 7) ++ m (a + 6) ++ m (a + 5) ++ m (a + 4) ++
    m (a + 3) ++ m (a + 2) ++ m (a + 1) ++ m a

/-- The little-endian number of four bytes at `a`. -/
def loadU32 (m : Mem) (a : ℕ) : ℕ := (m (a + 3) ++ m (a + 2) ++ m (a + 1) ++ m a).toNat

/-- Write the little-endian word `w` at `a`. -/
def storeWord (m : Mem) (a : ℕ) (w : BitVec 64) : Mem :=
  fun x => if a ≤ x ∧ x < a + 8 then w.extractLsb' (8 * (x - a)) 8 else m x

/-- Write the little-endian number `w` of two bytes at `a`. -/
def storeU16 (m : Mem) (a : ℕ) (w : BitVec 16) : Mem :=
  fun x => if a ≤ x ∧ x < a + 2 then w.extractLsb' (8 * (x - a)) 8 else m x

/-- The pointer stored at `a`. -/
def loadPtr (m : Mem) (a : ℕ) : ℕ := (m.loadWord a).toNat

/-- Store the pointer `p` at `a`. -/
def storePtr (m : Mem) (a p : ℕ) : Mem := m.storeWord a (BitVec.ofNat 64 p)

/-- The memory with these words at the multiples of eight. -/
def ofWords (f : ℕ → BitVec 64) : Mem := fun a => (f (a / 8)).extractLsb' (8 * (a % 8)) 8

/-- The memory with these bytes from `base` on, and zeros elsewhere. -/
def ofBytes (base : ℕ) (bytes : List ℕ) : Mem :=
  fun a => if a < base then 0 else BitVec.ofNat 8 (bytes.getD (a - base) 0)

/-- The library loop that compares two ranges byte by byte: zero, or the order of the first
two bytes that differ. -/
def memcmp (m : Mem) (s1 s2 : ℕ) : ℕ → ℤ
  | 0 => 0
  | count + 1 => if m s1 ≠ m s2 then (if m s1 < m s2 then -1 else 1) else memcmp m (s1 + 1) (s2 + 1) count

/-- The library loop that writes one byte value over a range, after its first `sz`
iterations. -/
def memset (m : Mem) (p : ℕ) (ch : BitVec 8) : ℕ → Mem
  | 0 => m
  | sz + 1 => (memset m p ch sz).storeByte (p + sz) ch

/-- The library loop that copies a range forwards, one byte at a time, after its first
`sz` iterations. -/
def memcpy (m : Mem) (dst src : ℕ) : ℕ → Mem
  | 0 => m
  | sz + 1 => (memcpy m dst src sz).storeByte (dst + sz) (memcpy m dst src sz (src + sz))

/-! ## Reads after writes -/

@[simp]
theorem storeByte_self (m : Mem) (a : ℕ) (b : BitVec 8) : m.storeByte a b a = b := by
  simp [storeByte]

theorem storeByte_of_ne (m : Mem) {a x : ℕ} (b : BitVec 8) (hne : x ≠ a) :
    m.storeByte a b x = m x := by
  simp [storeByte, hne]

/-- A word store leaves every byte outside its eight alone. -/
theorem storeWord_of_outside (m : Mem) {a x : ℕ} (w : BitVec 64)
    (hout : x < a ∨ a + 8 ≤ x) : m.storeWord a w x = m x := by
  have hnot : ¬ (a ≤ x ∧ x < a + 8) := by omega
  simp [storeWord, hnot]

theorem storeU16_of_outside (m : Mem) {a x : ℕ} (w : BitVec 16)
    (hout : x < a ∨ a + 2 ≤ x) : m.storeU16 a w x = m x := by
  have hnot : ¬ (a ≤ x ∧ x < a + 2) := by omega
  simp [storeU16, hnot]

/-- The word at `a` depends on its eight bytes only. -/
theorem loadWord_congr {m m' : Mem} {a : ℕ}
    (hsame : ∀ x, a ≤ x → x < a + 8 → m' x = m x) :
    m'.loadWord a = m.loadWord a := by
  unfold loadWord
  rw [hsame (a + 7) (by omega) (by omega), hsame (a + 6) (by omega) (by omega),
    hsame (a + 5) (by omega) (by omega), hsame (a + 4) (by omega) (by omega),
    hsame (a + 3) (by omega) (by omega), hsame (a + 2) (by omega) (by omega),
    hsame (a + 1) (by omega) (by omega), hsame a (by omega) (by omega)]

@[simp]
theorem loadWord_storeWord_self (m : Mem) (a : ℕ) (w : BitVec 64) :
    (m.storeWord a w).loadWord a = w := by
  have hbyte : ∀ i < 8, m.storeWord a w (a + i) = w.extractLsb' (8 * i) 8 := by
    intro i hi
    have hin : a ≤ a + i ∧ a + i < a + 8 := by omega
    simp [storeWord, hin]
  have hfirst : m.storeWord a w a = w.extractLsb' 0 8 := hbyte 0 (by decide)
  unfold loadWord
  rw [hbyte 7 (by decide), hbyte 6 (by decide), hbyte 5 (by decide), hbyte 4 (by decide),
    hbyte 3 (by decide), hbyte 2 (by decide), hbyte 1 (by decide), hfirst]
  -- glue the eight bytes back together from the most significant end
  iterate 7 rw [BitVec.extractLsb'_append_extractLsb'_eq_extractLsb' (by rfl)]
  exact BitVec.extractLsb'_eq_self

@[simp]
theorem loadWord_ofWords (f : ℕ → BitVec 64) (i : ℕ) : (ofWords f).loadWord (8 * i) = f i := by
  have hbyte : ∀ j < 8, ofWords f (8 * i + j) = (f i).extractLsb' (8 * j) 8 := by
    intro j hj
    rw [ofWords, show (8 * i + j) / 8 = i by omega, show (8 * i + j) % 8 = j by omega]
  have hstore := loadWord_storeWord_self (ofWords f) (8 * i) (f i)
  rw [← hstore]
  refine loadWord_congr fun x hlo hhi => ?_
  obtain ⟨j, rfl⟩ := Nat.exists_eq_add_of_le hlo
  rw [hbyte j (by omega), storeWord, if_pos (by omega), Nat.add_sub_cancel_left]

theorem loadWord_storeWord_of_disjoint (m : Mem) {a b : ℕ} (w : BitVec 64)
    (hdis : a + 8 ≤ b ∨ b + 8 ≤ a) : (m.storeWord a w).loadWord b = m.loadWord b :=
  loadWord_congr fun _ _ _ => storeWord_of_outside m w (by omega)

theorem loadPtr_lt (m : Mem) (a : ℕ) : m.loadPtr a < 2 ^ 64 := (m.loadWord a).isLt

theorem loadU32_lt (m : Mem) (a : ℕ) : m.loadU32 a < 2 ^ 32 :=
  (m (a + 3) ++ m (a + 2) ++ m (a + 1) ++ m a).isLt

theorem loadPtr_congr {m m' : Mem} {a : ℕ}
    (hsame : ∀ x, a ≤ x → x < a + 8 → m' x = m x) : m'.loadPtr a = m.loadPtr a := by
  rw [loadPtr, loadPtr, loadWord_congr hsame]

theorem loadPtr_storePtr_self (m : Mem) (a : ℕ) {p : ℕ} (hp : p < 2 ^ 64) :
    (m.storePtr a p).loadPtr a = p := by
  rw [loadPtr, storePtr, loadWord_storeWord_self, BitVec.toNat_ofNat, Nat.mod_eq_of_lt hp]

theorem loadPtr_storePtr_of_disjoint (m : Mem) {a b : ℕ} (p : ℕ)
    (hdis : a + 8 ≤ b ∨ b + 8 ≤ a) : (m.storePtr a p).loadPtr b = m.loadPtr b := by
  simp only [loadPtr, storePtr, loadWord_storeWord_of_disjoint m _ hdis]

theorem storePtr_of_outside (m : Mem) {a x : ℕ} (p : ℕ) (hout : x < a ∨ a + 8 ≤ x) :
    m.storePtr a p x = m x :=
  storeWord_of_outside m _ hout

/-! ## The library loops -/

/-- `memcmp` finds no difference exactly if there is none. -/
theorem memcmp_eq_zero_iff (m : Mem) (s1 s2 count : ℕ) :
    m.memcmp s1 s2 count = 0 ↔ ∀ i < count, m (s1 + i) = m (s2 + i) := by
  induction count generalizing s1 s2 with
  | zero => simp [memcmp]
  | succ count ih =>
      rw [memcmp, Nat.forall_lt_succ_left']
      by_cases hfirst : m s1 = m s2
      · rw [if_neg (not_not.mpr hfirst), ih]
        simp [hfirst, Nat.add_comm, Nat.add_left_comm]
      · rw [if_pos hfirst]
        have hne : (if m s1 < m s2 then (-1 : ℤ) else 1) ≠ 0 := by split_ifs <;> decide
        simp [hne, hfirst]

/-- `memset` is the block fill. -/
theorem memset_apply (m : Mem) (p : ℕ) (ch : BitVec 8) (sz x : ℕ) :
    m.memset p ch sz x = if p ≤ x ∧ x < p + sz then ch else m x := by
  induction sz with
  | zero =>
      have hnot : ¬ (p ≤ x ∧ x < p + 0) := by omega
      rw [memset, if_neg hnot]
  | succ sz ih =>
      rw [memset]
      by_cases hx : x = p + sz
      · subst hx
        rw [storeByte_self, if_pos (by omega)]
      · rw [storeByte_of_ne _ ch hx, ih]
        exact if_congr (by omega) rfl rfl

theorem memset_of_outside (m : Mem) {p x : ℕ} (ch : BitVec 8) {sz : ℕ}
    (hout : x < p ∨ p + sz ≤ x) : m.memset p ch sz x = m x := by
  rw [memset_apply, if_neg (by omega)]

/-- `memcpy` is the block copy as long as the two ranges do not meet. -/
theorem memcpy_apply (m : Mem) {dst src sz : ℕ} (hdis : dst + sz ≤ src ∨ src + sz ≤ dst)
    (x : ℕ) :
    m.memcpy dst src sz x = if dst ≤ x ∧ x < dst + sz then m (src + (x - dst)) else m x := by
  induction sz generalizing x with
  | zero =>
      have hnot : ¬ (dst ≤ x ∧ x < dst + 0) := by omega
      rw [memcpy, if_neg hnot]
  | succ sz ih =>
      rw [memcpy]
      by_cases hx : x = dst + sz
      · subst hx
        -- the byte still to be read is outside of what was written
        rw [storeByte_self, ih (by omega), if_neg (by omega), if_pos (by omega),
          Nat.add_sub_cancel_left]
      · rw [storeByte_of_ne _ _ hx, ih (by omega)]
        exact if_congr (by omega) rfl rfl

theorem memcpy_of_outside (m : Mem) {dst src sz x : ℕ}
    (hdis : dst + sz ≤ src ∨ src + sz ≤ dst) (hout : x < dst ∨ dst + sz ≤ x) :
    m.memcpy dst src sz x = m x := by
  rw [memcpy_apply m hdis, if_neg (by omega)]

/-- A word inside a range filled with zeros reads as zero. -/
theorem loadWord_memset_zero (m : Mem) {p a sz : ℕ} (hlo : p ≤ a) (hhi : a + 8 ≤ p + sz) :
    (m.memset p 0 sz).loadWord a = 0 := by
  have hzero : (m.memset p 0 sz).loadWord a = loadWord (fun _ => 0) a :=
    loadWord_congr fun x _ _ => by rw [memset_apply, if_pos (by omega)]
  rw [hzero, loadWord]
  decide

-- The fill or copy of a page is never unfolded byte by byte.
attribute [irreducible] memset memcpy

end Mem

end HeavenOS.Lib
