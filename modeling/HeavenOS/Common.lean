/-
# Common kernel definitions

The macros of `common.h` and the assertion macros of `kernel/panic.h`. A `size_t`
or `uint64_t` expression is a natural number reduced modulo `2 ^ 64` wherever the
C expression can leave that range; a panic ends the computation with the text it
prints. The build does not define `NDEBUG`, so `kassert_dbg` is `kassert`; it hands its
argument on, so the text of a `kassert_dbg` has its macros expanded, that of a `kassert`
has not.
-/

import Mathlib.Data.BitVec
import Mathlib.Tactic.Common

namespace HeavenOS

def pageSize : ℕ := 4096

/-- `GB` -/
def gb : ℕ := 2 ^ 30

/-- `2 * MB` -/
def twoMb : ℕ := 2 * 2 ^ 20

/-- What `__panic` prints before the machine halts, or its format where what fills it in
is no part of the model (the address of a `vmem_t`, what `%i` leaves of a buffer). -/
abbrev Panic := String

/-- `kassert(expr)`: nothing if the condition holds, else a panic naming it. -/
def kassert (cond : Prop) [Decidable cond] (expr : String) : Except Panic Unit :=
  if cond then .ok () else .error ("assertion failed: '" ++ expr ++ "'")

theorem kassert_of_true {cond : Prop} [Decidable cond] (h : cond) (expr : String) :
    kassert cond expr = .ok () := if_pos h

/-- An assertion that was passed held. -/
theorem kassert_eq_ok_iff {cond : Prop} [Decidable cond] {expr : String} {u : Unit} :
    kassert cond expr = .ok u ↔ cond := by
  unfold kassert
  split_ifs with h <;> simp [h]

/-- Peel one step off a computation that returned. -/
theorem bind_eq_ok {α β : Type} {x : Except Panic α} {f : α → Except Panic β} {b : β} :
    (x >>= f) = .ok b ↔ ∃ a, x = .ok a ∧ f a = .ok b := by
  cases x with
  | error e => simp [bind, Except.bind]
  | ok a => simp [bind, Except.bind]

@[simp]
theorem ok_bind {α β : Type} (a : α) (f : α → Except Panic β) :
    ((Except.ok a : Except Panic α) >>= f) = f a := rfl

/-- Difference of two `uint64_t` values. -/
def subU64 (a b : ℕ) : ℕ := (a + 2 ^ 64 - b) % 2 ^ 64

theorem subU64_of_le {a b : ℕ} (hle : b ≤ a) (ha : a < 2 ^ 64) : subU64 a b = a - b := by
  unfold subU64
  omega

/-- How often a loop from zero runs whose bound is `(int)length`. -/
def intCount (length : ℕ) : ℕ := (BitVec.ofNat 32 length).toInt.toNat

theorem intCount_eq {length : ℕ} (hlt : length < 2 ^ 32) : intCount length = if length < 2 ^ 31 then length else 0 := by
  rw [intCount, BitVec.toInt_eq_toNat_cond, BitVec.toNat_ofNat, Nat.mod_eq_of_lt hlt]
  split_ifs <;> omega

/-! ## Rounding macros -/

/-- `ROUNDDOWN(a, n)` -/
def roundDown (a n : ℕ) : ℕ := a - a % n

/-- `ROUNDUP(a, n)` -/
def roundUp (a n : ℕ) : ℕ := roundDown ((a + n - 1) % 2 ^ 64) n

/-- `ALIGN_UP(X, R)` -/
def alignUp (x r : ℕ) : ℕ := ((x + r - 1) % 2 ^ 64 / r * r) % 2 ^ 64

/-- `DIV_ROUNDUP(X, R)` -/
def divRoundUp (x r : ℕ) : ℕ := (x + r - 1) % 2 ^ 64 / r

theorem dvd_roundDown (a n : ℕ) : n ∣ roundDown a n := Nat.dvd_sub_mod a

theorem roundDown_le (a n : ℕ) : roundDown a n ≤ a := Nat.sub_le _ _

theorem lt_roundDown_add (a : ℕ) {n : ℕ} (hn : 0 < n) : a < roundDown a n + n := by
  have hmod := Nat.mod_lt a hn
  unfold roundDown
  omega

theorem dvd_roundUp (a n : ℕ) : n ∣ roundUp a n := dvd_roundDown _ n

/-- Where the sum does not wrap, `ROUNDUP` goes up by less than `n`. -/
theorem roundUp_bounds {a n : ℕ} (hn : 0 < n) (hwrap : a + n ≤ 2 ^ 64) :
    a ≤ roundUp a n ∧ roundUp a n < a + n := by
  unfold roundUp
  rw [Nat.mod_eq_of_lt (by omega)]
  have hup := lt_roundDown_add (a + n - 1) hn
  have hlow := roundDown_le (a + n - 1) n
  omega

/-! ## Bit macros -/

section Bits

variable {w : ℕ}

/-- `GET_BIT(val, bit)` -/
def getBit (val : BitVec w) (bit : ℕ) : BitVec w := (val >>> bit) &&& 1#w

/-- `SET_BIT(val, bit)` -/
def setBit (val : BitVec w) (bit : ℕ) : BitVec w := val ||| (1#w <<< bit)

/-- `CLEAR_BIT(val, bit)` -/
def clearBit (val : BitVec w) (bit : ℕ) : BitVec w := val &&& ~~~(1#w <<< bit)

/-- `FLIP_BIT(val, bit)` -/
def flipBit (val : BitVec w) (bit : ℕ) : BitVec w := val ^^^ (1#w <<< bit)

theorem getLsbD_one_shiftLeft {bit i : ℕ} (hi : i < w) :
    (1#w <<< bit).getLsbD i = decide (i = bit) := by
  rw [BitVec.getLsbD_shiftLeft, BitVec.getLsbD_one]
  by_cases h : i = bit
  · subst h
    simp [hi]
    omega
  · simp only [hi, decide_true, Bool.true_and, h, decide_false]
    by_cases hlt : i < bit
    · simp [hlt]
    · have hne : i - bit ≠ 0 := by omega
      simp [hne]

theorem getBit_eq_zero_iff (val : BitVec w) {bit : ℕ} (hbit : bit < w) :
    getBit val bit = 0 ↔ val.getLsbD bit = false := by
  constructor
  · intro h
    have h0 : (getBit val bit).getLsbD 0 = false := by rw [h]; simp
    simpa [getBit, show 0 < w by omega] using h0
  · intro h
    apply BitVec.eq_of_getLsbD_eq
    intro i hi
    rcases Nat.eq_zero_or_pos i with rfl | hpos
    · simp [getBit, h]
    · have hne : i ≠ 0 := by omega
      simp [getBit, BitVec.getLsbD_one, hne]

theorem getLsbD_setBit (val : BitVec w) {bit i : ℕ} (hi : i < w) :
    (setBit val bit).getLsbD i = (val.getLsbD i || decide (i = bit)) := by
  rw [setBit, BitVec.getLsbD_or, getLsbD_one_shiftLeft hi]

theorem getLsbD_clearBit (val : BitVec w) {bit i : ℕ} (hi : i < w) :
    (clearBit val bit).getLsbD i = (val.getLsbD i && !decide (i = bit)) := by
  rw [clearBit, BitVec.getLsbD_and, BitVec.getLsbD_not, getLsbD_one_shiftLeft hi]
  simp [hi]

theorem getLsbD_flipBit (val : BitVec w) {bit i : ℕ} (hi : i < w) :
    (flipBit val bit).getLsbD i = (val.getLsbD i ^^ decide (i = bit)) := by
  rw [flipBit, BitVec.getLsbD_xor, getLsbD_one_shiftLeft hi]

/-- On an address, `FLIP_BIT` is the exclusive or with a power of two. -/
theorem toNat_flipBit (val : BitVec w) {bit : ℕ} (hbit : bit < w) :
    (flipBit val bit).toNat = val.toNat ^^^ 2 ^ bit := by
  have hpow : 2 ^ bit < 2 ^ w := Nat.pow_lt_pow_right (by decide) hbit
  have hone : (1#w <<< bit).toNat = 2 ^ bit := by
    rw [BitVec.toNat_shiftLeft, BitVec.toNat_ofNat, Nat.shiftLeft_eq,
      Nat.mod_eq_of_lt (a := 1) (by have := Nat.one_le_two_pow (n := bit); omega), one_mul,
      Nat.mod_eq_of_lt hpow]
  rw [flipBit, BitVec.toNat_xor, hone]

end Bits

/-- `a & ~(n - 1)`, the alignment test's way of rounding down. -/
def maskDown (a n : ℕ) : ℕ := (BitVec.ofNat 64 a &&& ~~~(BitVec.ofNat 64 (n - 1))).toNat

/-- For a power of two the mask rounds down. -/
theorem maskDown_two_pow {a k : ℕ} (ha : a < 2 ^ 64) : maskDown a (2 ^ k) = roundDown a (2 ^ k) := by
  have hdown : roundDown a (2 ^ k) = 2 ^ k * (a / 2 ^ k) := by
    have hdiv := Nat.div_add_mod a (2 ^ k)
    unfold roundDown
    omega
  rw [hdown, maskDown]
  apply Nat.eq_of_testBit_eq
  intro i
  rw [BitVec.testBit_toNat, BitVec.getLsbD_and, BitVec.getLsbD_not, BitVec.getLsbD_ofNat,
    BitVec.getLsbD_ofNat, Nat.testBit_two_pow_sub_one, Nat.testBit_two_pow_mul,
    Nat.testBit_div_two_pow]
  by_cases hi : i < 64
  · by_cases hk : i < k
    · have hle : ¬ k ≤ i := by omega
      simp [hi, hk, hle]
    · have hle : k ≤ i := by omega
      simp [hi, hle, show i - k + k = i by omega]
  · have hbit : a.testBit i = false :=
      Nat.testBit_lt_two_pow (lt_of_lt_of_le ha (Nat.pow_le_pow_right (by decide) (by omega)))
    by_cases hk : k ≤ i
    · simp [hi, show i - k + k = i by omega, hbit]
    · simp [hi, hk]

/-- The alignment test passes exactly on multiples. -/
theorem maskDown_two_pow_eq_self_iff {a k : ℕ} (ha : a < 2 ^ 64) :
    maskDown a (2 ^ k) = a ↔ 2 ^ k ∣ a := by
  rw [maskDown_two_pow ha, roundDown, Nat.dvd_iff_mod_eq_zero]
  have hle := Nat.mod_le a (2 ^ k)
  omega

end HeavenOS
