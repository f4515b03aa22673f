/-
# Rows of colours

A colour takes four bytes of a memory, and a row of colours is a block of them. A region says
which addresses may be accessed.
-/

import HeavenOS.Lib.Loop

namespace HeavenOS.Lib

/-- The addresses from `lo` up to `hi`. -/
structure Region where
  lo : ℕ
  hi : ℕ

/-- All addresses of 64 bits. -/
def Region.whole : Region := ⟨0, 2 ^ 64⟩

/-- The `n` bytes at `a` lie in the region. -/
def Region.Has (r : Region) (a n : ℕ) : Prop := r.lo ≤ a ∧ a + n ≤ r.hi

instance (r : Region) (a n : ℕ) : Decidable (r.Has a n) := inferInstanceAs (Decidable (_ ∧ _))

namespace Mem

/-- The four bytes at `a`. -/
def load32 (m : Mem) (a : ℕ) : BitVec 32 := m (a + 3) ++ m (a + 2) ++ m (a + 1) ++ m a

/-- Write a row of `n` colours at `a`. -/
def store32s (m : Mem) (a : ℕ) (f : ℕ → BitVec 32) (n : ℕ) : Mem :=
  fun x => if a ≤ x ∧ x < a + 4 * n then (f ((x - a) / 4)).extractLsb' (8 * ((x - a) % 4)) 8 else m x

variable (m : Mem) {a b n : ℕ} (f : ℕ → BitVec 32)

theorem store32s_of_outside {x : ℕ} (hout : x < a ∨ a + 4 * n ≤ x) : m.store32s a f n x = m x := if_neg (by omega)

theorem store32s_byte {j k : ℕ} (hj : j < n) (hk : k < 4) :
    m.store32s a f n (a + 4 * j + k) = (f j).extractLsb' (8 * k) 8 := by
  rw [store32s, if_pos (by omega), show (a + 4 * j + k - a) / 4 = j by omega, show (a + 4 * j + k - a) % 4 = k by omega]

theorem load32_congr {m m' : Mem} {a b : ℕ} (hsame : ∀ k < 4, m' (b + k) = m (a + k)) : m'.load32 b = m.load32 a := by
  have hfirst : m' b = m a := hsame 0 (by decide)
  rw [load32, load32, hsame 1 (by decide), hsame 2 (by decide), hsame 3 (by decide), hfirst]

theorem load32_store32s {j : ℕ} (hj : j < n) : (m.store32s a f n).load32 (a + 4 * j) = f j := by
  have hbyte (k : ℕ) (hk : k < 4) : m.store32s a f n (a + 4 * j + k) = (f j).extractLsb' (8 * k) 8 :=
    store32s_byte m f hj hk
  have hfirst : m.store32s a f n (a + 4 * j) = (f j).extractLsb' 0 8 := hbyte 0 (by decide)
  rw [load32, hbyte 3 (by decide), hbyte 2 (by decide), hbyte 1 (by decide), hfirst]
  iterate 3 rw [BitVec.extractLsb'_append_extractLsb'_eq_extractLsb' (by rfl)]
  exact BitVec.extractLsb'_eq_self

theorem load32_store32s_of_disjoint (hdis : b + 4 ≤ a ∨ a + 4 * n ≤ b) :
    (m.store32s a f n).load32 b = m.load32 b :=
  load32_congr fun _ _ => store32s_of_outside m f (by omega)

theorem load32_byte {k : ℕ} (hk : k < 4) : (m.load32 a).extractLsb' (8 * k) 8 = m (a + k) := by
  rw [load32]
  obtain rfl | rfl | rfl | rfl : k = 0 ∨ k = 1 ∨ k = 2 ∨ k = 3 := by omega
  · rw [BitVec.extractLsb'_append_eq_of_add_le (by decide)]
    exact BitVec.extractLsb'_eq_self
  · rw [BitVec.extractLsb'_append_eq_of_le (by decide), BitVec.extractLsb'_append_eq_of_add_le (by decide)]
    exact BitVec.extractLsb'_eq_self
  · iterate 2 rw [BitVec.extractLsb'_append_eq_of_le (by decide)]
    rw [BitVec.extractLsb'_append_eq_of_add_le (by decide)]
    exact BitVec.extractLsb'_eq_self
  · iterate 3 rw [BitVec.extractLsb'_append_eq_of_le (by decide)]
    exact BitVec.extractLsb'_eq_self

@[simp]
theorem store32s_zero : m.store32s a f 0 = m := by
  funext x
  exact if_neg (by omega)

/-- A row is written from left to right. -/
theorem store32s_succ : (m.store32s a f n).store32s (a + 4 * n) (fun _ => f n) 1 = m.store32s a f (n + 1) := by
  funext x
  by_cases hlast : a + 4 * n ≤ x ∧ x < a + 4 * n + 4
  · rw [store32s, if_pos (by omega), store32s, if_pos (by omega), show (x - a) / 4 = n by omega,
      show (x - a) % 4 = (x - (a + 4 * n)) % 4 by omega]
  · rw [store32s_of_outside _ _ (by omega), store32s, store32s]
    exact if_congr (by omega) rfl rfl

end Mem

/-- `*(uint32_t*)a = c` -/
def storeColor (r : Region) (m : Mem) (a : ℕ) (c : BitVec 32) : Except Fault Mem :=
  if r.Has a 4 then .ok (m.store32s a (fun _ => c) 1) else .error .outOfBounds

/-- `addr[i] = f(i)` for every `i` below `n`, on an address space of 64 bits. -/
def storeColors (r : Region) (m : Mem) (addr : ℕ) (f : ℕ → BitVec 32) (n : ℕ) : Except Fault Mem :=
  forLoop (fun i m => storeColor r m ((addr + 4 * i) % 2 ^ 64) (f i)) m n

theorem storeColors_spec {r : Region} {m : Mem} {addr n : ℕ} {f : ℕ → BitVec 32} (hin : r.Has addr (4 * n))
    (hwrap : addr + 4 * n ≤ 2 ^ 64) : storeColors r m addr f n = .ok (m.store32s addr f n) := by
  refine forLoop_eq (m.store32s addr f) (Mem.store32s_zero m f) fun i hi => ?_
  unfold Region.Has at hin
  rw [Nat.mod_eq_of_lt (by omega), storeColor, if_pos (by unfold Region.Has; omega), Mem.store32s_succ]

theorem storeColor_zero {r : Region} {m m' : Mem} {a : ℕ} (h : storeColor r m a 0 = .ok m') :
    m' a = 0 ∧ ∀ x, m x = 0 → m' x = 0 := by
  unfold storeColor at h
  split_ifs at h
  obtain rfl := Except.ok.inj h
  refine ⟨?_, fun x hx => ?_⟩
  · rw [Mem.store32s, if_pos (by omega)]
    simp
  · rw [Mem.store32s]
    split_ifs
    · simp
    · exact hx

/-- Behind a row of zeros its first byte is zero, and so is what was zero before. -/
theorem storeColors_zero {r : Region} {m m' : Mem} {addr n : ℕ} (h : storeColors r m addr (fun _ => 0) n = .ok m') {x : ℕ}
    (hx : m x = 0 ∨ 0 < n ∧ x = addr % 2 ^ 64) : m' x = 0 := by
  rcases hx with hzero | ⟨hpos, rfl⟩
  · exact forLoop_inv h (fun _ m => m x = 0) hzero fun i _ m m' hm hstep => (storeColor_zero hstep).2 x hm
  · exact forLoop_establish h (fun m => m (addr % 2 ^ 64) = 0) hpos (fun m m' hstep => (storeColor_zero hstep).1)
      fun i _ _ m m' hm hstep => (storeColor_zero hstep).2 _ hm

end HeavenOS.Lib
