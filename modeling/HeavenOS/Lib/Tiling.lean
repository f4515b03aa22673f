/-
# Tilings of an address range

A multiset of half-open pieces tiles a range when every address of the range
lies in exactly one piece and no address outside it lies in any. Counting
covers, rather than asking for pairwise disjointness and a union, makes the
notion additive: moving a piece between two owners changes nothing, and cutting
one piece in two changes nothing either.

The second half is the arithmetic of aligned power-of-two blocks, where flipping
one address bit leads from a block to the other half of its parent.
-/

import Mathlib.Algebra.Order.Group.Multiset
import Mathlib.Data.Multiset.Count
import Mathlib.Tactic.Ring

namespace HeavenOS.Lib

section Tiling

variable {ι : Type*} (lo hi : ι → ℕ)

/-- How many pieces of `pieces` hold the address `x`. -/
def cover (pieces : Multiset ι) (x : ℕ) : ℕ :=
  pieces.countP fun i => lo i ≤ x ∧ x < hi i

/-- Every address of `[a, b)` is in exactly one piece, every other in none. -/
def Tiles (pieces : Multiset ι) (a b : ℕ) : Prop :=
  ∀ x, cover lo hi pieces x = if a ≤ x ∧ x < b then 1 else 0

variable {lo hi}

@[simp]
theorem cover_zero (x : ℕ) : cover lo hi 0 x = 0 := Multiset.countP_zero _

theorem cover_add (first second : Multiset ι) (x : ℕ) :
    cover lo hi (first + second) x = cover lo hi first x + cover lo hi second x :=
  Multiset.countP_add _ _ _

theorem cover_cons (i : ι) (pieces : Multiset ι) (x : ℕ) :
    cover lo hi (i ::ₘ pieces) x =
      cover lo hi pieces x + if lo i ≤ x ∧ x < hi i then 1 else 0 := by
  unfold cover
  by_cases h : lo i ≤ x ∧ x < hi i
  · rw [if_pos h]
    exact Multiset.countP_cons_of_pos pieces h
  · rw [if_neg h]
    exact Multiset.countP_cons_of_neg pieces h

/-- Cutting a piece at an inner point covers the same addresses. -/
theorem cover_split {whole left right : ι} (hlo : lo left = lo whole)
    (hmid : hi left = lo right) (hhi : hi right = hi whole) (hleft : lo left ≤ hi left)
    (hright : lo right ≤ hi right) (pieces : Multiset ι) (x : ℕ) :
    cover lo hi (left ::ₘ right ::ₘ pieces) x = cover lo hi (whole ::ₘ pieces) x := by
  rw [cover_cons, cover_cons, cover_cons, add_assoc]
  congr 1
  split_ifs <;> omega

namespace Tiles

variable {pieces : Multiset ι} {a b : ℕ}

/-- A tiling depends on the cover only. -/
theorem congr {other : Multiset ι} (h : Tiles lo hi pieces a b)
    (hcover : ∀ x, cover lo hi other x = cover lo hi pieces x) : Tiles lo hi other a b :=
  fun x => (hcover x).trans (h x)

/-- Every non-empty piece lies inside the range. -/
theorem inside (h : Tiles lo hi pieces a b) {i : ι} (hi' : i ∈ pieces)
    (hne : lo i < hi i) : a ≤ lo i ∧ hi i ≤ b := by
  have hin : ∀ x, lo i ≤ x → x < hi i → a ≤ x ∧ x < b := by
    intro x hlo hhi
    have hpos : 0 < cover lo hi pieces x := Multiset.countP_pos.mpr ⟨i, hi', hlo, hhi⟩
    rw [h x] at hpos
    by_contra hnot
    rw [if_neg hnot] at hpos
    exact absurd hpos (lt_irrefl 0)
  have hfirst := hin (lo i) le_rfl hne
  have hlast := hin (hi i - 1) (by omega) (by omega)
  omega

/-- Two non-empty pieces of a tiling have no common address. -/
theorem disjoint {i j : ι} (h : Tiles lo hi (i ::ₘ j ::ₘ pieces) a b)
    (hi' : lo i < hi i) (hj : lo j < hi j) : hi i ≤ lo j ∨ hi j ≤ lo i := by
  by_contra hmeet
  have hcount := h (max (lo i) (lo j))
  rw [cover_cons, cover_cons, if_pos (by omega), if_pos (by omega)] at hcount
  split_ifs at hcount
  omega

/-- Two different pieces of a tiling have no common address. -/
theorem disjoint_of_ne {i j : ι} (h : Tiles lo hi pieces a b) (hi' : i ∈ pieces)
    (hj : j ∈ pieces) (hne : i ≠ j) (hinon : lo i < hi i) (hjnon : lo j < hi j) :
    hi i ≤ lo j ∨ hi j ≤ lo i := by
  obtain ⟨rest, rfl⟩ := Multiset.exists_cons_of_mem hi'
  have hjrest : j ∈ rest := (Multiset.mem_cons.mp hj).resolve_left hne.symm
  obtain ⟨rest, rfl⟩ := Multiset.exists_cons_of_mem hjrest
  exact h.disjoint hinon hjnon

/-- A piece of a tiling meets no piece of the rest. -/
theorem disjoint_of_mem {i j : ι} (h : Tiles lo hi (i ::ₘ pieces) a b) (hj : j ∈ pieces)
    (hi' : lo i < hi i) (hj' : lo j < hi j) : hi i ≤ lo j ∨ hi j ≤ lo i := by
  obtain ⟨rest, rfl⟩ := Multiset.exists_cons_of_mem hj
  exact h.disjoint hi' hj'

end Tiles

end Tiling

/-! ## Aligned power-of-two blocks -/

/-- Below an aligned parent, flipping the half bit moves to the upper half. -/
theorem xor_two_pow_of_dvd {n a : ℕ} (h : 2 ^ (n + 1) ∣ a) : a ^^^ 2 ^ n = a + 2 ^ n := by
  obtain ⟨c, rfl⟩ := h
  apply Nat.eq_of_testBit_eq
  intro j
  have hlt : 2 ^ n < 2 ^ (n + 1) := Nat.pow_lt_pow_right (by decide) (by omega)
  rw [Nat.testBit_two_pow_mul_add c hlt, Nat.testBit_xor, Nat.testBit_two_pow_mul,
    Nat.testBit_two_pow]
  by_cases hj : j < n + 1
  · have hle : ¬ n + 1 ≤ j := by omega
    simp [hj, hle]
  · have hne : n ≠ j := by omega
    simp [hj, hne, Nat.le_of_not_lt hj]

/-- From the upper half, flipping the half bit moves back to the parent. -/
theorem xor_two_pow_of_not_dvd {n a : ℕ} (h : 2 ^ n ∣ a) (hodd : ¬ 2 ^ (n + 1) ∣ a) :
    a ^^^ 2 ^ n = a - 2 ^ n ∧ 2 ^ n ≤ a ∧ 2 ^ (n + 1) ∣ a - 2 ^ n := by
  obtain ⟨c, rfl⟩ := h
  have hc : c % 2 = 1 := by
    by_contra hne
    have heven : 2 ∣ c := by omega
    exact hodd (by rw [pow_succ]; exact Nat.mul_dvd_mul_left _ heven)
  obtain ⟨d, rfl⟩ : ∃ d, c = 2 * d + 1 := ⟨c / 2, by omega⟩
  have hsplit : 2 ^ n * (2 * d + 1) = 2 ^ (n + 1) * d + 2 ^ n := by ring
  have hdvd : 2 ^ (n + 1) ∣ 2 ^ (n + 1) * d := Nat.dvd_mul_right _ _
  refine ⟨?_, ?_, ?_⟩
  · rw [hsplit, Nat.add_sub_cancel, ← xor_two_pow_of_dvd hdvd, Nat.xor_assoc, Nat.xor_self,
      Nat.xor_zero]
  · rw [hsplit]
    exact Nat.le_add_left _ _
  · rwa [hsplit, Nat.add_sub_cancel]

end HeavenOS.Lib
