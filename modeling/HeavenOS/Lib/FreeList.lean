/-
# Lists threaded through memory

A list whose nodes are addresses: the word at a node is the address of the next one, and zero
ends the list. Nothing is said about what else a node consists of.
-/

import HeavenOS.Lib.Mem

namespace HeavenOS.Lib

/-- The nodes of the list that starts at `a`. -/
def FreeList (m : Mem) : ℕ → List ℕ → Prop
  | a, [] => a = 0
  | a, b :: rest => a = b ∧ b ≠ 0 ∧ FreeList m (m.loadPtr b) rest

namespace FreeList

variable {m m' : Mem} {a b : ℕ} {nodes : List ℕ}

theorem nil (m : Mem) : FreeList m 0 [] := rfl

theorem eq_nil_of_zero (h : FreeList m 0 nodes) : nodes = [] := by
  cases nodes with
  | nil => rfl
  | cons b rest => exact absurd h.1.symm h.2.1

/-- A list that is not empty starts with its first node, and the rest is reached from there. -/
theorem exists_cons (h : FreeList m a nodes) (ha : a ≠ 0) :
    ∃ rest, nodes = a :: rest ∧ FreeList m (m.loadPtr a) rest := by
  cases nodes with
  | nil => exact absurd h ha
  | cons b rest =>
      obtain ⟨rfl, -, hrest⟩ := h
      exact ⟨rest, rfl, hrest⟩

/-- The memory decides what the list is. -/
theorem unique {nodes' : List ℕ} (h : FreeList m a nodes) (h' : FreeList m a nodes') : nodes = nodes' := by
  induction nodes generalizing a nodes' with
  | nil =>
      obtain rfl : a = 0 := h
      exact h'.eq_nil_of_zero.symm
  | cons b rest ih =>
      obtain ⟨rfl, hne, hrest⟩ := h
      obtain ⟨rest', rfl, hrest'⟩ := h'.exists_cons hne
      rw [ih hrest hrest']

/-- A list depends on the words at its nodes only. -/
theorem congr (h : FreeList m a nodes) (hsame : ∀ b ∈ nodes, ∀ x, b ≤ x → x < b + 8 → m' x = m x) :
    FreeList m' a nodes := by
  induction nodes generalizing a with
  | nil => exact h
  | cons b rest ih =>
      obtain ⟨rfl, hne, hrest⟩ := h
      refine ⟨rfl, hne, ?_⟩
      rw [Mem.loadPtr_congr fun x hlo hhi => hsame a List.mem_cons_self x hlo hhi]
      exact ih hrest fun b hb => hsame b (List.mem_cons_of_mem _ hb)

/-- A node is put in front. -/
theorem push (h : FreeList m a nodes) (ha : a < 2 ^ 64) (hb : b ≠ 0)
    (hapart : ∀ c ∈ nodes, b + 8 ≤ c ∨ c + 8 ≤ b) : FreeList (m.storePtr b a) b (b :: nodes) := by
  refine ⟨rfl, hb, ?_⟩
  rw [Mem.loadPtr_storePtr_self m b ha]
  exact h.congr fun c hc x hlo hhi => Mem.storePtr_of_outside m a (by have := hapart c hc; omega)

end FreeList

end HeavenOS.Lib
