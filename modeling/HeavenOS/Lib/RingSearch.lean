/-
# Searching a circular list

The loop that follows the forward pointers from the successor of the head until a node passes
a test or the head is reached again. On a proper ring it comes to its end, and it finds what a
search of the sequence finds.
-/

import HeavenOS.Lib.Ring

namespace HeavenOS.Lib.Ring

/-- The search from `node` on; nothing if it has not come to its end with `fuel` tests for the
head. -/
def search (test : ℕ → Bool) (m : Mem) (head : ℕ) : (fuel node : ℕ) → Option (Option ℕ)
  | 0, _ => none
  | fuel + 1, node =>
      if node = head then some none
      else if test node then some (some node)
      else search test m head fuel (next m node)

section Search

variable {test : ℕ → Bool} {m : Mem} {head : ℕ}

/-- The search of a chain that ends at the head. -/
theorem Linked.search_eq {x : ℕ} {xs : List ℕ} (h : Linked m x xs head) (hne : ∀ a ∈ xs, a ≠ head) {fuel : ℕ}
    (hfuel : xs.length < fuel) : search test m head fuel (next m x) = some (xs.find? test) := by
  induction xs generalizing x fuel with
  | nil =>
      obtain ⟨fuel, rfl⟩ := Nat.exists_eq_add_of_lt hfuel
      rw [h.1, search, if_pos rfl, List.find?_nil]
  | cons a xs ih =>
      obtain ⟨fuel, rfl⟩ := Nat.exists_eq_add_of_le' hfuel
      obtain ⟨hhead, hne⟩ := List.forall_mem_cons.mp hne
      rw [h.1.1, Nat.add_succ, search, if_neg hhead, List.find?_cons]
      cases htest : test a with
      | true => rw [if_pos rfl]
      | false => exact ih h.2 hne (by rw [List.length_cons]; omega)

/-- The search of a ring finds what the search of its nodes finds. -/
theorem IsRing.search_eq {nodes : List ℕ} (h : IsRing m head nodes) {fuel : ℕ} (hfuel : nodes.length < fuel) :
    search test m head fuel (next m head) = some (nodes.find? test) :=
  h.linked.search_eq (fun _ ha => (h.head_apart ha).ne.symm) hfuel

/-- More fuel does not change what was found. -/
theorem search_mono {fuel fuel' node : ℕ} {found : Option ℕ} (h : search test m head fuel node = some found)
    (hle : fuel ≤ fuel') : search test m head fuel' node = some found := by
  induction fuel generalizing fuel' node with
  | zero => cases h
  | succ fuel ih =>
      obtain ⟨more, rfl⟩ := Nat.exists_eq_add_of_le' hle
      rw [search] at h
      rw [← Nat.add_assoc, search]
      split_ifs at h ⊢ with hhead htest
      · exact h
      · exact h
      · exact ih h (Nat.le_add_left fuel more)

/-- Whenever a search of a ring has come to its end, it has found that. -/
theorem IsRing.search_eq_some {nodes : List ℕ} (h : IsRing m head nodes) {fuel : ℕ} {found : Option ℕ}
    (hsearch : search test m head fuel (next m head) = some found) : found = nodes.find? test := by
  have hmore := search_mono hsearch (Nat.le_add_right fuel (nodes.length + 1))
  rw [h.search_eq (by omega)] at hmore
  exact (Option.some.inj hmore).symm

end Search

end HeavenOS.Lib.Ring
