/-
# Families of circular lists

Several rings in one memory, no two of which share a cell. Whoever inserts or unlinks a node
by its address need not know the list that it is in: the list changes as a sequence would,
and all the others stay as they are.
-/

import HeavenOS.Lib.Ring
import Mathlib.Logic.Function.Basic

namespace HeavenOS.Lib.Ring

/-! ## Sequences -/

/-- The sequence with `new` directly behind `node`. -/
def insertBehind (node new : ℕ) : List ℕ → List ℕ
  | [] => []
  | a :: l => if a = node then a :: new :: l else a :: insertBehind node new l

section Sequences

variable {node new : ℕ}

theorem insertBehind_append {before : List ℕ} (after : List ℕ) (hnot : node ∉ before) :
    insertBehind node new (before ++ node :: after) = before ++ node :: new :: after := by
  induction before with
  | nil => exact if_pos rfl
  | cons a before ih =>
      rw [List.mem_cons, not_or] at hnot
      obtain ⟨hne, hnot⟩ := hnot
      rw [List.cons_append, insertBehind, if_neg (Ne.symm hne), ih hnot, List.cons_append]

theorem mem_insertBehind {l : List ℕ} {a : ℕ} : a ∈ insertBehind node new l ↔ a ∈ l ∨ a = new ∧ node ∈ l := by
  induction l with
  | nil => simp [insertBehind]
  | cons b l ih =>
      rw [insertBehind]
      split_ifs with hb
      · subst hb
        simp only [List.mem_cons]
        tauto
      · simp only [List.mem_cons, ih, Ne.symm hb, false_or]
        tauto

theorem erase_insertBehind {l : List ℕ} (hnew : new ∉ l) : (insertBehind node new l).erase new = l := by
  induction l with
  | nil => rfl
  | cons b l ih =>
      rw [List.mem_cons, not_or] at hnew
      obtain ⟨hne, hnew⟩ := hnew
      rw [insertBehind]
      split_ifs
      · rw [List.erase_cons_tail (by simpa using Ne.symm hne), List.erase_cons_head]
      · rw [List.erase_cons_tail (by simpa using Ne.symm hne), ih hnew]

end Sequences

/-! ## One ring -/

/-- Both pointers of a cell are as before. -/
def SameLinks (m m' : Mem) (a : ℕ) : Prop := next m' a = next m a ∧ prev m' a = prev m a

theorem Linked.next_eq {m m' : Mem} {x y : ℕ} {xs : List ℕ} (h : Linked m x xs y) (h' : Linked m' x xs y) :
    (∀ a ∈ x :: xs, next m' a = next m a) ∧ ∀ a ∈ xs ++ [y], prev m' a = prev m a := by
  induction xs generalizing x with
  | nil => simp [h.1, h.2, h'.1, h'.2]
  | cons z zs ih =>
      obtain ⟨hnext, hprev⟩ := ih h.2 h'.2
      refine ⟨List.forall_mem_cons.mpr ⟨h'.1.1.trans h.1.1.symm, hnext⟩, ?_⟩
      rw [List.cons_append]
      exact List.forall_mem_cons.mpr ⟨h'.1.2.trans h.1.2.symm, hprev⟩

namespace IsRing

variable {m m' : Mem} {head : ℕ} {nodes : List ℕ}

/-- The sequence determines the pointers. -/
theorem sameLinks (h : IsRing m head nodes) (h' : IsRing m' head nodes) : ∀ a ∈ head :: nodes, SameLinks m m' a := by
  obtain ⟨hnext, hprev⟩ := h.linked.next_eq h'.linked
  refine fun a ha => ⟨hnext a ha, hprev a ?_⟩
  simp at ha ⊢
  tauto

/-- Insertion behind any node puts the new node there. -/
theorem insertBehind {node new : ℕ} (h : IsRing m head nodes) (hmem : node ∈ head :: nodes) (hnew : new < 2 ^ 64)
    (hapart : ∀ a ∈ head :: nodes, Apart new a) :
    IsRing (Ring.insertAfter m node new) head (Ring.insertBehind node new (head :: nodes)).tail := by
  rcases List.mem_cons.mp hmem with rfl | hin
  · rw [Ring.insertBehind, if_pos rfl, List.tail_cons]
    exact h.insertAfter hnew hapart
  · obtain ⟨before, after, rfl, hnot⟩ := List.eq_append_cons_of_mem hin
    have hne : head ≠ node := (h.head_apart hin).ne
    -- the node is made the head, and the old head comes back to its place
    have hrot := h.rotate.insertAfter hnew fun a ha => hapart a (by simp at ha ⊢; tauto)
    rw [Ring.insertBehind, if_neg hne, List.tail_cons, insertBehind_append after hnot]
    exact @IsRing.rotate _ node head (new :: after) before hrot

/-- Removing a node as an operation on sequences. -/
theorem unlink_erase {node : ℕ} (h : IsRing m head nodes) (hmem : node ∈ nodes) :
    IsRing (Ring.unlink m node) head (nodes.erase node) := by
  obtain ⟨before, after, rfl, hnot⟩ := List.eq_append_cons_of_mem hmem
  rw [List.erase_append_right _ hnot, List.erase_cons_head]
  exact h.unlink

end IsRing

/-! ## Families -/

/-- Circular lists, each with its head and the other nodes in their order. -/
structure RingFamily (ι : Type) where
  head : ι → ℕ
  nodes : ι → List ℕ

namespace RingFamily

variable {ι : Type} (F : RingFamily ι)

/-- All cells of a list. -/
def cells (i : ι) : List ℕ := F.head i :: F.nodes i

variable [DecidableEq ι]

/-- Another sequence of nodes for one list. -/
def set (i : ι) (l : List ℕ) : RingFamily ι := { F with nodes := Function.update F.nodes i l }

/-- Put `new` directly behind `node`. -/
def insert (i : ι) (node new : ℕ) : RingFamily ι := F.set i (insertBehind node new (F.cells i)).tail

/-- Take `node` out. -/
def remove (i : ι) (node : ℕ) : RingFamily ι := F.set i ((F.nodes i).erase node)

@[simp]
theorem set_head (i j : ι) (l : List ℕ) : (F.set i l).head j = F.head j := rfl

@[simp]
theorem set_nodes_self (i : ι) (l : List ℕ) : (F.set i l).nodes i = l := by simp [set]

theorem set_nodes_of_ne {i j : ι} (l : List ℕ) (hne : j ≠ i) : (F.set i l).nodes j = F.nodes j := by
  simp [set, hne]

theorem set_cells_of_ne {i j : ι} (l : List ℕ) (hne : j ≠ i) : (F.set i l).cells j = F.cells j := by
  rw [cells, cells, set_head, set_nodes_of_ne F l hne]

theorem set_cells_self (i : ι) (l : List ℕ) : (F.set i l).cells i = F.head i :: l := by
  rw [cells, set_head, set_nodes_self]

/-- With its head, the list into which a node is put is the sequence with the node behind. -/
theorem insert_cells_self (i : ι) (node new : ℕ) : (F.insert i node new).cells i = insertBehind node new (F.cells i) := by
  rw [insert, set_cells_self, cells, insertBehind]
  split_ifs <;> rfl

theorem mem_insert_nodes {i : ι} {node new : ℕ} (hmem : node ∈ F.cells i) (hnew : new ∉ F.cells i) :
    new ∈ (F.insert i node new).nodes i := by
  have hin : new ∈ (F.insert i node new).cells i := by
    rw [insert_cells_self, mem_insertBehind]
    exact Or.inr ⟨rfl, hmem⟩
  rcases List.mem_cons.mp hin with heq | hin
  · exact absurd (heq ▸ List.mem_cons_self) hnew
  · exact hin

/-- What was put in is taken out again. -/
theorem remove_insert {i : ι} {node new : ℕ} (hnew : new ∉ F.cells i) : (F.insert i node new).remove i new = F := by
  have hcells := @erase_insertBehind node new _ hnew
  rw [← insert_cells_self] at hcells
  have hhead : F.head i ≠ new := fun heq => hnew (heq ▸ List.mem_cons_self)
  have hnodes : ((F.insert i node new).nodes i).erase new = F.nodes i := by
    rw [cells, List.erase_cons_tail (by simpa [insert] using hhead)] at hcells
    exact (List.cons.inj hcells).2
  rw [remove, hnodes, set, insert, set]
  simp only [Function.update_idem, Function.update_eq_self]

end RingFamily

/-- The lists are in memory, and no two of them share a cell. -/
structure IsRingFamily {ι : Type} (m : Mem) (F : RingFamily ι) : Prop where
  ring : ∀ i, IsRing m (F.head i) (F.nodes i)
  apart : ∀ {i j}, i ≠ j → ∀ a ∈ F.cells i, ∀ b ∈ F.cells j, Apart a b

namespace IsRingFamily

variable {ι : Type} {m m' : Mem} {F : RingFamily ι}

/-- The family determines the pointers. -/
theorem sameLinks (h : IsRingFamily m F) (h' : IsRingFamily m' F) (i : ι) : ∀ a ∈ F.cells i, SameLinks m m' a :=
  (h.ring i).sameLinks (h'.ring i)

variable (h : IsRingFamily m F)

include h

/-- Insertion writes to no cell of another list. -/
theorem insertAfter_other {i j : ι} {node new : ℕ} (hmem : node ∈ F.cells i) (hapart : ∀ j, ∀ a ∈ F.cells j, Apart new a)
    (hj : j ≠ i) : ∀ a ∈ F.cells j, ∀ x, a ≤ x → x < a + 16 → Ring.insertAfter m node new x = m x := by
  intro a ha x hlo hhi
  have hnode := h.apart (Ne.symm hj) node hmem a ha
  have hold := h.apart (Ne.symm hj) _ ((h.ring i).neighbours_mem hmem).1 a ha
  have hnew := hapart j a ha
  unfold Apart at hnode hold hnew
  exact insertAfter_of_outside m (by omega) (by omega) (by omega)

/-- Unlinking writes to no cell of another list. -/
theorem unlink_other {i j : ι} {node : ℕ} (hmem : node ∈ F.nodes i) (hj : j ≠ i) :
    ∀ a ∈ F.cells j, ∀ x, a ≤ x → x < a + 16 → Ring.unlink m node x = m x := by
  intro a ha x hlo hhi
  obtain ⟨hnext, hprev⟩ := (h.ring i).neighbours_mem (List.mem_cons_of_mem _ hmem)
  have hnext := h.apart (Ne.symm hj) _ hnext a ha
  have hprev := h.apart (Ne.symm hj) _ hprev a ha
  unfold Apart at hnext hprev
  exact unlink_of_outside m (by omega) (by omega)

variable [DecidableEq ι]

/-- One list changes, and the memory at the others does not. -/
theorem set {i : ι} {l : List ℕ} (hring : IsRing m' (F.head i) l)
    (hcells : ∀ a ∈ l, a ∈ F.cells i ∨ ∀ j, j ≠ i → ∀ b ∈ F.cells j, Apart a b)
    (hsame : ∀ j, j ≠ i → ∀ a ∈ F.cells j, ∀ x, a ≤ x → x < a + 16 → m' x = m x) : IsRingFamily m' (F.set i l) := by
  have hleft {j : ι} (hj : j ≠ i) {a b : ℕ} (ha : a ∈ (F.set i l).cells i) (hb : b ∈ F.cells j) : Apart a b := by
    rw [RingFamily.set_cells_self] at ha
    rcases List.mem_cons.mp ha with rfl | ha
    · exact h.apart (Ne.symm hj) _ List.mem_cons_self b hb
    · rcases hcells a ha with ha | hout
      · exact h.apart (Ne.symm hj) a ha b hb
      · exact hout j hj b hb
  constructor
  · intro j
    by_cases hj : j = i
    · subst hj
      rw [RingFamily.set_head, RingFamily.set_nodes_self]
      exact hring
    · rw [RingFamily.set_head, RingFamily.set_nodes_of_ne F l hj]
      exact (h.ring j).congr (hsame j hj)
  · intro j k hjk a ha b hb
    by_cases hj : j = i
    · subst hj
      rw [RingFamily.set_cells_of_ne _ _ (Ne.symm hjk)] at hb
      exact hleft (Ne.symm hjk) ha hb
    · rw [RingFamily.set_cells_of_ne _ _ hj] at ha
      by_cases hk : k = i
      · subst hk
        exact (hleft hj hb ha).symm
      · rw [RingFamily.set_cells_of_ne _ _ hk] at hb
        exact h.apart hjk a ha b hb

/-- Insertion behind a node of a list. -/
theorem insertAfter {i : ι} {node new : ℕ} (hmem : node ∈ F.cells i) (hnew : new < 2 ^ 64)
    (hapart : ∀ j, ∀ a ∈ F.cells j, Apart new a) : IsRingFamily (Ring.insertAfter m node new) (F.insert i node new) := by
  refine h.set ((h.ring i).insertBehind hmem hnew (hapart i)) (fun a ha => ?_) fun j hj => h.insertAfter_other hmem hapart hj
  rcases mem_insertBehind.mp (List.mem_of_mem_tail ha) with ha | ⟨rfl, -⟩
  · exact Or.inl ha
  · exact Or.inr fun j _ => hapart j

/-- Unlinking a node of a list. -/
theorem unlink {i : ι} {node : ℕ} (hmem : node ∈ F.nodes i) : IsRingFamily (Ring.unlink m node) (F.remove i node) :=
  h.set ((h.ring i).unlink_erase hmem) (fun _ ha => Or.inl (List.mem_cons_of_mem _ (List.mem_of_mem_erase ha)))
    fun _ hj => h.unlink_other hmem hj

end IsRingFamily

end HeavenOS.Lib.Ring
