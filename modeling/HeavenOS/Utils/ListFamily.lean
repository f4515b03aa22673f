/-
# Lists as sequences

The functions of `utils/list.c` on several lists at once. `list_insert_after` and
`list_extract` get a node and not the list that it is in, and they write to its neighbours.
Each does to that list what the operation on sequences does, and nothing to the others.
-/

import HeavenOS.Lib.RingFamily
import HeavenOS.Utils.List

namespace HeavenOS

open Lib Lib.Ring

variable {ι : Type}

/-- The lists are in memory. No node of them is at `NULL`. -/
structure ListFamily (m : Mem) (F : RingFamily ι) : Prop extends IsRingFamily m F where
  notNull : ∀ i, ∀ a ∈ F.cells i, a ≠ 0

/-- A cell that `list_init` has initialised, and that is on none of the lists. -/
structure FreshNode (m : Mem) (F : RingFamily ι) (new : ℕ) : Prop where
  ring : IsRing m new []
  notNull : new ≠ 0
  apart : ∀ i, ∀ a ∈ F.cells i, Apart new a

variable [DecidableEq ι]

/-- What the functions should do to a family of lists: insertion puts the node directly behind
the other one, and extracting it again restores every pointer; extraction of a node passes its
assertion and takes the node out; both leave the pointers of the other lists alone; a list is
empty exactly if it has no node but the head. -/
structure RefinesSequences (m : Mem) (F : RingFamily ι) : Prop where
  insert : ∀ i node new, node ∈ F.cells i → FreshNode m F new →
    ∃ m', listInsertAfter m node new = .ok m' ∧ ListFamily m' (F.insert i node new) ∧
      (∀ j, j ≠ i → ∀ a ∈ F.cells j, SameLinks m m' a) ∧
      ∃ m'', listExtract m' new = .ok m'' ∧ ∀ j, ∀ a ∈ F.cells j, SameLinks m m'' a
  extract : ∀ i, ∀ node ∈ F.nodes i,
    ∃ m', listExtract m node = .ok m' ∧ ListFamily m' (F.remove i node) ∧ ∀ j, j ≠ i → ∀ a ∈ F.cells j, SameLinks m m' a
  empty : ∀ i, listEmpty m (F.head i) = .ok (decide (F.nodes i = []))

namespace ListFamily

variable {m : Mem} {F : RingFamily ι} (h : ListFamily m F)

include h

theorem insertAfter {i : ι} {node new : ℕ} (hmem : node ∈ F.cells i) (hnew : FreshNode m F new) :
    listInsertAfter m node new = .ok (Ring.insertAfter m node new) ∧
      ListFamily (Ring.insertAfter m node new) (F.insert i node new) := by
  refine ⟨listInsertAfter_eq m (h.notNull i node hmem) hnew.notNull,
    h.toIsRingFamily.insertAfter hmem hnew.ring.head_lt hnew.apart, fun j a ha => ?_⟩
  by_cases hj : j = i
  · subst hj
    rw [RingFamily.insert_cells_self] at ha
    rcases mem_insertBehind.mp ha with ha | ⟨rfl, -⟩
    · exact h.notNull j a ha
    · exact hnew.notNull
  · rw [RingFamily.insert, RingFamily.set_cells_of_ne _ _ hj] at ha
    exact h.notNull j a ha

theorem extract {i : ι} {node : ℕ} (hmem : node ∈ F.nodes i) :
    listExtract m node = .ok (Ring.unlink m node) ∧ ListFamily (Ring.unlink m node) (F.remove i node) := by
  refine ⟨listExtract_eq m (h.notNull i node (List.mem_cons_of_mem _ hmem)) ((h.ring i).next_ne_self hmem),
    h.toIsRingFamily.unlink hmem, fun j a ha => ?_⟩
  by_cases hj : j = i
  · subst hj
    rw [RingFamily.remove, RingFamily.set_cells_self] at ha
    rcases List.mem_cons.mp ha with rfl | ha
    · exact h.notNull j _ List.mem_cons_self
    · exact h.notNull j a (List.mem_cons_of_mem _ (List.mem_of_mem_erase ha))
  · rw [RingFamily.remove, RingFamily.set_cells_of_ne _ _ hj] at ha
    exact h.notNull j a ha

/-- Extraction undoes insertion. -/
theorem extract_inserted {i : ι} {node new : ℕ} (hmem : node ∈ F.cells i) (hnew : FreshNode m F new) :
    ∃ m'', listExtract (Ring.insertAfter m node new) new = .ok m'' ∧ ListFamily m'' F := by
  have hnot : new ∉ F.cells i := fun hin => (hnew.apart i new hin).ne rfl
  obtain ⟨hcall, hlists⟩ := (h.insertAfter hmem hnew).2.extract (F.mem_insert_nodes hmem hnot)
  rw [F.remove_insert hnot] at hlists
  exact ⟨_, hcall, hlists⟩

/-- The functions refine the operations on sequences. -/
theorem refines_sequences : RefinesSequences m F where
  insert i node new hmem hnew := by
    obtain ⟨hcall, hlists⟩ := h.insertAfter hmem hnew
    obtain ⟨m'', hextract, hback⟩ := h.extract_inserted hmem hnew
    refine ⟨_, hcall, hlists, fun j hj a ha => ?_, m'', hextract, fun j => h.sameLinks hback.toIsRingFamily j⟩
    have hsame := h.insertAfter_other hmem hnew.apart hj a ha
    exact ⟨next_congr hsame, prev_congr hsame⟩
  extract i node hmem := by
    obtain ⟨hcall, hlists⟩ := h.extract hmem
    refine ⟨_, hcall, hlists, fun j hj a ha => ?_⟩
    have hsame := h.unlink_other hmem hj a ha
    exact ⟨next_congr hsame, prev_congr hsame⟩
  empty i := listEmpty_of_isRing (h.ring i) (h.notNull i _ List.mem_cons_self)

end ListFamily

/-- Two heads and a node, initialised. -/
def initialisedCells : Mem := [16, 64, 128].foldl Ring.single fun _ => 0

/-- Two empty lists. -/
def twoLists : RingFamily Bool := ⟨fun b => if b then 16 else 64, fun _ => []⟩

theorem initialisedCells_ring : ∀ a ∈ [16, 64, 128], IsRing initialisedCells a [] :=
  IsRing.foldl_single (by decide) (by simp [Apart])

theorem twoLists_family : ListFamily initialisedCells twoLists where
  ring i := by
    cases i with
    | false => exact initialisedCells_ring 64 (by decide)
    | true => exact initialisedCells_ring 16 (by decide)
  apart {i j} hij a ha b hb := by
    rw [List.mem_singleton.mp ha, List.mem_singleton.mp hb]
    cases i <;> cases j <;> simp [twoLists, Apart] at hij ⊢
  notNull i a ha := by
    rw [List.mem_singleton.mp ha]
    cases i <;> decide

/-- A node is put behind the head of the first list. -/
theorem refines_sequences_two : ∃ m', listInsertAfter initialisedCells 16 128 = .ok m' ∧
    ListFamily m' ⟨twoLists.head, fun b => if b then [128] else []⟩ := by
  have hfresh : FreshNode initialisedCells twoLists 128 := by
    refine ⟨initialisedCells_ring 128 (by decide), by decide, fun i a ha => ?_⟩
    rw [List.mem_singleton.mp ha]
    cases i <;> simp [twoLists, Apart]
  obtain ⟨m', hcall, hlists, -⟩ := twoLists_family.refines_sequences.insert true 16 128 (by decide) hfresh
  have hfamily : twoLists.insert true 16 128 = ⟨twoLists.head, fun b => if b then [128] else []⟩ := by
    refine congrArg (RingFamily.mk twoLists.head) (funext fun b => ?_)
    cases b <;> rfl
  exact ⟨m', hcall, hfamily ▸ hlists⟩

end HeavenOS
