/-
# The intrusive list of `utils/list.c`

A `list_node_t` is a `next` and a `prev` pointer, so the four functions are the
pointer updates of `Lib.Ring` behind their assertions. Each has one equation that
says which assertions it needs; the ring lemmas then apply to its result.
-/

import HeavenOS.Common
import HeavenOS.Lib.Ring

namespace HeavenOS

open Lib Lib.Ring

/-- `list_empty` -/
def listEmpty (m : Mem) (node : ℕ) : Except Panic Bool := do
  kassert (node ≠ 0) "node != ((void *)0)"
  return decide (next m node = node)

/-- `list_init` -/
def listInit (m : Mem) (node : ℕ) : Except Panic Mem := do
  kassert (node ≠ 0) "node != ((void *)0)"
  let m := setNext m node node
  return setPrev m node node

/-- `list_insert_after` -/
def listInsertAfter (m : Mem) (node new : ℕ) : Except Panic Mem := do
  kassert (node ≠ 0) "node != ((void *)0)"
  kassert (new ≠ 0) "new != ((void *)0)"
  let oldListNext := next m node
  let m := setNext m node new
  let m := setPrev m new node
  let m := setNext m new oldListNext
  return setPrev m oldListNext new

/-- `list_extract` -/
def listExtract (m : Mem) (node : ℕ) : Except Panic Mem := do
  kassert (node ≠ 0) "node != ((void *)0)"
  kassert (!(← listEmpty m node)) "!list_empty(node)"
  let prevElem := prev m node
  let nextElem := next m node
  let m := setNext m prevElem nextElem
  return setPrev m nextElem prevElem

theorem listEmpty_eq (m : Mem) {node : ℕ} (hnode : node ≠ 0) :
    listEmpty m node = .ok (decide (next m node = node)) := by
  rw [listEmpty, kassert_of_true hnode]
  rfl

theorem listInit_eq (m : Mem) {node : ℕ} (hnode : node ≠ 0) :
    listInit m node = .ok (Ring.single m node) := by
  rw [listInit, kassert_of_true hnode]
  rfl

theorem listInsertAfter_eq (m : Mem) {node new : ℕ} (hnode : node ≠ 0) (hnew : new ≠ 0) :
    listInsertAfter m node new = .ok (Ring.insertAfter m node new) := by
  rw [listInsertAfter, kassert_of_true hnode, kassert_of_true hnew]
  rfl

theorem listExtract_eq (m : Mem) {node : ℕ} (hnode : node ≠ 0) (hnext : next m node ≠ node) :
    listExtract m node = .ok (Ring.unlink m node) := by
  rw [listExtract, kassert_of_true hnode, listEmpty_eq m hnode, ok_bind, ok_bind,
    kassert_of_true (by simpa using hnext)]
  rfl

/-- On a ring, `list_empty` of the head says whether the ring has a node. -/
theorem listEmpty_of_isRing {m : Mem} {head : ℕ} {nodes : List ℕ} (h : IsRing m head nodes)
    (hhead : head ≠ 0) : listEmpty m head = .ok (decide (nodes = [])) := by
  rw [listEmpty_eq m hhead]
  simp only [h.next_head_eq_iff]

end HeavenOS
