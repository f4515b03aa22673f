/-
# Bounded buffers

A buffer is a memory of which only the first bytes may be accessed. Loads and stores at other
indices are faults. Within the bounds a sequence of stores is the block store of a string, and
swapping from both ends, by the three exclusive ors, reverses it.
-/

import HeavenOS.Lib.Mem

namespace HeavenOS.Lib

/-- How a computation can fail to return. -/
inductive Fault where
  /-- An array is accessed outside of its bounds. -/
  | outOfBounds
  /-- A loop has not come to its end within its fuel. -/
  | unfinished
  /-- An argument is missing or of another type. -/
  | badArgument
  | panic (text : String)
  deriving DecidableEq

@[simp]
theorem Fault.ok_bind {α β : Type} (a : α) (f : α → Except Fault β) : ((Except.ok a : Except Fault α) >>= f) = f a := rfl

@[simp]
theorem Fault.error_bind {α β : Type} (e : Fault) (f : α → Except Fault β) :
    ((Except.error e : Except Fault α) >>= f) = .error e := rfl

/-- Peel one step off a computation that returned. -/
theorem Fault.bind_eq_ok {α β : Type} {x : Except Fault α} {f : α → Except Fault β} {b : β} :
    (x >>= f) = .ok b ↔ ∃ a, x = .ok a ∧ f a = .ok b := by
  cases x with
  | error e => simp [bind, Except.bind]
  | ok a => simp [bind, Except.bind]

namespace Mem

/-- Write a string. -/
def storeBytes (m : Mem) (a : ℕ) (l : List (BitVec 8)) : Mem :=
  fun x => if a ≤ x ∧ x < a + l.length then l.getD (x - a) 0 else m x

/-- Exchange two bytes. -/
def swap (m : Mem) (i j : ℕ) : Mem := fun x => if x = i then m j else if x = j then m i else m x

/-- Read a string. -/
def loadBytes (m : Mem) (a n : ℕ) : List (BitVec 8) := (List.range n).map fun i => m (a + i)

/-- Copy a block, all bytes at once. -/
def move (m : Mem) (dst src n : ℕ) : Mem := fun x => if dst ≤ x ∧ x < dst + n then m (src + (x - dst)) else m x

variable (m : Mem) (a : ℕ)

@[simp]
theorem storeBytes_nil : m.storeBytes a [] = m := by
  funext x
  exact if_neg (by simp)

@[simp]
theorem move_zero (dst src : ℕ) : m.move dst src 0 = m := by
  funext x
  exact if_neg (by omega)

theorem storeBytes_cons (c : BitVec 8) (l : List (BitVec 8)) :
    (m.storeByte a c).storeBytes (a + 1) l = m.storeBytes a (c :: l) := by
  funext x
  simp only [storeBytes, storeByte, List.length_cons]
  rcases lt_trichotomy x a with hlt | rfl | hgt
  · rw [if_neg (by omega), if_neg (by omega), if_neg (by omega)]
  · rw [if_neg (by omega), if_pos rfl, if_pos (by omega), Nat.sub_self, List.getD_cons_zero]
  · rw [if_neg (show x ≠ a by omega), show x - a = x - (a + 1) + 1 by omega, List.getD_cons_succ]
    exact if_congr (by omega) rfl rfl

theorem storeBytes_append (l l' : List (BitVec 8)) :
    (m.storeBytes a l).storeBytes (a + l.length) l' = m.storeBytes a (l ++ l') := by
  induction l generalizing m a with
  | nil => simp
  | cons c l ih =>
      rw [← storeBytes_cons, List.length_cons, Nat.add_comm l.length, ← Nat.add_assoc, ih, storeBytes_cons,
        List.cons_append]

theorem storeBytes_add (l : List (BitVec 8)) {i : ℕ} (hi : i < l.length) : m.storeBytes a l (a + i) = l.getD i 0 := by
  rw [storeBytes, if_pos (by omega), Nat.add_sub_cancel_left]

@[simp]
theorem loadBytes_storeBytes (l : List (BitVec 8)) : (m.storeBytes a l).loadBytes a l.length = l := by
  refine List.ext_getElem (by simp [loadBytes]) fun i _ hi => ?_
  simp [loadBytes, storeBytes_add m a l hi, hi]

/-- Exchanging the bytes that mirror each other reverses the string. -/
theorem storeBytes_reverse (l : List (BitVec 8)) (x : ℕ) :
    m.storeBytes a l.reverse x =
      if a ≤ x ∧ x < a + l.length then m.storeBytes a l (2 * a + l.length - 1 - x) else m x := by
  rw [storeBytes, List.length_reverse]
  split_ifs with hx
  · obtain ⟨i, rfl⟩ := Nat.exists_eq_add_of_le hx.1
    rw [show 2 * a + l.length - 1 - (a + i) = a + (l.length - 1 - i) by omega, storeBytes_add m a l (by omega),
      Nat.add_sub_cancel_left, List.getD_eq_getElem?_getD, List.getD_eq_getElem?_getD, List.getElem?_reverse (by omega)]
  · rfl

end Mem

namespace Buffer

/-- Read a byte. -/
def load (cap : ℕ) (m : Mem) (i : ℕ) : Except Fault (BitVec 8) := if i < cap then .ok (m i) else .error .outOfBounds

/-- Write a byte. -/
def store (cap : ℕ) (m : Mem) (i : ℕ) (c : BitVec 8) : Except Fault Mem :=
  if i < cap then .ok (m.storeByte i c) else .error .outOfBounds

/-- `m[i] ^= m[j]` -/
def xorByte (cap : ℕ) (m : Mem) (i j : ℕ) : Except Fault Mem := do
  let x ← load cap m i
  let y ← load cap m j
  store cap m i (x ^^^ y)

/-- Read a string from the beginning, byte by byte. -/
def loadBytes (cap : ℕ) (m : Mem) : ℕ → Except Fault (List (BitVec 8))
  | 0 => .ok []
  | n + 1 => do
      let l ← loadBytes cap m n
      let c ← load cap m n
      return l ++ [c]

variable {cap : ℕ} {m : Mem} {i j : ℕ}

theorem load_of_lt (hi : i < cap) : load cap m i = .ok (m i) := if_pos hi

theorem store_of_lt (hi : i < cap) (c : BitVec 8) : store cap m i c = .ok (m.storeByte i c) := if_pos hi

theorem store_of_ge (hi : cap ≤ i) (c : BitVec 8) : store cap m i c = .error .outOfBounds := if_neg (Nat.not_lt.mpr hi)

theorem xorByte_of_lt (hi : i < cap) (hj : j < cap) : xorByte cap m i j = .ok (m.storeByte i (m i ^^^ m j)) := by
  rw [xorByte, load_of_lt hi, load_of_lt hj]
  exact store_of_lt hi _

/-- The three exclusive ors exchange two different bytes. -/
theorem xorByte_swap (hi : i < cap) (hj : j < cap) (hne : i ≠ j) :
    (do
      let m ← xorByte cap m i j
      let m ← xorByte cap m j i
      xorByte cap m i j) = .ok (m.swap i j) := by
  rw [xorByte_of_lt hi hj]
  simp only [bind, Except.bind]
  rw [xorByte_of_lt hj hi]
  simp only
  rw [xorByte_of_lt hi hj]
  congr 1
  funext x
  by_cases hxi : x = i
  · subst hxi
    simp only [Mem.storeByte, Mem.swap, hne, Ne.symm hne, if_false, if_true]
    grind
  · by_cases hxj : x = j
    · subst hxj
      simp only [Mem.storeByte, Mem.swap, hne, Ne.symm hne, if_false, if_true]
      grind
    · simp [Mem.storeByte, Mem.swap, hxi, hxj]

theorem loadBytes_of_le {n : ℕ} (hn : n ≤ cap) : loadBytes cap m n = .ok (m.loadBytes 0 n) := by
  induction n with
  | zero => rfl
  | succ n ih =>
      rw [loadBytes, ih (by omega), load_of_lt (by omega)]
      simp [bind, Except.bind, pure, Except.pure, Mem.loadBytes, List.range_succ]

theorem loadBytes_of_gt {n : ℕ} (hn : cap < n) : loadBytes cap m n = .error .outOfBounds := by
  induction n with
  | zero => exact absurd hn (Nat.not_lt_zero _)
  | succ n ih =>
      rw [loadBytes]
      by_cases hlt : cap < n
      · rw [ih hlt]
        rfl
      · rw [loadBytes_of_le (by omega), load, if_neg (by omega)]
        rfl

end Buffer

end HeavenOS.Lib
