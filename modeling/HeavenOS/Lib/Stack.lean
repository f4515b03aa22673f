/-
# A stack in memory

A machine with registers, a stack pointer and a memory, and what sequences of pushes and
pops do to it. Registers come from an arbitrary type; the stack pointer is not one of them.
The words of a frame are listed by ascending address, and so a sequence of pushes leaves its
words in reverse. Addresses are natural numbers: a client keeps its stacks away from zero.
-/

import HeavenOS.Lib.Mem
import Mathlib.Tactic.Common

namespace HeavenOS.Lib

/-- The words at `a`, `a + 8` and so on. -/
def Frame (m : Mem) (a : ℕ) (words : List (BitVec 64)) : Prop :=
  ∀ i (hi : i < words.length), m.loadWord (a + 8 * i) = words[i]

namespace Frame

variable {m m' : Mem} {a : ℕ} {words words' : List (BitVec 64)}

/-- A frame depends on its own bytes only. -/
theorem congr (h : Frame m a words) (hsame : ∀ x, a ≤ x → x < a + 8 * words.length → m' x = m x) :
    Frame m' a words := fun i hi => by
  rw [← h i hi]
  exact Mem.loadWord_congr fun x hlo hhi => hsame x (by omega) (by omega)

theorem nil (m : Mem) (a : ℕ) : Frame m a [] := fun _ hi => absurd hi (Nat.not_lt_zero _)

theorem cons_iff {w : BitVec 64} : Frame m a (w :: words) ↔ m.loadWord a = w ∧ Frame m (a + 8) words := by
  constructor
  · intro h
    refine ⟨h 0 (Nat.succ_pos _), fun i hi => ?_⟩
    rw [show a + 8 + 8 * i = a + 8 * (i + 1) by omega]
    exact h (i + 1) (Nat.succ_lt_succ hi)
  · rintro ⟨hw, h⟩ i hi
    cases i with
    | zero => exact hw
    | succ i =>
        rw [show a + 8 * (i + 1) = a + 8 + 8 * i by omega]
        exact h i (Nat.lt_of_succ_lt_succ hi)

theorem append_iff : Frame m a (words ++ words') ↔ Frame m a words ∧ Frame m (a + 8 * words.length) words' := by
  induction words generalizing a with
  | nil => exact ⟨fun h => ⟨nil m a, h⟩, fun h => h.2⟩
  | cons w words ih =>
      rw [List.cons_append, cons_iff, cons_iff, ih, List.length_cons, and_assoc,
        show a + 8 + 8 * words.length = a + 8 * (words.length + 1) by omega]

/-- Writing one word of a frame. -/
theorem set (h : Frame m a words) {i : ℕ} (w : BitVec 64) :
    Frame (m.storeWord (a + 8 * i) w) a (words.set i w) := fun j hj => by
  rw [List.length_set] at hj
  by_cases hij : i = j
  · subst hij
    rw [Mem.loadWord_storeWord_self, List.getElem_set_self]
  · rw [Mem.loadWord_storeWord_of_disjoint _ _ (by omega), List.getElem_set_ne hij]
    exact h j hj

/-- A frame copied elsewhere. -/
theorem copy (h : Frame m a words) {b : ℕ} (hsame : ∀ i, i < 8 * words.length → m' (b + i) = m (a + i)) :
    Frame m' b words := fun i hi => by
  rw [← h i hi]
  have hbyte (j : ℕ) (hj : j < 8) : m' (b + 8 * i + j) = m (a + 8 * i + j) := by
    rw [Nat.add_assoc, Nat.add_assoc]
    exact hsame _ (by omega)
  have hzero := hbyte 0 (by decide)
  simp only [Nat.add_zero] at hzero
  unfold Mem.loadWord
  rw [hbyte 7 (by decide), hbyte 6 (by decide), hbyte 5 (by decide), hbyte 4 (by decide), hbyte 3 (by decide),
    hbyte 2 (by decide), hbyte 1 (by decide), hzero]

end Frame

/-- Registers `ρ`, a stack pointer and a memory. -/
structure StackMachine (ρ : Type) where
  regs : ρ → BitVec 64
  sp : ℕ
  mem : Mem

namespace StackMachine

variable {ρ : Type} [DecidableEq ρ]

def push (s : StackMachine ρ) (w : BitVec 64) : StackMachine ρ :=
  { s with sp := s.sp - 8, mem := s.mem.storeWord (s.sp - 8) w }

def pop (s : StackMachine ρ) (r : ρ) : StackMachine ρ :=
  { s with regs := Function.update s.regs r (s.mem.loadWord s.sp), sp := s.sp + 8 }

/-- The words are pushed in this order. -/
def pushAll (s : StackMachine ρ) (words : List (BitVec 64)) : StackMachine ρ := words.foldl push s

/-- The registers are popped in this order. -/
def popAll (s : StackMachine ρ) (rs : List ρ) : StackMachine ρ := rs.foldl pop s

/-! ## Pushing -/

section Push

omit [DecidableEq ρ]

theorem pushAll_append (s : StackMachine ρ) (words words' : List (BitVec 64)) :
    s.pushAll (words ++ words') = (s.pushAll words).pushAll words' := List.foldl_append

@[simp]
theorem pushAll_regs (s : StackMachine ρ) (words : List (BitVec 64)) : (s.pushAll words).regs = s.regs := by
  induction words generalizing s with
  | nil => rfl
  | cons w words ih => exact ih (s.push w)

theorem pushAll_sp (s : StackMachine ρ) (words : List (BitVec 64)) :
    (s.pushAll words).sp = s.sp - 8 * words.length := by
  induction words generalizing s with
  | nil => rfl
  | cons w words ih =>
      rw [show s.pushAll (w :: words) = (s.push w).pushAll words from rfl, ih, List.length_cons]
      simp only [push]
      omega

theorem pushAll_mem_of_outside (s : StackMachine ρ) {words : List (BitVec 64)} (hroom : 8 * words.length ≤ s.sp)
    {x : ℕ} (hout : x < s.sp - 8 * words.length ∨ s.sp ≤ x) : (s.pushAll words).mem x = s.mem x := by
  induction words generalizing s with
  | nil => rfl
  | cons w words ih =>
      rw [List.length_cons] at hroom hout
      rw [show s.pushAll (w :: words) = (s.push w).pushAll words from rfl,
        ih _ (by simp only [push]; omega) (by simp only [push]; omega)]
      exact Mem.storeWord_of_outside _ _ (by omega)

/-- What has been pushed lies on the stack in reverse. -/
theorem pushAll_frame (s : StackMachine ρ) {words : List (BitVec 64)} (hroom : 8 * words.length ≤ s.sp) :
    Frame (s.pushAll words).mem (s.sp - 8 * words.length) words.reverse := by
  induction words generalizing s with
  | nil => exact Frame.nil _ _
  | cons w words ih =>
      rw [List.length_cons] at hroom
      have hsp : (s.push w).sp = s.sp - 8 := rfl
      have hrest := ih (s.push w) (by rw [hsp]; omega)
      rw [hsp, show s.sp - 8 - 8 * words.length = s.sp - 8 * (words.length + 1) by omega] at hrest
      rw [show s.pushAll (w :: words) = (s.push w).pushAll words from rfl, List.reverse_cons, List.length_cons,
        Frame.append_iff, List.length_reverse,
        show s.sp - 8 * (words.length + 1) + 8 * words.length = s.sp - 8 by omega]
      refine ⟨hrest, Frame.cons_iff.mpr ⟨?_, Frame.nil _ _⟩⟩
      rw [Mem.loadWord_congr fun x _ _ => pushAll_mem_of_outside (s.push w) (by rw [hsp]; omega) (by rw [hsp]; omega)]
      exact Mem.loadWord_storeWord_self _ _ _

end Push

/-! ## Popping -/

@[simp]
theorem popAll_mem (s : StackMachine ρ) (rs : List ρ) : (s.popAll rs).mem = s.mem := by
  induction rs generalizing s with
  | nil => rfl
  | cons r rs ih => exact ih (s.pop r)

theorem popAll_sp (s : StackMachine ρ) (rs : List ρ) : (s.popAll rs).sp = s.sp + 8 * rs.length := by
  induction rs generalizing s with
  | nil => rfl
  | cons r rs ih =>
      rw [show s.popAll (r :: rs) = (s.pop r).popAll rs from rfl, ih, List.length_cons]
      simp only [pop]
      omega

/-- Popping a frame that holds a value for each of the registers. -/
theorem popAll_regs (s : StackMachine ρ) {rs : List ρ} (v : ρ → BitVec 64) (h : Frame s.mem s.sp (rs.map v)) (r : ρ) :
    (s.popAll rs).regs r = if r ∈ rs then v r else s.regs r := by
  induction rs generalizing s with
  | nil => rfl
  | cons r' rs ih =>
      obtain ⟨hw, hrest⟩ := Frame.cons_iff.mp h
      rw [show s.popAll (r' :: rs) = (s.pop r').popAll rs from rfl, ih (s.pop r') hrest, pop]
      simp only [List.mem_cons, Function.update_apply]
      by_cases hmem : r ∈ rs
      · rw [if_pos hmem, if_pos (Or.inr hmem)]
      · by_cases hr : r = r'
        · rw [if_neg hmem, if_pos hr, if_pos (Or.inl hr), hw, hr]
        · rw [if_neg hmem, if_neg hr, if_neg (by simp [hr, hmem])]

end StackMachine

end HeavenOS.Lib
