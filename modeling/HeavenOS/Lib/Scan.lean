/-
# Walks through records

A loop that goes from one place to the next until it comes to a place where it stops, the way
from each place being given by what is found there. Such a loop ends exactly if it never comes
to a place that leads back to itself, as long as it moves forward from all others.
-/

import Mathlib.Tactic.Common

namespace HeavenOS.Lib

variable {α : Type*} (stop : α → Prop) [DecidablePred stop] (next : α → α)

/-- The places visited from `a` on, up to the first one where the walk stops; nothing if that
takes more than `fuel` places. -/
def scan : (fuel : ℕ) → α → Option (List α)
  | 0, _ => none
  | fuel + 1, a => if stop a then some [a] else (scan fuel (next a)).map (a :: ·)

/-- The walk from `a` comes to a place. -/
inductive Reached (a : α) : α → Prop
  | start : Reached a a
  | next {b : α} : Reached a b → ¬stop b → Reached a (next b)

section Scan

variable {stop next} {a b : α} {fuel : ℕ} {places : List α}

theorem scan_of_stop (h : stop a) (fuel : ℕ) : scan stop next (fuel + 1) a = some [a] := by
  rw [scan, if_pos h]

theorem scan_of_not_stop (h : ¬stop a) (fuel : ℕ) :
    scan stop next (fuel + 1) a = (scan stop next fuel (next a)).map (a :: ·) := by
  rw [scan, if_neg h]

omit [DecidablePred stop] in
theorem reached_iff : Reached stop next a b ↔ b = a ∨ ¬stop a ∧ Reached stop next (next a) b := by
  constructor
  · intro h
    induction h with
    | start => exact Or.inl rfl
    | @next c hc hstop ih =>
        rcases ih with rfl | ⟨hfirst, hrest⟩
        · exact Or.inr ⟨hstop, .start⟩
        · exact Or.inr ⟨hfirst, hrest.next hstop⟩
  · rintro (rfl | ⟨hfirst, h⟩)
    · exact .start
    · induction h with
      | start => exact Reached.start.next hfirst
      | next _ hstop ih => exact ih.next hstop

/-- The places visited are those that the walk comes to. -/
theorem mem_scan (h : scan stop next fuel a = some places) : b ∈ places ↔ Reached stop next a b := by
  induction fuel generalizing a places with
  | zero => cases h
  | succ fuel ih =>
      rw [reached_iff]
      by_cases hstop : stop a
      · rw [scan_of_stop hstop] at h
        obtain rfl := Option.some.inj h
        simp [hstop]
      · rw [scan_of_not_stop hstop] at h
        obtain ⟨rest, hrest, rfl⟩ := Option.map_eq_some_iff.mp h
        rw [List.mem_cons, ih hrest]
        simp [hstop]

theorem scan_ne_nil (h : scan stop next fuel a = some places) : places ≠ [] :=
  List.ne_nil_of_mem ((mem_scan h).mpr .start)

/-- All places visited but the last one are those where the walk does not stop. -/
theorem mem_dropLast_scan (h : scan stop next fuel a = some places) :
    b ∈ places.dropLast ↔ Reached stop next a b ∧ ¬stop b := by
  induction fuel generalizing a places with
  | zero => cases h
  | succ fuel ih =>
      by_cases hstop : stop a
      · rw [scan_of_stop hstop] at h
        obtain rfl := Option.some.inj h
        rw [reached_iff]
        constructor
        · exact fun hb => absurd hb List.not_mem_nil
        · rintro ⟨rfl | hb, hb'⟩
          · exact absurd hstop hb'
          · exact absurd hstop hb.1
      · rw [scan_of_not_stop hstop] at h
        obtain ⟨rest, hrest, rfl⟩ := Option.map_eq_some_iff.mp h
        rw [List.dropLast_cons_of_ne_nil (scan_ne_nil hrest), List.mem_cons, ih hrest, reached_iff (a := a)]
        constructor
        · rintro (rfl | ⟨hb, hb'⟩)
          · exact ⟨Or.inl rfl, hstop⟩
          · exact ⟨Or.inr ⟨hstop, hb⟩, hb'⟩
        · rintro ⟨rfl | hb, hb'⟩
          · exact Or.inl rfl
          · exact Or.inr ⟨hb.2, hb'⟩

/-- A walk that gets closer to its end with every place ends. -/
theorem scan_of_measure (size : α → ℕ) (hless : ∀ b, Reached stop next a b → ¬stop b → size (next b) < size b)
    (hfuel : size a < fuel) : ∃ places, scan stop next fuel a = some places := by
  induction fuel generalizing a with
  | zero => exact absurd hfuel (Nat.not_lt_zero _)
  | succ fuel ih =>
      by_cases hstop : stop a
      · exact ⟨_, scan_of_stop hstop fuel⟩
      · have hnext := hless a .start hstop
        obtain ⟨rest, hrest⟩ := @ih (next a)
          (fun b hb hb' => hless b (reached_iff.mpr (Or.inr ⟨hstop, hb⟩)) hb') (by omega)
        exact ⟨a :: rest, by rw [scan_of_not_stop hstop, hrest]; rfl⟩

/-- A place that leads back to itself is never left. -/
theorem scan_of_stuck (hreached : Reached stop next a b) (hstop : ¬stop b) (hstuck : next b = b) (fuel : ℕ) :
    scan stop next fuel a = none := by
  induction fuel generalizing a with
  | zero => rfl
  | succ fuel ih =>
      rcases reached_iff.mp hreached with rfl | ⟨hfirst, hrest⟩
      · rw [scan_of_not_stop hstop, hstuck, ih .start]
        rfl
      · rw [scan_of_not_stop hfirst, ih hrest]
        rfl

/-- The walk ends, and all places that it comes to are good ones, exactly if they are good ones
and none of them leads back to itself. -/
theorem scan_good_iff (good forward : α → Prop) (size : α → ℕ)
    (hless : ∀ b, Reached stop next a b → good b → ¬stop b → forward b → size (next b) < size b)
    (hstuck : ∀ b, good b → ¬stop b → ¬forward b → next b = b) :
    (∃ fuel places, scan stop next fuel a = some places ∧ ∀ b ∈ places, good b) ↔
      ∀ b, Reached stop next a b → good b ∧ (¬stop b → forward b) := by
  constructor
  · rintro ⟨fuel, places, hscan, hgood⟩ b hb
    have hb' := hgood b ((mem_scan hscan).mpr hb)
    refine ⟨hb', fun hstop => ?_⟩
    by_contra hback
    rw [scan_of_stuck hb hstop (hstuck b hb' hstop hback)] at hscan
    cases hscan
  · intro h
    obtain ⟨places, hscan⟩ := scan_of_measure size
      (fun b hb hstop => hless b hb (h b hb).1 hstop ((h b hb).2 hstop)) (Nat.lt_succ_self (size a))
    exact ⟨_, places, hscan, fun b hb => (h b ((mem_scan hscan).mp hb)).1⟩

/-- The same for the places where the walk does not stop. -/
theorem scan_good_dropLast_iff (good forward : α → Prop) (size : α → ℕ)
    (hless : ∀ b, Reached stop next a b → good b → ¬stop b → forward b → size (next b) < size b)
    (hstuck : ∀ b, good b → ¬stop b → ¬forward b → next b = b) :
    (∃ fuel places, scan stop next fuel a = some places ∧ ∀ b ∈ places.dropLast, good b) ↔
      ∀ b, Reached stop next a b → ¬stop b → good b ∧ forward b := by
  have hiff := scan_good_iff (a := a) (fun b => stop b ∨ good b) forward size
    (fun b hb hgood hstop => hless b hb (hgood.resolve_left hstop) hstop)
    (fun b hgood hstop => hstuck b (hgood.resolve_left hstop) hstop)
  constructor
  · rintro ⟨fuel, places, hscan, hgood⟩ b hb hstop
    have hall : ∀ c ∈ places, stop c ∨ good c := fun c hc => by
      by_cases hc' : stop c
      · exact Or.inl hc'
      · exact Or.inr (hgood c ((mem_dropLast_scan hscan).mpr ⟨(mem_scan hscan).mp hc, hc'⟩))
    obtain ⟨hb', hforward⟩ := hiff.mp ⟨fuel, places, hscan, hall⟩ b hb
    exact ⟨hb'.resolve_left hstop, hforward hstop⟩
  · intro h
    obtain ⟨fuel, places, hscan, hgood⟩ := hiff.mpr fun b hb => ⟨or_iff_not_imp_left.mpr fun hstop => (h b hb hstop).1,
      fun hstop => (h b hb hstop).2⟩
    refine ⟨fuel, places, hscan, fun b hb => ?_⟩
    obtain ⟨hb', hstop⟩ := (mem_dropLast_scan hscan).mp hb
    exact (h b hb' hstop).1

end Scan

end HeavenOS.Lib
