/-
# Counting loops

A loop that counts from zero and whose body can fail. What the body preserves from one iteration
to the next holds behind the loop.
-/

import HeavenOS.Lib.Buffer

namespace HeavenOS.Lib

variable {σ : Type}

/-- `for (i = 0; i < n; i++)` -/
def forLoop (body : ℕ → σ → Except Fault σ) (s : σ) : ℕ → Except Fault σ
  | 0 => .ok s
  | i + 1 => do
      let s ← forLoop body s i
      body i s

variable {body : ℕ → σ → Except Fault σ} {s : σ} {n : ℕ}

/-- A loop whose states are known. -/
theorem forLoop_eq (state : ℕ → σ) (hstart : state 0 = s) (hbody : ∀ i < n, body i (state i) = .ok (state (i + 1))) :
    forLoop body s n = .ok (state n) := by
  induction n with
  | zero => rw [forLoop, hstart]
  | succ n ih =>
      rw [forLoop, ih fun i hi => hbody i (Nat.lt_succ_of_lt hi)]
      exact hbody n (Nat.lt_succ_self n)

/-- A loop whose body returns as long as an invariant holds. -/
theorem forLoop_ok (inv : ℕ → σ → Prop) (hstart : inv 0 s)
    (hbody : ∀ i < n, ∀ s, inv i s → ∃ s', body i s = .ok s' ∧ inv (i + 1) s') :
    ∃ s', forLoop body s n = .ok s' ∧ inv n s' := by
  induction n with
  | zero => exact ⟨s, rfl, hstart⟩
  | succ n ih =>
      obtain ⟨s', hloop, hinv⟩ := ih fun i hi => hbody i (Nat.lt_succ_of_lt hi)
      obtain ⟨s'', hlast, hinv'⟩ := hbody n (Nat.lt_succ_self n) s' hinv
      exact ⟨s'', by rw [forLoop, hloop]; exact hlast, hinv'⟩

/-- An invariant of the iterations that returned. -/
theorem forLoop_inv {s' : σ} (h : forLoop body s n = .ok s') (inv : ℕ → σ → Prop) (hstart : inv 0 s)
    (hbody : ∀ i < n, ∀ s s', inv i s → body i s = .ok s' → inv (i + 1) s') : inv n s' := by
  induction n generalizing s' with
  | zero =>
      obtain rfl := Except.ok.inj h
      exact hstart
  | succ n ih =>
      rw [forLoop] at h
      cases hloop : forLoop body s n with
      | error e =>
          rw [hloop] at h
          cases h
      | ok s₀ =>
          rw [hloop] at h
          exact hbody n (Nat.lt_succ_self n) s₀ s' (ih hloop fun i hi => hbody i (Nat.lt_succ_of_lt hi)) h

/-- What one iteration establishes and the later ones keep holds behind the loop. -/
theorem forLoop_establish {s' : σ} (h : forLoop body s n = .ok s') (P : σ → Prop) {k : ℕ} (hk : k < n)
    (hset : ∀ s s', body k s = .ok s' → P s')
    (hkeep : ∀ i, k < i → i < n → ∀ s s', P s → body i s = .ok s' → P s') : P s' := by
  refine forLoop_inv h (fun i s => k < i → P s) (fun hlt => absurd hlt (Nat.not_lt_zero k)) (fun i hi s s' hinv hstep hlt => ?_) hk
  rcases Nat.lt_succ_iff_lt_or_eq.mp hlt with hlater | rfl
  · exact hkeep i hlater hi s s' (hinv hlater) hstep
  · exact hset s s' hstep

/-- Every iteration of a loop that returns has returned. -/
theorem forLoop_returned {s' : σ} (h : forLoop body s n = .ok s') {k : ℕ} (hk : k < n) : ∃ s s', body k s = .ok s' :=
  forLoop_establish h (fun _ => ∃ s s', body k s = .ok s') hk (fun s s' hstep => ⟨s, s', hstep⟩) fun _ _ _ _ _ hdone _ => hdone

end HeavenOS.Lib
