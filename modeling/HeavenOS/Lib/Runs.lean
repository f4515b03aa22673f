/-
# Runs of a labelled transition system

A run is a finite sequence of labelled steps. It grows at its end, so an
invariant is proved by one step lemma and `Run.invariant`. Every prefix of a run
is a run, and a statement about the last state of all runs is therefore a
statement about every state on the way.
-/

import Mathlib.Tactic.Common

namespace HeavenOS.Lib

variable {σ ℓ : Type*}

/-- `Run step s labels t`: the steps with these labels lead from `s` to `t`. -/
inductive Run (step : σ → ℓ → σ → Prop) (s : σ) : List ℓ → σ → Prop
  | nil : Run step s [] s
  | snoc {labels : List ℓ} {t u : σ} {label : ℓ} :
      Run step s labels t → step t label u → Run step s (labels ++ [label]) u

namespace Run

variable {step : σ → ℓ → σ → Prop} {s t u : σ} {labels : List ℓ} {label : ℓ}

/-- What holds at the start and survives every step holds at the end. -/
theorem invariant (inv : σ → Prop) (hrun : Run step s labels t) (hstart : inv s)
    (hstep : ∀ a l b, inv a → step a l b → inv b) : inv t := by
  induction hrun with
  | nil => exact hstart
  | snoc _ hlast ih => exact hstep _ _ _ ih hlast

theorem trans {labels' : List ℓ} (hrun : Run step s labels t) (hrun' : Run step t labels' u) :
    Run step s (labels ++ labels') u := by
  induction hrun' with
  | nil => simpa using hrun
  | snoc _ hlast ih => exact List.append_assoc _ _ _ ▸ ih.snoc hlast

/-- Steps that are also steps of another system. -/
theorem mono {step' : σ → ℓ → σ → Prop} (hrun : Run step s labels t) (hstep : ∀ a l b, step a l b → step' a l b) :
    Run step' s labels t := by
  induction hrun with
  | nil => exact nil
  | snoc _ hlast ih => exact ih.snoc (hstep _ _ _ hlast)

theorem single (step : σ → ℓ → σ → Prop) (h : step s label t) : Run step s [label] t :=
  Run.nil.snoc h

end Run

end HeavenOS.Lib
