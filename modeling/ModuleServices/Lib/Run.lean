import Mathlib.Tactic.Common

/-!
# Runs of a partial step function

A system is given by `step : σ → α → Option σ`, where `none` says that the action
is not enabled. `exec` follows a list of actions and is what a concrete trace is
evaluated with; `Within` is reachability by a run whose every step meets a
condition `C` on the state before it and the action taken. The condition `True`
gives plain reachability.
-/

namespace Run

variable {σ α : Type*} {step : σ → α → Option σ} {C D : σ → α → Prop} {s₀ s s' : σ}

/-- Follow a list of actions, as long as each is enabled. -/
def exec (step : σ → α → Option σ) : σ → List α → Option σ
  | s, [] => some s
  | s, a :: as => (step s a).bind fun s' => exec step s' as

/-- Reached from `s₀` by a run whose every step meets `C`. -/
inductive Within (step : σ → α → Option σ) (C : σ → α → Prop) (s₀ : σ) : σ → Prop where
  | start : Within step C s₀ s₀
  | next {s s' : σ} {a : α} :
      Within step C s₀ s → C s a → step s a = some s' → Within step C s₀ s'

/-- Reached from `s₀` by any run. -/
abbrev Reachable (step : σ → α → Option σ) (s₀ : σ) : σ → Prop :=
  Within step (fun _ _ => True) s₀

/-- **The invariant rule.** What holds first and survives every step holds throughout. -/
theorem Within.invariant {I : σ → Prop} (h₀ : I s₀)
    (hstep : ∀ {s a s'}, Within step C s₀ s → I s → C s a → step s a = some s' → I s')
    (h : Within step C s₀ s) : I s := by
  induction h with
  | start => exact h₀
  | next hr hc hs ih => exact hstep hr ih hc hs

theorem Within.mono (hCD : ∀ s a, C s a → D s a) (h : Within step C s₀ s) :
    Within step D s₀ s := by
  induction h with
  | start => exact .start
  | next _ hc hs ih => exact .next ih (hCD _ _ hc) hs

theorem Within.reachable (h : Within step C s₀ s) : Reachable step s₀ s :=
  h.mono fun _ _ _ => trivial

theorem Within.trans {t : σ} (h : Within step C s₀ s) (h' : Within step C s t) :
    Within step C s₀ t := by
  induction h' with
  | start => exact h
  | next _ hc hs ih => exact .next ih hc hs

/-- Every step of a trace meets `C`. -/
def Meets (step : σ → α → Option σ) (C : σ → α → Prop) : σ → List α → Prop
  | _, [] => True
  | s, a :: as => C s a ∧ ∀ s', step s a = some s' → Meets step C s' as

/-- A trace that evaluates and meets `C` throughout is a run within `C`. -/
theorem exec_within {as : List α} (h : exec step s₀ as = some s) (hC : Meets step C s₀ as) :
    Within step C s₀ s := by
  induction as generalizing s₀ with
  | nil =>
    cases h
    exact .start
  | cons a as ih =>
    obtain ⟨s₁, h₁, h₂⟩ := Option.bind_eq_some_iff.mp h
    exact .trans (.next .start hC.1 h₁) (ih h₂ (hC.2 s₁ h₁))

/-- A trace that evaluates is a run. -/
theorem exec_reachable {as : List α} (h : exec step s₀ as = some s) : Reachable step s₀ s := by
  refine exec_within h ?_
  clear h
  induction as generalizing s₀ with
  | nil => exact trivial
  | cons a as ih => exact ⟨trivial, fun s' _ => ih⟩

/-- The steps that pass an executable check. -/
def checked (step : σ → α → Option σ) (check : σ → α → Bool) (s : σ) (a : α) : Option σ :=
  if check s a then step s a else none

/-- A trace that passes a check stronger than `C` is a run within `C`. -/
theorem exec_checked_within {check : σ → α → Bool} {as : List α}
    (hC : ∀ s a, check s a = true → C s a) (h : exec (checked step check) s₀ as = some s) :
    Within step C s₀ s := by
  induction as generalizing s₀ with
  | nil =>
    cases h
    exact .start
  | cons a as ih =>
    obtain ⟨s₁, h₁, h₂⟩ := Option.bind_eq_some_iff.mp h
    unfold checked at h₁
    split at h₁
    · exact .trans (.next .start (hC _ _ ‹_›) h₁) (ih h₂)
    · cases h₁

end Run
