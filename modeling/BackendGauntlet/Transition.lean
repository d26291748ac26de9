import Mathlib.Tactic.Common

/-! Labelled transition systems given by a partial step function. -/
namespace BackendGauntlet.Transition

open Option

variable {σ α : Type*}

inductive Reachable (init : σ → Prop) (step : σ → α → Option σ) (ok : σ → α → Prop) : σ → Prop
  | start (s : σ) (hs : init s) : Reachable init step ok s
  | next (s t : σ) (a : α) (hs : Reachable init step ok s) (ha : ok s a)
      (ht : step s a = some t) : Reachable init step ok t

def anyStep : σ → α → Prop := fun _ _ => True

/-- What holds at the start and is kept by every step holds throughout. -/
theorem reachable_invariant {init : σ → Prop} {step : σ → α → Option σ} {ok : σ → α → Prop}
    (I : σ → Prop) (h0 : ∀ s, init s → I s)
    (hstep : ∀ s t a, I s → ok s a → step s a = some t → I t)
    (s : σ) (hs : Reachable init step ok s) : I s := by
  induction hs with
  | start s hs => exact h0 s hs
  | next s t a _ ha ht ih => exact hstep s t a ih ha ht

def run (step : σ → α → Option σ) : σ → List α → Option σ
  | s, [] => some s
  | s, a :: as => (step s a).bind (fun t => run step t as)

variable (init : σ → Prop)

theorem run_reachable (step : σ → α → Option σ) (as : List α) (s t : σ)
    (hs : Reachable init step anyStep s) (hr : run step s as = some t) :
    Reachable init step anyStep t := by
  induction as generalizing s with
  | nil =>
    cases hr
    exact hs
  | cons a as ih =>
    obtain ⟨u,hu,hr⟩ := bind_eq_some_iff.mp hr
    exact ih u (Reachable.next s u a hs trivial hu) hr

instance decidableExistsSome {o : Option σ} {P : σ → Prop} [DecidablePred P] :
    Decidable (∃ t, o = some t ∧ P t) :=
  decidable_of_iff (o.any (fun t => P t) = true) (by simp [any_eq_true])

/-- A run that computes shows that a state with a property is reachable. -/
theorem reachable_of_run (step : σ → α → Option σ) {P : σ → Prop} [DecidablePred P] (as : List α)
    (s : σ) (hs : init s) (hr : (run step s as).any (fun t => P t) = true) :
    ∃ t, Reachable init step anyStep t ∧ P t := by
  obtain ⟨t,ht,hp⟩ := (any_eq_true _ _).mp hr
  exact ⟨t,run_reachable init step as s t (Reachable.start s hs) ht,of_decide_eq_true hp⟩

def checkedRun (step : σ → α → Option σ) (check : σ → α → Bool) : σ → List α → Option σ
  | s, [] => some s
  | s, a :: as => if check s a then (step s a).bind (fun t => checkedRun step check t as) else none

theorem checkedRun_reachable (step : σ → α → Option σ) (check : σ → α → Bool)
    (as : List α) (s t : σ) (hs : Reachable init step (fun s a => check s a = true) s)
    (hr : checkedRun step check s as = some t) :
    Reachable init step (fun s a => check s a = true) t := by
  induction as generalizing s with
  | nil =>
    cases hr
    exact hs
  | cons a as ih =>
    by_cases hc : check s a = true
    · simp only [checkedRun, hc, if_true] at hr
      obtain ⟨u,hu,hr⟩ := bind_eq_some_iff.mp hr
      exact ih u (Reachable.next s u a hs hc hu) hr
    · simp [checkedRun, hc] at hr

/-- Likewise when every step has to pass a check. -/
theorem reachable_of_checkedRun (step : σ → α → Option σ) (check : σ → α → Bool) {P : σ → Prop}
    [DecidablePred P] (as : List α) (s : σ) (hs : init s)
    (hr : (checkedRun step check s as).any (fun t => P t) = true) :
    ∃ t, Reachable init step (fun s a => check s a = true) t ∧ P t := by
  obtain ⟨t,ht,hp⟩ := (any_eq_true _ _).mp hr
  exact ⟨t,checkedRun_reachable init step check as s t (Reachable.start s hs) ht,
    of_decide_eq_true hp⟩

end BackendGauntlet.Transition
