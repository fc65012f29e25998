import Mathlib.Data.List.Induction

/-!
# Labelled executions

A `Trace` is a finite execution of a labelled transition relation together with the list of labels
it performs, oldest first. The rules below are the induction principles that developments about
state machines need: an invariant of every step holds at the end of every trace.
-/

namespace CS2200

/-- Executions of `step` from `initial`, indexed by their labels and their last state. -/
inductive Trace {σ α : Type*} (step : σ → α → σ → Prop) (initial : σ) : List α → σ → Prop
  | nil : Trace step initial [] initial
  | snoc {labels : List α} {label : α} {before after : σ} :
      Trace step initial labels before →
      step before label after →
      Trace step initial (labels ++ [label]) after

namespace Trace

variable {σ α : Type*} {step : σ → α → σ → Prop} {initial final : σ} {labels : List α}

/-- What holds initially and is kept by every step holds at the end of every trace. -/
theorem invariant {property : σ → Prop} (trace : Trace step initial labels final)
    (start : property initial)
    (preserved : ∀ {before label after}, property before → step before label after →
      property after) : property final := by
  induction trace with
  | nil => exact start
  | snoc _ last ih => exact preserved ih last

theorem of_foldlM {next : σ → α → Option σ} (folds : labels.foldlM next initial = some final) :
    Trace (fun before label after => next before label = some after) initial labels final := by
  induction labels using List.reverseRecOn generalizing final with
  | nil =>
      obtain rfl := Option.some.inj folds
      exact .nil
  | append_singleton labels label ih =>
      rw [List.foldlM_append] at folds
      obtain ⟨middle, earlier, last⟩ := Option.bind_eq_some_iff.mp folds
      exact .snoc (ih earlier) (by simpa using last)

private theorem foldlM_eq {next : σ → α → Option σ}
    (trace : Trace (fun before label after => next before label = some after) initial labels final) :
    labels.foldlM next initial = some final := by
  induction trace with
  | nil => rfl
  | snoc _ last ih =>
      rw [List.foldlM_append, ih]
      simpa using last

theorem append {middle : σ} {first second : List α} (left : Trace step initial first middle)
    (right : Trace step middle second final) : Trace step initial (first ++ second) final := by
  induction right with
  | nil => simpa using left
  | snoc _ last ih =>
      rw [← List.append_assoc]
      exact ih.snoc last

theorem mono {weaker : σ → α → σ → Prop} (trace : Trace step initial labels final)
    (implies : ∀ {before label after}, step before label after → weaker before label after) :
    Trace weaker initial labels final := by
  induction trace with
  | nil => exact .nil
  | snoc _ last ih => exact ih.snoc (implies last)

end Trace

/-! ## Runs that keep to a condition -/

section Conditions

variable {σ α : Type*} (step : σ → α → σ → Prop) (initial : σ) (labels : List α)

/-- Every state that a run reaches is good. -/
def Always (good : σ → Prop) : Prop :=
  ∀ earlier, earlier <+: labels → ∀ state, Trace step initial earlier state → good state

/-- Every step that a run takes is allowed where it is taken. -/
def Respects (allowed : σ → α → Prop) : Prop :=
  ∀ earlier label, earlier ++ [label] <+: labels → ∀ before after,
    Trace step initial earlier before → step before label after → allowed before label

end Conditions

section Rules

variable {σ α : Type*} {step : σ → α → σ → Prop} {initial : σ} {labels : List α}
  {property good : σ → Prop} {promised allowed : σ → α → Prop}

/-- What holds initially and is kept by every step that is allowed holds in every state. -/
theorem Respects.always (respects : Respects step initial labels allowed)
    (start : property initial)
    (preserved : ∀ {before label after}, property before → allowed before label →
      step before label after → property after) : Always step initial labels property := by
  intro earlier part state trace
  induction trace with
  | nil => exact start
  | snoc trace last ih =>
      have before := ih ((List.prefix_append _ _).trans part)
      exact preserved before (respects _ _ part _ _ trace last) last

/-- Whether all steps of a run of a partial function are allowed can be computed. -/
theorem Respects.of_foldlM {next : σ → α → Option σ}
    [∀ state label, Decidable (allowed state label)]
    (checks : (labels.foldlM (fun state label =>
      if allowed state label then next state label else none) initial).isSome) :
    Respects (fun before label after => next before label = some after) initial labels allowed := by
  rintro earlier label ⟨later, rfl⟩ before after trace -
  obtain ⟨final, folds⟩ := Option.isSome_iff_exists.mp checks
  rw [List.append_assoc, List.foldlM_append] at folds
  obtain ⟨middle, first, folds⟩ := Option.bind_eq_some_iff.mp folds
  obtain ⟨second, checked, -⟩ := Option.bind_eq_some_iff.mp (by simpa using folds)
  have run := (Trace.of_foldlM first).mono fun step => (Option.ite_none_right_eq_some.mp step).2
  obtain rfl := Option.some.inj (run.foldlM_eq.symm.trans trace.foldlM_eq)
  exact (Option.ite_none_right_eq_some.mp checked).1

/-- If an invariant is kept by the allowed steps, and a step that is not allowed shows in the state
it leads to, then all states are good exactly when all steps are allowed. -/
theorem always_iff_respects (promises : Respects step initial labels promised)
    (start : property initial)
    (preserved : ∀ {before label after}, property before → promised before label →
      allowed before label → step before label after → property after)
    (isGood : ∀ {state}, property state → good state)
    (shows : ∀ {before label after}, property before → promised before label →
      step before label after → good after → allowed before label) :
    Always step initial labels good ↔ Respects step initial labels allowed := by
  constructor
  · intro always
    have invariant : Always step initial labels property := by
      intro earlier part state trace
      induction trace with
      | nil => exact start
      | snoc trace last ih =>
          have before := ih ((List.prefix_append _ _).trans part)
          have promise := promises _ _ part _ _ trace last
          have after := always _ part _ (trace.snoc last)
          exact preserved before promise (shows before promise last after) last
    intro earlier label part before after trace last
    have holds := invariant earlier ((List.prefix_append _ _).trans part) before trace
    exact shows holds (promises _ _ part _ _ trace last) last (always _ part _ (trace.snoc last))
  · intro respects earlier part state trace
    have both : Respects step initial labels fun before label =>
        promised before label ∧ allowed before label := fun earlier label part before after trace
      last => ⟨promises _ _ part _ _ trace last, respects _ _ part _ _ trace last⟩
    have invariant := both.always start fun holds allows last =>
      preserved holds allows.1 allows.2 last
    exact isGood (invariant earlier part state trace)

end Rules

end CS2200
