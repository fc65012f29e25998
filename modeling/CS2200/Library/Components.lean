import Mathlib.Algebra.BigOperators.Group.Finset.Basic

/-!
# Systems of independent components

Every label of a trace moves one component of a system and costs something there. The components
then move as if each had its own labels only, and the cost of a trace is the sum of the costs of the
components.
-/

namespace CS2200
namespace Components

variable {ι σ α M : Type*} [DecidableEq ι] [AddCommMonoid M]
  (place : α → ι) (next : σ → α → σ) (cost : σ → α → M)

/-- A label moves the component at its place. -/
def step (system : (ι → σ) × M) (label : α) : (ι → σ) × M :=
  (Function.update system.1 (place label) (next (system.1 (place label)) label),
    system.2 + cost (system.1 (place label)) label)

/-- The labels of one component. -/
def labelsOf (labels : List α) (i : ι) : List α := labels.filter fun label => place label = i

variable {place next cost}

theorem labelsOf_append (labels : List α) (label : α) (i : ι) :
    labelsOf place (labels ++ [label]) i =
      labelsOf place labels i ++ if place label = i then [label] else [] := by
  rw [labelsOf, List.filter_append]
  by_cases here : place label = i <;> simp [labelsOf, here]

/-- A component moves as if there were no labels of others. -/
theorem foldl_component (labels : List α) (system : (ι → σ) × M) (i : ι) :
    (labels.foldl (step place next cost) system).1 i =
      ((labelsOf place labels i).foldl (step place next cost) system).1 i := by
  induction labels using List.reverseRecOn with
  | nil => rfl
  | append_singleton labels label ih =>
      rw [labelsOf_append, List.foldl_append, List.foldl_append]
      by_cases here : place label = i
      · subst here
        simp [step, ih]
      · simp [step, here, Function.update_of_ne (Ne.symm here), ih]

/-- The cost of a trace is the sum of the costs of the components. -/
theorem foldl_cost (start : ι → σ) {places : Finset ι} (labels : List α)
    (inside : ∀ label ∈ labels, place label ∈ places) :
    (labels.foldl (step place next cost) (start, 0)).2 =
      ∑ i ∈ places, ((labelsOf place labels i).foldl (step place next cost) (start, 0)).2 := by
  induction labels using List.reverseRecOn with
  | nil => simp [labelsOf]
  | append_singleton labels label ih =>
      have earlier := ih fun other member => inside other (List.mem_append_left _ member)
      have member : place label ∈ places := inside label (by simp)
      have others : ∀ i ∈ places.erase (place label),
          ((labelsOf place (labels ++ [label]) i).foldl (step place next cost) (start, 0)).2 =
            ((labelsOf place labels i).foldl (step place next cost) (start, 0)).2 := by
        intro i other
        rw [labelsOf_append, if_neg (Finset.ne_of_mem_erase other).symm, List.append_nil]
      rw [List.foldl_append, List.foldl_cons, List.foldl_nil, step, earlier,
        ← Finset.add_sum_erase _ _ member, ← Finset.add_sum_erase places _ member,
        Finset.sum_congr rfl others, labelsOf_append, if_pos rfl, List.foldl_append,
        List.foldl_cons, List.foldl_nil, step, foldl_component]
      exact add_right_comm ..

end Components
end CS2200
