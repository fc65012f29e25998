import Mathlib.Logic.Relation

/-!
# Conditions that lead to conditions

`Leads step before after` is a triple of total correctness for a transition relation: an execution
goes from every state with `before` to a state with `after`. Its rules put the blocks of a program
in sequence and count a loop down.
-/

namespace CS2200

/-- From every state with `before`, an execution gets to a state with `after`. -/
def Leads {σ : Type*} (step : σ → σ → Prop) (before after : σ → Prop) : Prop :=
  ∀ state, before state → ∃ final, Relation.ReflTransGen step state final ∧ after final

namespace Leads

variable {σ : Type*} {step : σ → σ → Prop} {before middle after : σ → Prop}

theorem of_imp (implies : ∀ state, before state → after state) : Leads step before after :=
  fun state holds => ⟨state, .refl, implies state holds⟩

theorem single (goes : ∀ state, before state → ∃ next, step state next ∧ after next) :
    Leads step before after := by
  intro state holds
  obtain ⟨next, takes, holdsNext⟩ := goes state holds
  exact ⟨next, .single takes, holdsNext⟩

theorem trans (first : Leads step before middle) (second : Leads step middle after) :
    Leads step before after := by
  intro state holds
  obtain ⟨next, path, holdsNext⟩ := first state holds
  obtain ⟨final, rest, holdsFinal⟩ := second next holdsNext
  exact ⟨final, path.trans rest, holdsFinal⟩

theorem weaken (leads : Leads step before middle) (implies : ∀ state, middle state → after state) :
    Leads step before after :=
  leads.trans (of_imp implies)

/-- A loop whose rounds count down ends with the counter at zero. -/
theorem countdown {counted : Nat → σ → Prop} {start : Nat}
    (round : ∀ counter < start, Leads step (counted (counter + 1)) (counted counter)) :
    Leads step (counted start) (counted 0) := by
  induction start with
  | zero => exact of_imp fun _ holds => holds
  | succ start ih =>
      exact (round start (Nat.lt_succ_self start)).trans
        (ih fun counter below => round counter (Nat.lt_succ_of_lt below))

end Leads
end CS2200
