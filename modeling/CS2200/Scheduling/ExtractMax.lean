import CS2200.Scheduling.Refinement

/-!
# Extracting a process of highest priority

The documented priorities begin with 0, but `gethighestone` looks for a priority above 0. In a list
of several processes that all have priority 0 it finds none, and goes on with an uninitialised
pointer. Otherwise it removes the first process of highest priority.
-/

namespace CS2200.Scheduling

open LinkedList

/-- The process that is removed from a ready list, none from the empty one, and the state after. -/
inductive Extracts (state after : State) : List Nat → Option Nat → Prop
  /-- Nothing changes. -/
  | empty : after = state → Extracts state after [] none
  /-- The first process of highest priority leaves, and the others stay in their order. -/
  | highest {earlier : List Nat} {p : Nat} {later : List Nat} :
      (∀ q ∈ earlier, (state.pcbs q).staticPriority < (state.pcbs p).staticPriority) →
      (∀ q ∈ later, (state.pcbs q).staticPriority ≤ (state.pcbs p).staticPriority) →
      IsList after.next after.qHead (earlier ++ later) → LinksOnly state after →
      Extracts state after (earlier ++ p :: later) (some p)

section ExtractMax

variable {config : Config} {state : State} {ready : List Nat}

/-- Without a positive priority the scan finds nothing. -/
theorem foldl_higher_of_zero (zero : ∀ p ∈ ready, (state.pcbs p).staticPriority = 0) :
    ready.foldl (higher state) (0, none) = (0, none) := by
  rcases foldl_higher state ready (0, none) with ⟨same, -⟩ | ⟨earlier, p, later, split, -, above, -⟩
  · exact same
  · have none : (state.pcbs p).staticPriority = 0 := zero p (by rw [split]; simp)
    omega

private theorem gethighestone_eq_none (list : IsList state.next state.qHead ready)
    (inRange : ∀ p ∈ ready, p < config.processCount) (several : 1 < ready.length)
    (zero : ∀ p ∈ ready, (state.pcbs p).staticPriority = 0) : gethighestone config state = none := by
  cases ready with
  | nil => simp at several
  | cons first rest =>
      have head : state.qHead = some first := list.1
      have single : state.next first ≠ none := fun ends => by
        have empty : rest = [] := list.2.head_eq_none_iff.mp ends
        simp [empty] at several
      have scan := list.foldFrom_eq (higher state) (0, none) (length_le_of_isList list inRange)
      rw [foldl_higher_of_zero zero, head] at scan
      simp [gethighestone, head, single, scan]

/-- `gethighestone` ends and removes the first process of highest priority exactly when the list has
at most one process or one of positive priority. -/
theorem extracts_iff (list : IsList state.next state.qHead ready)
    (inRange : ∀ p ∈ ready, p < config.processCount) :
    (∃ after chosen, gethighestone config state = some (after, chosen) ∧
        Extracts state after ready chosen) ↔
      ready.length ≤ 1 ∨ ∃ p ∈ ready, 0 < (state.pcbs p).staticPriority := by
  constructor
  · rintro ⟨after, chosen, result, -⟩
    by_contra neither
    obtain ⟨several, zero⟩ := not_or.mp neither
    have none : gethighestone config state = none :=
      gethighestone_eq_none list inRange (Nat.not_le.mp several) fun p member =>
        Nat.eq_zero_of_not_pos fun positive => zero ⟨p, member, positive⟩
    cases result.symm.trans none
  · intro found
    by_cases empty : ready = []
    · subst empty
      have head : state.qHead = none := list
      exact ⟨state, none, by simp [gethighestone, head], .empty rfl⟩
    · obtain ⟨after, earlier, p, later, result, rfl, before, behind, left, only⟩ :=
        gethighestone_spec list inRange empty found
      exact ⟨after, some p, result, .highest before behind left only⟩

/-- A table of processes with the given priorities, all linked in a ready list. -/
def readyState (priorities : List Nat) : State where
  pcbs p :=
    { pid := .ofNat p, staticPriority := priorities.getD p 0, state := .ready, ops := [], pc := 0
      next := if p + 1 < priorities.length then some (p + 1) else none }
  qHead := if priorities = [] then none else some 0
  current _ := none
  cpuData _ := { current := none, state := .idle, preemptionTimer := -1 }
  contextSwitches := 0
  processesTerminated := 0
  processesCreated := priorities.length
  requests _ := { pcb := 0, executionTime := 0, next := none }
  allocated := 0
  ioQueueHead := none
  ioQueueTail := none
  output := []

/-- The second of three processes has the highest priority. -/
theorem extracts_iff_middle : ∃ after chosen,
    gethighestone { cpuCount := 1, processCount := 3, staticPrior := true, timeslice := -1 }
      (readyState [0, 7, 7]) = some (after, chosen) ∧
        Extracts (readyState [0, 7, 7]) after [0, 1, 2] chosen :=
  (@extracts_iff { cpuCount := 1, processCount := 3, staticPrior := true, timeslice := -1 }
    (readyState [0, 7, 7]) [0, 1, 2] ⟨rfl, rfl, rfl, rfl⟩ (by decide)).mpr (.inr ⟨1, by decide⟩)

/-- Two processes of priority 0 leave `highestone` uninitialised. -/
theorem lowest_priorities_not_extracted :
    IsList (readyState [0, 0]).next (readyState [0, 0]).qHead [0, 1] ∧
      gethighestone { cpuCount := 1, processCount := 2, staticPrior := true, timeslice := -1 }
        (readyState [0, 0]) = none ∧
      ¬ ∃ after chosen,
        gethighestone { cpuCount := 1, processCount := 2, staticPrior := true, timeslice := -1 }
          (readyState [0, 0]) = some (after, chosen) ∧
            Extracts (readyState [0, 0]) after [0, 1] chosen := by
  have uninitialised : gethighestone
      { cpuCount := 1, processCount := 2, staticPrior := true, timeslice := -1 }
      (readyState [0, 0]) = none := by decide
  refine ⟨⟨rfl, rfl, rfl⟩, uninitialised, ?_⟩
  rintro ⟨after, chosen, result, -⟩
  cases result.symm.trans uninitialised

end ExtractMax

end CS2200.Scheduling
