import Mathlib.Data.List.Perm.Basic

/-!
# Two parties and their channels

Two parties send each other packets through a queue in each direction. A party that can send does
not receive, so the steps of the two parties commute: in whatever order they are taken, all runs
that cannot go on have taken the same steps and end in the same state.
-/

namespace CS2200

/-! ## Steps that commute -/

section Commuting

variable {σ α : Type*}

/-- Two steps that can be taken can be taken one after the other, in either order. -/
def Commuting (next : σ → α → Option σ) : Prop :=
  ∀ {state left right : σ} {first second : α}, first ≠ second →
    next state first = some left → next state second = some right →
      ∃ joined, next left second = some joined ∧ next right first = some joined

/-- No step can be taken. -/
def Stuck (next : σ → α → Option σ) (state : σ) : Prop := ∀ label, next state label = none

/-- Some run of a length leads from a state to another one. -/
def Runs (next : σ → α → Option σ) (length : Nat) (before after : σ) : Prop :=
  ∃ labels : List α, labels.length = length ∧ labels.foldlM next before = some after

variable {next : σ → α → Option σ} {state middle final : σ} {labels others : List α} {label : α}

theorem Runs.refl (next : σ → α → Option σ) (state : σ) : Runs next 0 state state := ⟨[], rfl, rfl⟩

theorem Runs.cons {length : Nat} (steps : next state label = some middle)
    (runs : Runs next length middle final) : Runs next (length + 1) state final := by
  obtain ⟨labels, rfl, runs⟩ := runs
  refine ⟨label :: labels, rfl, ?_⟩
  rw [List.foldlM_cons, steps]
  exact runs

theorem Runs.trans {first second : Nat} (begins : Runs next first state middle)
    (ends : Runs next second middle final) : Runs next (first + second) state final := by
  obtain ⟨labels, rfl, begins⟩ := begins
  obtain ⟨others, rfl, ends⟩ := ends
  refine ⟨labels ++ others, List.length_append, ?_⟩
  rw [List.foldlM_append, begins]
  exact ends

variable [DecidableEq α]

/-- A run that is not complete without a step can take it first. -/
theorem Commuting.first (commuting : Commuting next) (steps : next state label = some middle)
    (runs : labels.foldlM next state = some final) (stuck : Stuck next final) :
    label ∈ labels ∧ (labels.erase label).foldlM next middle = some final := by
  induction labels generalizing state middle with
  | nil =>
      obtain rfl := Option.some.inj runs
      cases (stuck label).symm.trans steps
  | cons earlier labels ih =>
      obtain ⟨other, goes, runs⟩ := Option.bind_eq_some_iff.mp (List.foldlM_cons.symm.trans runs)
      by_cases same : label = earlier
      · subst same
        obtain rfl := Option.some.inj (goes.symm.trans steps)
        exact ⟨List.mem_cons_self, by rwa [List.erase_cons_head]⟩
      · obtain ⟨joined, left, right⟩ := commuting same steps goes
        obtain ⟨member, rest⟩ := ih right runs
        refine ⟨List.mem_cons_of_mem earlier member, ?_⟩
        rw [List.erase_cons_tail (by simpa using Ne.symm same), List.foldlM_cons]
        exact Option.bind_eq_some_iff.mpr ⟨joined, left, rest⟩

/-- Every run can be continued until it has taken the steps of a complete run. -/
theorem Commuting.continues (commuting : Commuting next)
    (runs : labels.foldlM next state = some final) (stuck : Stuck next final)
    (begins : others.foldlM next state = some middle) :
    ∃ rest, (others ++ rest).Perm labels ∧ rest.foldlM next middle = some final := by
  induction others generalizing state labels with
  | nil =>
      obtain rfl := Option.some.inj begins
      exact ⟨labels, .refl _, runs⟩
  | cons label others ih =>
      obtain ⟨after, steps, begins⟩ :=
        Option.bind_eq_some_iff.mp (List.foldlM_cons.symm.trans begins)
      obtain ⟨member, erased⟩ := commuting.first steps runs stuck
      obtain ⟨rest, perm, ends⟩ := ih erased begins
      exact ⟨rest, (perm.cons label).trans (List.perm_cons_erase member).symm, ends⟩

/-- A run that cannot go on has taken the steps of a complete run. -/
theorem Commuting.unique (commuting : Commuting next)
    (runs : labels.foldlM next state = some final) (stuck : Stuck next final)
    (othersRun : others.foldlM next state = some middle) (othersStuck : Stuck next middle) :
    others.Perm labels ∧ middle = final := by
  obtain ⟨rest, perm, ends⟩ := commuting.continues runs stuck othersRun
  cases rest with
  | nil => exact ⟨by rwa [List.append_nil] at perm, Option.some.inj ends⟩
  | cons label rest =>
      obtain ⟨after, steps, -⟩ := Option.bind_eq_some_iff.mp (List.foldlM_cons.symm.trans ends)
      cases (othersStuck label).symm.trans steps

end Commuting

/-! ## Parties -/

/-- A party that receives packets and sends packets. -/
structure Party (σ ι ο : Type*) where
  /-- The packet that is sent, and the next state. -/
  emit : σ → Option (ο × σ)
  /-- The next state after a packet is received. -/
  absorb : σ → ι → Option σ
  /-- A party that can send does not receive. -/
  exclusive : ∀ state packet, emit state ≠ none → absorb state packet = none

private theorem Party.not_both {σ ι ο : Type*} {party : Party σ ι ο} {state sent received : σ}
    {packet : ι} {emitted : ο} (emits : party.emit state = some (emitted, sent))
    (absorbs : party.absorb state packet = some received) : False := by
  have nothing := party.exclusive state packet (by simp [emits])
  cases nothing.symm.trans absorbs

/-- Two parties and the packets between them, the oldest in front. -/
structure Duplex (σ τ ι ο : Type*) where
  /-- State of one party. -/
  left : σ
  /-- State of the other one. -/
  right : τ
  /-- Packets on their way to the right. -/
  toRight : List ο
  /-- Packets on their way to the left. -/
  toLeft : List ι

/-- What can happen. -/
inductive Duplex.Action where
  | leftEmits
  | leftAbsorbs
  | rightEmits
  | rightAbsorbs
  deriving DecidableEq, Repr

namespace Duplex

variable {σ τ ι ο : Type*} (left : Party σ ι ο) (right : Party τ ο ι)

/-- One party sends or receives a packet. -/
def next (duplex : Duplex σ τ ι ο) : Action → Option (Duplex σ τ ι ο)
  | .leftEmits => (left.emit duplex.left).map fun (packet, state) =>
      { duplex with left := state, toRight := duplex.toRight ++ [packet] }
  | .leftAbsorbs =>
      match duplex.toLeft with
      | [] => none
      | packet :: toLeft => (left.absorb duplex.left packet).map fun state =>
          { duplex with left := state, toLeft }
  | .rightEmits => (right.emit duplex.right).map fun (packet, state) =>
      { duplex with right := state, toLeft := duplex.toLeft ++ [packet] }
  | .rightAbsorbs =>
      match duplex.toRight with
      | [] => none
      | packet :: toRight => (right.absorb duplex.right packet).map fun state =>
          { duplex with right := state, toRight }

section Steps

variable {left right} {duplex after : Duplex σ τ ι ο}

theorem next_leftEmits : next left right duplex .leftEmits = some after ↔
    ∃ packet state, left.emit duplex.left = some (packet, state) ∧
      after = { duplex with left := state, toRight := duplex.toRight ++ [packet] } := by
  rw [next, Option.map_eq_some_iff]
  constructor
  · rintro ⟨⟨packet, state⟩, emits, rfl⟩
    exact ⟨packet, state, emits, rfl⟩
  · rintro ⟨packet, state, emits, rfl⟩
    exact ⟨(packet, state), emits, rfl⟩

theorem next_leftAbsorbs : next left right duplex .leftAbsorbs = some after ↔
    ∃ packet rest state, duplex.toLeft = packet :: rest ∧
      left.absorb duplex.left packet = some state ∧
        after = { duplex with left := state, toLeft := rest } := by
  unfold next
  cases queue : duplex.toLeft with
  | nil => simp
  | cons first later =>
      rw [Option.map_eq_some_iff]
      constructor
      · rintro ⟨state, absorbs, rfl⟩
        exact ⟨first, later, state, rfl, absorbs, rfl⟩
      · rintro ⟨_, _, state, same, absorbs, rfl⟩
        obtain ⟨rfl, rfl⟩ := List.cons.inj same
        exact ⟨state, absorbs, rfl⟩

theorem next_rightEmits : next left right duplex .rightEmits = some after ↔
    ∃ packet state, right.emit duplex.right = some (packet, state) ∧
      after = { duplex with right := state, toLeft := duplex.toLeft ++ [packet] } := by
  rw [next, Option.map_eq_some_iff]
  constructor
  · rintro ⟨⟨packet, state⟩, emits, rfl⟩
    exact ⟨packet, state, emits, rfl⟩
  · rintro ⟨packet, state, emits, rfl⟩
    exact ⟨(packet, state), emits, rfl⟩

theorem next_rightAbsorbs : next left right duplex .rightAbsorbs = some after ↔
    ∃ packet rest state, duplex.toRight = packet :: rest ∧
      right.absorb duplex.right packet = some state ∧
        after = { duplex with right := state, toRight := rest } := by
  unfold next
  cases queue : duplex.toRight with
  | nil => simp
  | cons first later =>
      rw [Option.map_eq_some_iff]
      constructor
      · rintro ⟨state, absorbs, rfl⟩
        exact ⟨first, later, state, rfl, absorbs, rfl⟩
      · rintro ⟨_, _, state, same, absorbs, rfl⟩
        obtain ⟨rfl, rfl⟩ := List.cons.inj same
        exact ⟨state, absorbs, rfl⟩

end Steps

section Exchanges

variable {left right}

theorem exchange_left {first sent answered : σ} {second received responded : τ} {packet : ο}
    {response : ι} (sends : left.emit first = some (packet, sent))
    (receives : right.absorb second packet = some received)
    (responds : right.emit received = some (response, responded))
    (answers : left.absorb sent response = some answered) :
    Runs (next left right) 4 ⟨first, second, [], []⟩ ⟨answered, responded, [], []⟩ := by
  refine .cons (next_leftEmits.mpr ⟨_, _, sends, rfl⟩) ?_
  refine .cons (next_rightAbsorbs.mpr ⟨_, _, _, rfl, receives, rfl⟩) ?_
  refine .cons (next_rightEmits.mpr ⟨_, _, responds, rfl⟩) ?_
  exact .cons (next_leftAbsorbs.mpr ⟨_, _, _, rfl, answers, rfl⟩) (.refl _ _)

theorem exchange_right {first received responded : σ} {second sent answered : τ} {packet : ι}
    {response : ο} (sends : right.emit second = some (packet, sent))
    (receives : left.absorb first packet = some received)
    (responds : left.emit received = some (response, responded))
    (answers : right.absorb sent response = some answered) :
    Runs (next left right) 4 ⟨first, second, [], []⟩ ⟨responded, answered, [], []⟩ := by
  refine .cons (next_rightEmits.mpr ⟨_, _, sends, rfl⟩) ?_
  refine .cons (next_leftAbsorbs.mpr ⟨_, _, _, rfl, receives, rfl⟩) ?_
  refine .cons (next_leftEmits.mpr ⟨_, _, responds, rfl⟩) ?_
  exact .cons (next_rightAbsorbs.mpr ⟨_, _, _, rfl, answers, rfl⟩) (.refl _ _)

end Exchanges

/-- Steps of a network commute. -/
theorem commuting : Commuting (next left right) := by
  have across : ∀ {duplex first second : Duplex σ τ ι ο}, ∀ action other : Action,
      (action = .leftEmits ∨ action = .leftAbsorbs) →
      (other = .rightEmits ∨ other = .rightAbsorbs) →
      next left right duplex action = some first → next left right duplex other = some second →
      ∃ joined, next left right first other = some joined ∧
        next left right second action = some joined := by
    rintro duplex first second _ _ (rfl | rfl) (rfl | rfl) steps others
    · obtain ⟨packet, state, emits, rfl⟩ := next_leftEmits.mp steps
      obtain ⟨reply, other, replies, rfl⟩ := next_rightEmits.mp others
      exact ⟨_, next_rightEmits.mpr ⟨reply, other, replies, rfl⟩,
        next_leftEmits.mpr ⟨packet, state, emits, rfl⟩⟩
    · obtain ⟨packet, state, emits, rfl⟩ := next_leftEmits.mp steps
      obtain ⟨reply, rest, other, queue, absorbs, rfl⟩ := next_rightAbsorbs.mp others
      have longer : duplex.toRight ++ [packet] = reply :: (rest ++ [packet]) := by simp [queue]
      exact ⟨_, next_rightAbsorbs.mpr ⟨reply, rest ++ [packet], other, longer, absorbs, rfl⟩,
        next_leftEmits.mpr ⟨packet, state, emits, rfl⟩⟩
    · obtain ⟨packet, rest, state, queue, absorbs, rfl⟩ := next_leftAbsorbs.mp steps
      obtain ⟨reply, other, replies, rfl⟩ := next_rightEmits.mp others
      exact ⟨_, next_rightEmits.mpr ⟨reply, other, replies, rfl⟩,
        next_leftAbsorbs.mpr ⟨packet, rest ++ [reply], state, by simp [queue], absorbs, rfl⟩⟩
    · obtain ⟨packet, rest, state, queue, absorbs, rfl⟩ := next_leftAbsorbs.mp steps
      obtain ⟨reply, replies, other, otherQueue, replied, rfl⟩ := next_rightAbsorbs.mp others
      exact ⟨_, next_rightAbsorbs.mpr ⟨reply, replies, other, otherQueue, replied, rfl⟩,
        next_leftAbsorbs.mpr ⟨packet, rest, state, queue, absorbs, rfl⟩⟩
  have onLeft : ∀ {duplex first second : Duplex σ τ ι ο},
      next left right duplex .leftEmits = some first →
        next left right duplex .leftAbsorbs = some second → False := by
    intro duplex first second steps others
    obtain ⟨_, _, emits, -⟩ := next_leftEmits.mp steps
    obtain ⟨_, _, _, -, absorbs, -⟩ := next_leftAbsorbs.mp others
    exact Party.not_both emits absorbs
  have onRight : ∀ {duplex first second : Duplex σ τ ι ο},
      next left right duplex .rightEmits = some first →
        next left right duplex .rightAbsorbs = some second → False := by
    intro duplex first second steps others
    obtain ⟨_, _, emits, -⟩ := next_rightEmits.mp steps
    obtain ⟨_, _, _, -, absorbs, -⟩ := next_rightAbsorbs.mp others
    exact Party.not_both emits absorbs
  have sides : ∀ action : Action, (action = .leftEmits ∨ action = .leftAbsorbs) ∨
      (action = .rightEmits ∨ action = .rightAbsorbs) := by
    intro action
    cases action <;> simp
  intro duplex first second action other different steps others
  rcases sides action with onFirst | onFirst <;> rcases sides other with onSecond | onSecond
  · obtain rfl | rfl := onFirst <;> obtain rfl | rfl := onSecond
    · exact absurd rfl different
    · exact (onLeft steps others).elim
    · exact (onLeft others steps).elim
    · exact absurd rfl different
  · exact across action other onFirst onSecond steps others
  · obtain ⟨joined, before, after⟩ := across other action onSecond onFirst others steps
    exact ⟨joined, after, before⟩
  · obtain rfl | rfl := onFirst <;> obtain rfl | rfl := onSecond
    · exact absurd rfl different
    · exact (onRight steps others).elim
    · exact (onRight others steps).elim
    · exact absurd rfl different

end Duplex
end CS2200
