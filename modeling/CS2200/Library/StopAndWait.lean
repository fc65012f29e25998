import CS2200.Library.Trace
import Mathlib.Data.Int.Cast.Basic

/-!
# Stop and wait

A sender and a receiver are connected by a channel in each direction. The sender sends the packet
of its position and waits for the response, which determines its next position; the receiver takes
a packet, responds, and may stop. A finite list of disturbances says what happens to the first
packets on their way.

If every packet, disturbed or not, is either accepted or refused, and an undisturbed packet is
accepted, then every run is finite and ends with the receiver in the state it reaches when it
takes every packet once and in order.
-/

namespace CS2200
namespace StopAndWait

/-- A sender and a receiver, and the effect of a disturbance on a packet. -/
structure Parties (π ω ρ μ δ : Type*) where
  /-- Packet of a position of the sender. The sender ends at a position without a packet. -/
  packet : Int → Option π
  /-- What arrives of a packet. -/
  transmit : δ → π → ω
  /-- The disturbance that leaves a packet alone. -/
  quiet : δ
  /-- Next state of the receiver, its response, and whether it stops. -/
  receive : μ → ω → Option (μ × ρ × Bool)
  /-- Next position of the sender. -/
  answer : Int → ρ → Option Int

/-- The parties and the packets between them. -/
structure State (ω ρ μ δ : Type*) where
  /-- Position of the sender. -/
  position : Int
  /-- The sender waits for a response. -/
  awaiting : Bool
  /-- State of the receiver. -/
  receiver : μ
  /-- The receiver has stopped. -/
  stopped : Bool
  /-- Packets on the way to the receiver. -/
  data : List ω
  /-- Responses on the way to the sender. -/
  responses : List ρ
  /-- What will happen to the next packets. -/
  disturbances : List δ

/-- Who takes a step. -/
inductive Label where
  | send
  | receive
  | answer
  deriving DecidableEq

variable {π ω ρ μ δ : Type*}

/-- The start: the sender is at its first position. -/
def start (receiver : μ) (disturbances : List δ) : State ω ρ μ δ where
  position := 0
  awaiting := false
  receiver := receiver
  stopped := false
  data := []
  responses := []
  disturbances := disturbances

/-- A party takes a step. -/
inductive Step (parties : Parties π ω ρ μ δ) :
    State ω ρ μ δ → Label → State ω ρ μ δ → Prop
  | send {state : State ω ρ μ δ} {packet : π} : state.awaiting = false →
      parties.packet state.position = some packet →
      Step parties state .send
        { state with
          awaiting := true
          data := state.data ++
            [parties.transmit (state.disturbances.headD parties.quiet) packet]
          disturbances := state.disturbances.tail }
  | receive {state : State ω ρ μ δ} {arrived : ω} {rest : List ω} {receiver : μ} {response : ρ}
      {stops : Bool} : state.stopped = false → state.data = arrived :: rest →
      parties.receive state.receiver arrived = some (receiver, response, stops) →
      Step parties state .receive
        { state with
          receiver
          stopped := stops
          data := rest
          responses := state.responses ++ [response] }
  | answer {state : State ω ρ μ δ} {response : ρ} {rest : List ρ} {position : Int} :
      state.awaiting = true → state.responses = response :: rest →
      parties.answer state.position response = some position →
      Step parties state .answer
        { state with
          position
          awaiting := false
          responses := rest }

/-! ## Accepted and refused packets -/

section Delivery

variable (parties : Parties π ω ρ μ δ) (acknowledges : ρ → Prop) (count : Nat)
  (receivers : Nat → μ)

/-- The receiver takes packet `k` and the sender goes on. -/
def Accepted (k : Nat) (arrived : ω) : Prop :=
  ∃ response, parties.receive (receivers k) arrived =
      some (receivers (k + 1), response, decide (k + 1 = count)) ∧
    acknowledges response ∧ parties.answer k response = some ((k + 1 : Nat) : Int)

/-- The receiver ignores packet `k` and the sender repeats it. -/
def Refused (k : Nat) (arrived : ω) : Prop :=
  ∃ response, parties.receive (receivers k) arrived = some (receivers k, response, false) ∧
    ¬ acknowledges response ∧ parties.answer k response = some (k : Int)

/-- A packet is accepted or refused when it is disturbed, and accepted otherwise. -/
def Deliverable (k : Nat) (packet : π) : Prop :=
  (∀ disturbance,
      Accepted parties acknowledges count receivers k (parties.transmit disturbance packet) ∨
        Refused parties acknowledges receivers k (parties.transmit disturbance packet)) ∧
    Accepted parties acknowledges count receivers k (parties.transmit parties.quiet packet)

/-- The sender sends a given number of packets that can be delivered. -/
structure Delivers : Prop where
  /-- The packets of the sender. -/
  packet : ∀ k < count, ∃ packet, parties.packet (k : Int) = some packet ∧
    Deliverable parties acknowledges count receivers k packet
  /-- The sender ends after the last packet. -/
  ends : parties.packet (count : Int) = none

/-- Where a run stands, with a bound on the number of steps that are left. -/
inductive Stage : State ω ρ μ δ → Nat → Prop
  | sending {k : Nat} {disturbances : List δ} : k ≤ count →
      Stage
        { position := k, awaiting := false, receiver := receivers k, stopped := decide (k = count)
          data := [], responses := [], disturbances }
        (3 * (disturbances.length + (count - k)))
  | accepted {k : Nat} {arrived : ω} {disturbances : List δ} : k < count →
      Accepted parties acknowledges count receivers k arrived →
      Stage
        { position := k, awaiting := true, receiver := receivers k, stopped := false
          data := [arrived], responses := [], disturbances }
        (3 * (disturbances.length + (count - (k + 1))) + 2)
  | refused {k : Nat} {arrived : ω} {disturbances : List δ} : k < count →
      Refused parties acknowledges receivers k arrived →
      Stage
        { position := k, awaiting := true, receiver := receivers k, stopped := false
          data := [arrived], responses := [], disturbances }
        (3 * (disturbances.length + (count - k)) + 2)
  | acknowledged {k : Nat} {response : ρ} {disturbances : List δ} : k < count →
      acknowledges response → parties.answer k response = some ((k + 1 : Nat) : Int) →
      Stage
        { position := k, awaiting := true, receiver := receivers (k + 1)
          stopped := decide (k + 1 = count), data := [], responses := [response], disturbances }
        (3 * (disturbances.length + (count - (k + 1))) + 1)
  | again {k : Nat} {response : ρ} {disturbances : List δ} : k < count →
      ¬ acknowledges response → parties.answer k response = some (k : Int) →
      Stage
        { position := k, awaiting := true, receiver := receivers k, stopped := false
          data := [], responses := [response], disturbances }
        (3 * (disturbances.length + (count - k)) + 1)

/-- Both parties have ended, the receiver having taken every packet. -/
structure Final (state : State ω ρ μ δ) : Prop where
  /-- The sender has passed its last packet. -/
  position : state.position = count
  /-- The sender does not wait. -/
  awaiting : state.awaiting = false
  /-- State of the receiver. -/
  receiver : state.receiver = receivers count
  /-- The receiver has stopped. -/
  stopped : state.stopped = true
  /-- No packet is on its way. -/
  data : state.data = []
  /-- No response is on its way. -/
  responses : state.responses = []

end Delivery

/-! ## Runs -/

section Runs

variable {parties : Parties π ω ρ μ δ} {acknowledges : ρ → Prop} {count : Nat}
  {receivers : Nat → μ} {before after state : State ω ρ μ δ} {label : Label} {left : Nat}

theorem Stage.resending {k : Nat} {disturbances : List δ} (more : k < count) :
    Stage parties acknowledges count receivers
      { position := k, awaiting := false, receiver := receivers k, stopped := false
        data := [], responses := [], disturbances }
      (3 * (disturbances.length + (count - k))) := by
  have sending : Stage parties acknowledges count receivers _
      (3 * (disturbances.length + (count - k))) := .sending (Nat.le_of_lt more)
  rwa [decide_eq_false (Nat.ne_of_lt more)] at sending

/-- A step goes from stage to stage and uses up the bound. -/
theorem Stage.step (delivers : Delivers parties acknowledges count receivers)
    (stage : Stage parties acknowledges count receivers before left)
    (step : Step parties before label after) :
    ∃ fewer < left, Stage parties acknowledges count receivers after fewer := by
  cases stage with
  | @sending k disturbances inRange =>
      cases step with
      | @send packet _ present =>
          have more : k < count := by
            refine Nat.lt_of_le_of_ne inRange ?_
            rintro rfl
            cases delivers.ends.symm.trans present
          obtain ⟨next, found, disturbed, quiet⟩ := delivers.packet k more
          obtain rfl := Option.some.inj (found.symm.trans present)
          rw [decide_eq_false (Nat.ne_of_lt more)]
          cases disturbances with
          | nil =>
              have next : Stage parties acknowledges count receivers _
                  (3 * (([] : List δ).length + (count - (k + 1))) + 2) :=
                .accepted more quiet
              exact ⟨_, by simp; omega, next⟩
          | cons disturbance disturbances =>
              rcases disturbed disturbance with taken | ignored
              · have next : Stage parties acknowledges count receivers _
                    (3 * (disturbances.length + (count - (k + 1))) + 2) := .accepted more taken
                exact ⟨_, by simp; omega, next⟩
              · have next : Stage parties acknowledges count receivers _
                    (3 * (disturbances.length + (count - k)) + 2) := .refused more ignored
                exact ⟨_, by simp; omega, next⟩
      | receive _ nonempty => cases nonempty
      | answer waits => cases waits
  | accepted more taken =>
      cases step with
      | send waits => cases waits
      | receive _ single received =>
          obtain ⟨rfl, rfl⟩ := List.cons.inj single
          obtain ⟨response, result, acknowledged, answers⟩ := taken
          cases result.symm.trans received
          exact ⟨_, Nat.lt_succ_self _, .acknowledged more acknowledged answers⟩
      | answer _ nonempty => cases nonempty
  | refused more ignored =>
      cases step with
      | send waits => cases waits
      | receive _ single received =>
          obtain ⟨rfl, rfl⟩ := List.cons.inj single
          obtain ⟨response, result, notAcknowledged, answers⟩ := ignored
          cases result.symm.trans received
          exact ⟨_, Nat.lt_succ_self _, .again more notAcknowledged answers⟩
      | answer _ nonempty => cases nonempty
  | acknowledged more acknowledged answers =>
      cases step with
      | send waits => cases waits
      | receive _ nonempty => cases nonempty
      | answer _ single answered =>
          obtain ⟨rfl, rfl⟩ := List.cons.inj single
          cases answers.symm.trans answered
          exact ⟨_, Nat.lt_succ_self _, .sending more⟩
  | again more notAcknowledged answers =>
      cases step with
      | send waits => cases waits
      | receive _ nonempty => cases nonempty
      | answer _ single answered =>
          obtain ⟨rfl, rfl⟩ := List.cons.inj single
          cases answers.symm.trans answered
          exact ⟨_, Nat.lt_succ_self _, .resending more⟩

/-- As long as the parties have not ended, one of them can take a step. -/
theorem Stage.progress (delivers : Delivers parties acknowledges count receivers)
    (stage : Stage parties acknowledges count receivers state left) :
    Final count receivers state ∨ ∃ label after, Step parties state label after := by
  cases stage with
  | @sending k _ inRange =>
      rcases Nat.eq_or_lt_of_le inRange with rfl | more
      · exact .inl ⟨rfl, rfl, rfl, by simp, rfl, rfl⟩
      · obtain ⟨packet, found, -⟩ := delivers.packet k more
        exact .inr ⟨_, _, .send rfl found⟩
  | accepted _ taken =>
      obtain ⟨response, result, -⟩ := taken
      exact .inr ⟨_, _, .receive rfl rfl result⟩
  | refused _ ignored =>
      obtain ⟨response, result, -⟩ := ignored
      exact .inr ⟨_, _, .receive rfl rfl result⟩
  | acknowledged _ _ answers => exact .inr ⟨_, _, .answer rfl rfl answers⟩
  | again _ _ answers => exact .inr ⟨_, _, .answer rfl rfl answers⟩

private theorem Delivers.packet_ne_none (delivers : Delivers parties acknowledges count receivers)
    {k : Nat} (more : k < count) : parties.packet (k : Int) ≠ none := by
  obtain ⟨packet, found, -⟩ := delivers.packet k more
  simp [found]

/-- The receiver has stopped once the last packet is acknowledged, and not before. -/
theorem Stage.stopped_iff (delivers : Delivers parties acknowledges count receivers)
    (stage : Stage parties acknowledges count receivers state left) :
    state.stopped = true ↔ parties.packet state.position = none ∨
      state.position + 1 = count ∧ ∃ response ∈ state.responses, acknowledges response := by
  cases stage with
  | sending inRange =>
      rcases Nat.eq_or_lt_of_le inRange with rfl | more
      · simp [delivers.ends]
      · simp [delivers.packet_ne_none more, Nat.ne_of_lt more]
  | accepted more => simp [delivers.packet_ne_none more]
  | refused more => simp [delivers.packet_ne_none more]
  | acknowledged more acknowledged =>
      simp [delivers.packet_ne_none more, acknowledged]
      omega
  | again more notAcknowledged => simp [delivers.packet_ne_none more, notAcknowledged]

theorem Stage.receiver_of_stopped (stage : Stage parties acknowledges count receivers state left)
    (stopped : state.stopped = true) : state.receiver = receivers count := by
  cases stage with
  | sending => exact congrArg receivers (of_decide_eq_true stopped)
  | accepted => cases stopped
  | refused => cases stopped
  | acknowledged => exact congrArg receivers (of_decide_eq_true stopped)
  | again => cases stopped

variable {disturbances : List δ} {labels : List Label}

/-- Every run is at a stage, and its length is bounded. -/
theorem stage_of_trace (delivers : Delivers parties acknowledges count receivers)
    (nonempty : 0 < count)
    (trace : Trace (Step parties) (start (receivers 0) disturbances) labels state) :
    ∃ left, labels.length + left ≤ 3 * (disturbances.length + count) ∧
      Stage parties acknowledges count receivers state left := by
  induction trace with
  | nil =>
      exact ⟨_, by simp, .resending nonempty⟩
  | snoc _ last ih =>
      obtain ⟨left, bound, stage⟩ := ih
      obtain ⟨fewer, less, stage⟩ := stage.step delivers last
      exact ⟨fewer, by simp; omega, stage⟩

/-- Every run can be continued until both parties have ended. -/
theorem exists_final (delivers : Delivers parties acknowledges count receivers)
    (nonempty : 0 < count)
    (trace : Trace (Step parties) (start (receivers 0) disturbances) labels state) :
    ∃ more final, Trace (Step parties) (start (receivers 0) disturbances) (labels ++ more) final ∧
      Final count receivers final := by
  obtain ⟨left, -, stage⟩ := stage_of_trace delivers nonempty trace
  induction left using Nat.strongRecOn generalizing labels state with
  | ind left ih =>
      rcases stage.progress delivers with final | ⟨label, after, step⟩
      · exact ⟨[], state, by simpa using trace, final⟩
      · obtain ⟨fewer, less, stage⟩ := stage.step delivers step
        obtain ⟨more, final, trace, ended⟩ := ih fewer less (trace.snoc step) stage
        exact ⟨label :: more, final, by simpa using trace, ended⟩

end Runs

/-! ## Termination without disturbances -/

section Termination

variable (parties : Parties π ω ρ μ δ) (receiver : μ)

/-- Both parties have ended. -/
def Ended (state : State ω ρ μ δ) : Prop :=
  parties.packet state.position = none ∧ state.awaiting = false ∧ state.stopped = true

/-- Without disturbances every run is finite, and one that cannot go on has ended. -/
structure Terminates : Prop where
  /-- No run is longer than a bound. -/
  bounded : ∃ bound, ∀ labels state,
    Trace (Step parties) (start receiver []) labels state → labels.length ≤ bound
  /-- A run that cannot go on has ended on both sides. -/
  progress : ∀ labels state, Trace (Step parties) (start receiver []) labels state →
    Ended parties state ∨ ∃ label after, Step parties state label after

/-- Every position below the bound has a packet. If the receiver takes it, it goes on, and its
response leads to a position below the bound. -/
def Confined (bound : Nat) (receivers : Nat → μ) : Prop :=
  ∀ k < bound, ∃ packet, parties.packet (k : Int) = some packet ∧
    ∀ after response stops,
      parties.receive (receivers k) (parties.transmit parties.quiet packet) =
        some (after, response, stops) →
      ∃ next < bound, after = receivers next ∧ stops = false ∧
        parties.answer k response = some (next : Int)

variable {parties} {receiver}

theorem Delivers.terminates {acknowledges : ρ → Prop} {count : Nat} {receivers : Nat → μ}
    (delivers : Delivers parties acknowledges count receivers) (nonempty : 0 < count) :
    Terminates parties (receivers 0) where
  bounded := ⟨_, fun labels state trace => by
    obtain ⟨left, bound, -⟩ := stage_of_trace delivers nonempty trace
    exact Nat.le_trans (Nat.le_add_right _ _) bound⟩
  progress labels state trace := by
    obtain ⟨left, -, stage⟩ := stage_of_trace delivers nonempty trace
    refine (stage.progress delivers).imp_left fun final => ?_
    exact ⟨final.position ▸ delivers.ends, final.awaiting, final.stopped⟩

theorem Terminates.exists_ended (terminates : Terminates parties receiver) :
    ∃ labels state, Trace (Step parties) (start receiver []) labels state ∧
      Ended parties state := by
  obtain ⟨bound, bounded⟩ := terminates.bounded
  have continues : ∀ left labels state, Trace (Step parties) (start receiver []) labels state →
      bound ≤ labels.length + left →
      ∃ labels state, Trace (Step parties) (start receiver []) labels state ∧
        Ended parties state := by
    intro left
    induction left with
    | zero =>
        intro labels state trace long
        rcases terminates.progress labels state trace with ended | ⟨label, after, step⟩
        · exact ⟨labels, state, trace, ended⟩
        · have longer := bounded _ _ (trace.snoc step)
          rw [List.length_append, List.length_singleton] at longer
          omega
    | succ left ih =>
        intro labels state trace long
        rcases terminates.progress labels state trace with ended | ⟨label, after, step⟩
        · exact ⟨labels, state, trace, ended⟩
        · refine ih _ _ (trace.snoc step) ?_
          rw [List.length_append, List.length_singleton]
          omega
  exact continues bound [] _ .nil (Nat.le_add_left _ _)

/-- Where a run without disturbances stands that stays below a bound. -/
inductive Below (parties : Parties π ω ρ μ δ) (bound : Nat) (receivers : Nat → μ) :
    State ω ρ μ δ → Prop
  | sending {k : Nat} : k < bound →
      Below parties bound receivers
        { position := k, awaiting := false, receiver := receivers k, stopped := false
          data := [], responses := [], disturbances := [] }
  | arrived {k : Nat} {packet : π} : k < bound → parties.packet (k : Int) = some packet →
      Below parties bound receivers
        { position := k, awaiting := true, receiver := receivers k, stopped := false
          data := [parties.transmit parties.quiet packet], responses := [], disturbances := [] }
  | answered {k next : Nat} {response : ρ} : next < bound →
      parties.answer k response = some (next : Int) →
      Below parties bound receivers
        { position := k, awaiting := true, receiver := receivers next, stopped := false
          data := [], responses := [response], disturbances := [] }

private theorem Below.step {bound : Nat} {receivers : Nat → μ} {before after : State ω ρ μ δ}
    {label : Label} (below : Below parties bound receivers before)
    (confined : Confined parties bound receivers) (step : Step parties before label after) :
    Below parties bound receivers after := by
  cases below with
  | sending inside =>
      cases step with
      | send _ found => exact .arrived inside found
      | receive _ nonempty => cases nonempty
      | answer waits => cases waits
  | @arrived k packet inside found =>
      obtain ⟨same, found', goes⟩ := confined k inside
      obtain rfl := Option.some.inj (found.symm.trans found')
      cases step with
      | send waits => cases waits
      | receive _ single received =>
          obtain ⟨rfl, rfl⟩ := List.cons.inj single
          obtain ⟨next, inside', rfl, rfl, answers⟩ := goes _ _ _ received
          exact .answered inside' answers
      | answer _ nonempty => cases nonempty
  | answered inside answers =>
      cases step with
      | send waits => cases waits
      | receive _ nonempty => cases nonempty
      | answer _ single answered =>
          obtain ⟨rfl, rfl⟩ := List.cons.inj single
          cases answers.symm.trans answered
          exact .sending inside

/-- A run that is confined does not end. -/
theorem Confined.not_terminates {bound : Nat} {receivers : Nat → μ}
    (confined : Confined parties bound receivers) (positive : 0 < bound) :
    ¬Terminates parties (receivers 0) := by
  intro terminates
  obtain ⟨labels, state, trace, -, -, stopped⟩ := terminates.exists_ended
  have below : Below parties bound receivers state :=
    trace.invariant (.sending positive) fun below step => below.step confined step
  cases below <;> cases stopped

end Termination

end StopAndWait
end CS2200
