import CS2200.Library.Monitor
import CS2200.Scheduling.Concurrency

/-!
# Waiting for a process

CPUs wait in `idle` at `not_idle` until the ready list holds a process. A section of `idle` under
`ready_mutex` ends with the loop or with `pthread_cond_wait`, which releases the mutex; a CPU that
was woken, by `addqueue` or for no reason, locks the mutex and looks at `q_head` again. The other
sections are those of `Concurrency`.
-/

namespace CS2200.Scheduling

open Monitor (Waiting)

/-- The shared memory, the CPUs and the condition variable. -/
structure Idling extends System where
  /-- Where each CPU stands with `not_idle`. -/
  notIdle : Nat → Waiting

namespace Idling

/-- A section of some thread, or a wake-up. -/
inductive Move where
  /-- Some thread runs `addqueue`. -/
  | addqueue (pcb : Nat)
  /-- A CPU locks `ready_mutex` in `idle`, at first or after it was woken, and looks at `q_head`. -/
  | idle (cpu : Nat)
  /-- A CPU is woken for no reason. -/
  | wake (cpu : Nat)
  /-- A handler calls `schedule` on a CPU. -/
  | schedule (cpu : Nat)
  /-- A CPU runs `get`. -/
  | get (cpu : Nat)
  /-- A CPU looks through the list in `gethighestone`. -/
  | scan (cpu : Nat)
  /-- A CPU unlinks what it found. -/
  | unlink (cpu : Nat)
  /-- A CPU runs what it removed. -/
  | finish (cpu : Nat)
  deriving DecidableEq, Repr

/-- The system before any section. -/
def start (programs : Nat → Program) : Idling where
  toSystem := .start programs
  notIdle _ := .away

/-- A section that leaves `not_idle` alone. -/
def act (config : Config) (idling : Idling) (action : Action) : Option Idling := do
  let system ← Scheduling.act config idling.toSystem action
  some { idling with toSystem := system }

/-- One section. -/
def move (config : Config) (idling : Idling) : Move → Option Idling
  | .addqueue pcb => do
      let idling ← idling.act config (.addqueue pcb)
      some { idling with notIdle := Monitor.broadcast idling.notIdle }
  | .idle cpu =>
      if idling.phase cpu = .outside ∧ idling.notIdle cpu ≠ .blocked then
        if idling.state.qHead = none then
          some { idling with notIdle := Function.update idling.notIdle cpu .blocked }
        else
          { idling with notIdle := Function.update idling.notIdle cpu .away }.act config (.idle cpu)
      else none
  | .wake cpu =>
      if idling.notIdle cpu = .blocked then
        some { idling with notIdle := Function.update idling.notIdle cpu .woken }
      else none
  | .schedule cpu =>
      if idling.notIdle cpu = .away then idling.act config (.schedule cpu) else none
  | .get cpu => idling.act config (.get cpu)
  | .scan cpu => idling.act config (.scan cpu)
  | .unlink cpu => idling.act config (.unlink cpu)
  | .finish cpu => idling.act config (.finish cpu)

/-- The transition relation of the system. -/
def Step (config : Config) (before : Idling) (taken : Move) (after : Idling) : Prop :=
  before.move config taken = some after

end Idling

/-! ## The ready list -/

/-- The resource that `idle` waits for. -/
def State.Ready (state : State) : Prop := state.qHead ≠ none

section Sections

variable {config : Config}

private theorem ready_of_unlink {state after : State} {found : Found}
    (unlinks : unlink config state found = some after) (ready : after.Ready) : state.Ready := by
  cases found with
  | only currentone =>
      obtain rfl := Option.some.inj unlinks
      exact absurd rfl ready
  | several highestone =>
      obtain ⟨first, head, -⟩ := Option.bind_eq_some_iff.mp unlinks
      simp [State.Ready, head]

private theorem ready_of_act {before after : System} {action : Action}
    (other : ∀ pcb, action ≠ .addqueue pcb) (step : Interleaves config before action after)
    (ready : after.state.Ready) : before.state.Ready := by
  cases action with
  | addqueue pcb => exact absurd rfl (other pcb)
  | schedule cpu | idle cpu =>
      obtain ⟨-, result⟩ := Option.ite_none_right_eq_some.mp step
      obtain rfl := Option.some.inj result
      exact ready
  | get cpu =>
      obtain ⟨-, result⟩ := Option.ite_none_right_eq_some.mp step
      obtain rfl := Option.some.inj result
      intro empty
      simp [System.take, State.Ready, empty] at ready
  | scan cpu =>
      obtain ⟨-, step⟩ := Option.ite_none_right_eq_some.mp step
      obtain ⟨found, -, result⟩ := Option.bind_eq_some_iff.mp step
      cases found <;> obtain rfl := Option.some.inj result <;> exact ready
  | unlink cpu =>
      cases phase : before.phase cpu with
      | scanned found =>
          simp only [Interleaves, act, phase] at step
          obtain ⟨state, unlinks, result⟩ := Option.bind_eq_some_iff.mp step
          obtain rfl := Option.some.inj result
          exact ready_of_unlink unlinks ready
      | outside | entered | taken => simp [Interleaves, act, phase] at step
  | finish cpu =>
      cases phase : before.phase cpu with
      | taken pcblock =>
          simp only [Interleaves, act, phase] at step
          obtain ⟨state, finishes, result⟩ := Option.bind_eq_some_iff.mp step
          obtain rfl := Option.some.inj result
          obtain ⟨-, qHead⟩ := finish_links finishes
          intro empty
          exact ready (qHead.trans empty)
      | outside | entered | scanned => simp [Interleaves, act, phase] at step

namespace Idling

variable {before after : Idling} {cpu : Nat}

/-- The ready list and its condition variable. -/
def monitor (idling : Idling) : State × (Nat → Waiting) := (idling.state, idling.notIdle)

private theorem monitor_of_act {action : Action} (other : ∀ pcb, action ≠ .addqueue pcb)
    (step : before.act config action = some after) :
    Monitor.Step State.Ready before.monitor after.monitor := by
  obtain ⟨system, acts, result⟩ := Option.bind_eq_some_iff.mp step
  obtain rfl := Option.some.inj result
  exact .retract _ (ready_of_act other acts)

/-- Every section is a step of the monitor. -/
theorem Step.monitor {taken : Move} (step : Step config before taken after) :
    Monitor.Step State.Ready before.monitor after.monitor := by
  cases taken with
  | addqueue pcb =>
      obtain ⟨added, acts, result⟩ := Option.bind_eq_some_iff.mp step
      obtain rfl := Option.some.inj result
      obtain ⟨system, -, result⟩ := Option.bind_eq_some_iff.mp acts
      obtain rfl := Option.some.inj result
      exact .announce _ _ _
  | idle cpu =>
      obtain ⟨-, step⟩ := Option.ite_none_right_eq_some.mp step
      by_cases empty : before.state.qHead = none
      · rw [if_pos empty] at step
        obtain rfl := Option.some.inj step
        exact .wait _ cpu (absurd empty)
      · rw [if_neg empty] at step
        obtain ⟨system, acts, result⟩ := Option.bind_eq_some_iff.mp step
        obtain rfl := Option.some.inj result
        obtain ⟨-, result⟩ := Option.ite_none_right_eq_some.mp acts
        obtain rfl := Option.some.inj result
        exact .leave _ _ cpu (by decide)
  | wake cpu =>
      obtain ⟨-, result⟩ := Option.ite_none_right_eq_some.mp step
      obtain rfl := Option.some.inj result
      exact .leave _ _ cpu (by decide)
  | schedule cpu =>
      obtain ⟨-, acts⟩ := Option.ite_none_right_eq_some.mp step
      exact monitor_of_act (by simp) acts
  | get cpu | scan cpu | unlink cpu | finish cpu => exact monitor_of_act (by simp) step

end Idling

end Sections

/-! ## Runs -/

namespace Idling

variable {config : Config} {programs : Nat → Program} {moves : List Move} {idling : Idling}
  {cpu : Nat}

/-- No CPU waits for a process that is in the list. -/
theorem noneLost_of_trace (trace : Trace (Step config) (.start programs) moves idling) :
    Monitor.NoneLost State.Ready idling.state idling.notIdle := by
  induction trace with
  | nil =>
      intro cpu blocked
      cases blocked
  | snoc _ last ih => exact last.monitor.noneLost ih

/-- A CPU that is blocked in `idle` and was not woken since it blocked last sees an empty list. -/
theorem blocked_qHead (trace : Trace (Step config) (.start programs) moves idling)
    (blocked : idling.notIdle cpu = .blocked) : idling.state.qHead = none :=
  not_not.mp (noneLost_of_trace trace cpu blocked)

/-- While the list is not empty, every CPU in `idle` can leave its loop. -/
theorem exists_leave (trace : Trace (Step config) (.start programs) moves idling)
    (outside : idling.phase cpu = .outside) (ready : idling.state.qHead ≠ none) :
    ∃ after, Step config idling (.idle cpu) after ∧ after.phase cpu = .entered ∧
      after.notIdle cpu = .away := by
  have awake : idling.notIdle cpu ≠ .blocked := fun blocked =>
    noneLost_of_trace trace cpu blocked ready
  refine ⟨⟨idling.setPhase cpu .entered, Function.update idling.notIdle cpu .away⟩, ?_, ?_, ?_⟩
  · simp [Step, move, Idling.act, Scheduling.act, outside, ready, awake]
  · simp [System.setPhase]
  · simp

end Idling

/-- Two CPUs and three processes under round-robin. -/
def twoCpusRoundRobin : Config where
  cpuCount := 2
  processCount := 3
  staticPrior := false
  timeslice := 4

/-- Both CPUs are woken for one process, and the one that comes second waits again. -/
theorem Idling.blocked_qHead_twoCpusRoundRobin :
    ∃ idling, Trace (Step twoCpusRoundRobin) (.start prioritized)
      [.idle 0, .idle 1, .addqueue 0, .idle 1, .get 1, .idle 0, .finish 1] idling ∧
      idling.notIdle 0 = .blocked ∧ idling.state.qHead = none := by
  let moves : List Move :=
    [.idle 0, .idle 1, .addqueue 0, .idle 1, .get 1, .idle 0, .finish 1]
  let idling := (moves.foldlM (move twoCpusRoundRobin) (.start prioritized)).get (by decide)
  have trace : Trace (Step twoCpusRoundRobin) (.start prioritized) moves idling :=
    .of_foldlM (Option.some_get _).symm
  have blocked : idling.notIdle 0 = .blocked := by decide
  exact ⟨idling, trace, blocked, blocked_qHead trace blocked⟩

end CS2200.Scheduling
