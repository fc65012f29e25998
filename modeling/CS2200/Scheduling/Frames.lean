import CS2200.Scheduling.Concurrency

/-!
# What the handlers leave alone

A handler that ends has changed links and states of processes only, and it has given at most one
CPU another process, in the scheduler's array and in the simulator's alike. None of this depends on
the state in which the handler began.
-/

namespace CS2200.Scheduling

open LinkedList

variable {config : Config} {state middle after : State} {cpu p : Nat} {pcblock : Option Nat}

/-! ## The ready list -/

namespace LinksOnly

private theorem of_addqueue (adds : addqueue config state p = some after) :
    LinksOnly state after := by
  unfold addqueue at adds
  split at adds
  · obtain rfl := Option.some.inj adds
    exact (setNext state p none).trans (setHead _ _)
  · obtain ⟨last, -, result⟩ := Option.bind_eq_some_iff.mp adds
    obtain rfl := Option.some.inj result
    exact (setNext state p none).trans (setNext _ _ _)

theorem of_get (state : State) : LinksOnly state (get state).1 := by
  unfold get
  split
  · exact refl state
  · exact setHead state _

theorem of_unlink {found : Found} (unlinks : unlink config state found = some after) :
    LinksOnly state after := by
  cases found with
  | only currentone =>
      obtain rfl := Option.some.inj unlinks
      exact setHead state _
  | several highestone =>
      obtain ⟨first, -, unlinks⟩ := Option.bind_eq_some_iff.mp unlinks
      split at unlinks
      · obtain rfl := Option.some.inj unlinks
        exact setHead state _
      · obtain ⟨previous, -, result⟩ := Option.bind_eq_some_iff.mp unlinks
        obtain rfl := Option.some.inj result
        exact setNext state _ _

theorem of_gethighestone (removes : gethighestone config state = some (after, pcblock)) :
    LinksOnly state after := by
  rw [gethighestone_eq] at removes
  obtain ⟨result, -, removes⟩ := Option.bind_eq_some_iff.mp removes
  cases result with
  | none =>
      obtain rfl := (Prod.mk.inj (Option.some.inj removes)).1
      exact refl state
  | some found =>
      obtain ⟨linked, unlinks, removes⟩ := Option.bind_eq_some_iff.mp removes
      obtain rfl := (Prod.mk.inj (Option.some.inj removes)).1
      exact of_unlink unlinks

end LinksOnly

/-- Only the ready list, its links and the states of processes differ. -/
structure ProcessesOnly (before after : State) : Prop where
  /-- Nothing else in the state differs. -/
  rest : after = { before with pcbs := after.pcbs, qHead := after.qHead }
  /-- Nothing else in a process control block differs. -/
  pcbs : ∀ p, after.pcbs p =
    { before.pcbs p with state := (after.pcbs p).state, next := (after.pcbs p).next }

theorem LinksOnly.processesOnly (only : LinksOnly state after) : ProcessesOnly state after where
  rest := only.rest
  pcbs p := by rw [only.pcbs p]

namespace ProcessesOnly

theorem setState (state : State) (p : Nat) (status : ProcessState) :
    ProcessesOnly state (state.setState p status) where
  rest := rfl
  pcbs := (Kept.setState state p status).pcbs

private theorem trans (left : ProcessesOnly state middle) (right : ProcessesOnly middle after) :
    ProcessesOnly state after where
  rest := by rw [right.rest, left.rest]
  pcbs p := by rw [right.pcbs p, left.pcbs p]

theorem kept (only : ProcessesOnly state after) : Kept state after where
  rest := by rw [only.rest]
  pcbs := only.pcbs

theorem cpuData (only : ProcessesOnly state after) : after.cpuData = state.cpuData := by
  rw [only.rest]

theorem of_enqueue (adds : addqueue config (state.setState p .ready) p = some after) :
    ProcessesOnly state after :=
  (setState state p .ready).trans (LinksOnly.of_addqueue adds).processesOnly

end ProcessesOnly

/-! ## Handlers -/

/-- A CPU is given a process, or none. -/
structure Scheduled (config : Config) (cpu : Nat) (before after : State) (pcblock : Option Nat) :
    Prop where
  /-- The CPU exists. -/
  inRange : cpu < config.cpuCount
  /-- The rest is kept. -/
  kept : Kept before after
  /-- The scheduler's array. -/
  current : after.current = Function.update before.current cpu pcblock
  /-- The simulator's array. -/
  cpuData : after.cpuData = Function.update before.cpuData cpu
    { before.cpuData cpu with current := pcblock, preemptionTimer := config.timeslice }
  /-- The switch is counted. -/
  contextSwitches : after.contextSwitches = before.contextSwitches + 1

theorem ProcessesOnly.scheduled (only : ProcessesOnly state middle)
    (scheduled : Scheduled config cpu middle after pcblock) :
    Scheduled config cpu state after pcblock where
  inRange := scheduled.inRange
  kept := only.kept.trans scheduled.kept
  current := by rw [scheduled.current, only.rest]
  cpuData := by rw [scheduled.cpuData, only.rest]
  contextSwitches := by rw [scheduled.contextSwitches, only.rest]

namespace Scheduled

theorem of_finish (finishes : finish config state cpu pcblock = some after) :
    Scheduled config cpu state after pcblock := by
  have switches : ∀ {state : State}, contextSwitch config
      { state with current := Function.update state.current cpu pcblock } cpu pcblock
        config.timeslice = some after → Scheduled config cpu state after pcblock := by
    intro state switched
    obtain ⟨⟨inRange, -⟩, result⟩ := Option.ite_none_right_eq_some.mp switched
    obtain rfl := Option.some.inj result
    exact ⟨inRange, ⟨rfl, fun _ => rfl⟩, rfl, rfl, rfl⟩
  cases pcblock with
  | none => exact switches finishes
  | some p => exact (ProcessesOnly.setState state p .running).scheduled (switches finishes)

private theorem of_schedule (schedules : schedule config state cpu = some after) :
    ∃ pcblock, Scheduled config cpu state after pcblock := by
  rw [schedule_eq] at schedules
  obtain ⟨⟨removed, pcblock⟩, removes, finishes⟩ := Option.bind_eq_some_iff.mp schedules
  refine ⟨pcblock, ProcessesOnly.scheduled (LinksOnly.processesOnly ?_) (of_finish finishes)⟩
  split at removes
  · exact .of_gethighestone removes
  · obtain rfl : (get state).1 = removed := congrArg Prod.fst (Option.some.inj removes)
    exact .of_get state

end Scheduled

/-- The thread of a CPU has served an event. -/
structure Dispatched (config : Config) (cpu : Nat) (before after : State) (pcblock : Option Nat) :
    Prop where
  /-- The CPU exists. -/
  inRange : cpu < config.cpuCount
  /-- The rest is kept. -/
  kept : Kept before after
  /-- The scheduler's array. -/
  current : after.current = Function.update before.current cpu pcblock
  /-- The simulator's array. -/
  cpuData : after.cpuData = Function.update before.cpuData cpu
    { current := pcblock
      state := if pcblock = none then .idle else .running
      preemptionTimer := config.timeslice }
  /-- The switch is counted. -/
  contextSwitches : after.contextSwitches = before.contextSwitches + 1

namespace Dispatched

variable {event : CpuState}

/-- The events of a CPU thread are stored in its data before and after a handler. -/
theorem of_scheduled {started : State} (starts : Kept state started)
    (data : started.cpuData = (state.signal cpu event).cpuData)
    (current : started.current = state.current)
    (switches : started.contextSwitches = state.contextSwitches)
    (scheduled : Scheduled config cpu started middle pcblock) :
    Dispatched config cpu state (middle.settle cpu) pcblock where
  inRange := scheduled.inRange
  kept := (starts.trans scheduled.kept).trans (.modifyCpu _ _ _)
  current := by rw [← current]; exact scheduled.current
  cpuData := by
    simp [State.settle, State.modifyCpu, scheduled.cpuData, data, State.signal]
  contextSwitches := by rw [← switches]; exact scheduled.contextSwitches

/-- Every event but the one that should never happen is served by `schedule`. -/
theorem of_dispatch (served : event ≠ .running)
    (dispatches : dispatch config state cpu event = some after) :
    ∃ pcblock, Dispatched config cpu state after pcblock := by
  cases event with
  | running => exact absurd rfl served
  | idle =>
      obtain ⟨handled, handles, result⟩ := Option.bind_eq_some_iff.mp dispatches
      obtain rfl := Option.some.inj result
      obtain ⟨pcblock, scheduled⟩ := Scheduled.of_schedule handles
      exact ⟨pcblock, of_scheduled (.modifyCpu _ _ _) rfl rfl rfl scheduled⟩
  | preempt =>
      obtain ⟨handled, handles, result⟩ := Option.bind_eq_some_iff.mp dispatches
      obtain rfl := Option.some.inj result
      obtain ⟨p, -, handles⟩ := Option.bind_eq_some_iff.mp handles
      obtain ⟨queued, adds, handles⟩ := Option.bind_eq_some_iff.mp handles
      obtain ⟨pcblock, scheduled⟩ := Scheduled.of_schedule handles
      exact ⟨pcblock, of_scheduled (.modifyCpu _ _ _) rfl rfl rfl
        ((ProcessesOnly.of_enqueue adds).scheduled scheduled)⟩
  | yield =>
      obtain ⟨handled, handles, result⟩ := Option.bind_eq_some_iff.mp dispatches
      obtain rfl := Option.some.inj result
      obtain ⟨p, -, handles⟩ := Option.bind_eq_some_iff.mp handles
      obtain ⟨pcblock, scheduled⟩ := Scheduled.of_schedule handles
      exact ⟨pcblock, of_scheduled (.modifyCpu _ _ _) rfl rfl rfl
        ((ProcessesOnly.setState _ p _).scheduled scheduled)⟩
  | terminate =>
      obtain ⟨handled, handles, result⟩ := Option.bind_eq_some_iff.mp dispatches
      obtain rfl := Option.some.inj result
      obtain ⟨p, -, handles⟩ := Option.bind_eq_some_iff.mp handles
      obtain ⟨pcblock, scheduled⟩ := Scheduled.of_schedule handles
      have counted : Kept state { state.signal cpu .terminate with
          processesTerminated := state.processesTerminated + 1 } := ⟨rfl, fun _ => rfl⟩
      exact ⟨pcblock, of_scheduled counted rfl rfl rfl
        ((ProcessesOnly.setState _ p _).scheduled scheduled)⟩

end Dispatched

theorem Kept.of_forcePreempt (preempts : forcePreempt config state cpu = some after) :
    Kept state after := by
  obtain ⟨-, preempts⟩ := Option.ite_none_right_eq_some.mp preempts
  split at preempts
  · obtain ⟨pcblock, dispatched⟩ := Dispatched.of_dispatch (by decide) preempts
    exact dispatched.kept
  · obtain rfl := Option.some.inj preempts
    exact .refl state

theorem Kept.of_wakeUp (wakes : wakeUp config state p = some after) : Kept state after := by
  obtain ⟨queued, adds, wakes⟩ := Option.bind_eq_some_iff.mp wakes
  refine (ProcessesOnly.of_enqueue adds).kept.trans ?_
  split at wakes
  · split at wakes
    · obtain rfl := Option.some.inj wakes
      exact .refl queued
    · split at wakes
      · obtain ⟨stop, -, preempts⟩ := Option.bind_eq_some_iff.mp wakes
        exact .of_forcePreempt preempts
      · obtain rfl := Option.some.inj wakes
        exact .refl queued
  · obtain rfl := Option.some.inj wakes
    exact .refl queued

/-- Without static priorities `wake_up` adds to the ready list only. -/
theorem ProcessesOnly.of_wakeUp (dynamic : config.staticPrior = false)
    (wakes : wakeUp config state p = some after) : ProcessesOnly state after := by
  obtain ⟨queued, adds, wakes⟩ := Option.bind_eq_some_iff.mp wakes
  rw [dynamic] at wakes
  obtain rfl := Option.some.inj wakes
  exact .of_enqueue adds

end CS2200.Scheduling
