import CS2200.Scheduling.Work
import Mathlib.Algebra.BigOperators.Group.Finset.Piecewise

/-!
# The supervisor

The loop of `simulator_supervisor_thread` prints a line of the Gantt chart, simulates the CPUs and
the I/O device, and creates a process at every tenth tick, until all processes have terminated. Idle
CPUs may find a process in the ready list at any time between.
-/

namespace CS2200.Scheduling

open LinkedList

/-! ## The loop -/

/-- `current_ready` and the like, or `ready_counter` and the like. -/
structure Counts where
  /-- Ready processes. -/
  ready : UInt32
  /-- Running processes. -/
  running : UInt32
  /-- Waiting processes. -/
  waiting : UInt32
  deriving DecidableEq, Repr

/-- The `switch` of `print_gantt_line`. -/
def Counts.count (counts : Counts) : ProcessState → Counts
  | .ready => { counts with ready := counts.ready + 1 }
  | .running => { counts with running := counts.running + 1 }
  | .waiting => { counts with waiting := counts.waiting + 1 }
  | _ => counts

/-- A line of the Gantt chart. Processes stand for their names. -/
structure Line where
  /-- `simulator_time`. -/
  time : UInt32
  /-- Number of processes in each state. -/
  current : Counts
  /-- The process that each CPU runs, if it is not idle. -/
  cpus : List (Option Nat)
  /-- The processes of the queue of I/O requests. -/
  ioQueue : List Nat
  deriving DecidableEq, Repr

/-- The globals with those that only the supervisor uses, and what it has printed. -/
structure Supervisor where
  /-- The other globals. -/
  state : State
  /-- `simulator_time`. -/
  simulatorTime : UInt32
  /-- `ready_counter`, `running_counter` and `waiting_counter`. -/
  counters : Counts
  /-- The Gantt chart. -/
  chart : List Line

/-- `print_gantt_line`. -/
def printGanttLine (config : Config) (supervisor : Supervisor) : Option Supervisor := do
  let state := supervisor.state
  let (current, counters) := (List.range config.processCount).foldl
    (fun (current, counters) n =>
      (current.count (state.pcbs n).state, counters.count (state.pcbs n).state))
    ((⟨0, 0, 0⟩ : Counts), supervisor.counters)
  let cpus := (List.range config.cpuCount).map fun n => (state.cpuData n).current
  let ioQueue ← foldFrom state.nextRequest (fun names r => names ++ [(state.requests r).pcb])
    state.allocated state.ioQueueHead []
  some { supervisor with
    counters
    chart := supervisor.chart ++ [{ time := supervisor.simulatorTime, current, cpus, ioQueue }] }

/-- What `print_final_stats` prints; the times are divided by ten. -/
structure FinalStats where
  /-- `context_switches`. -/
  contextSwitches : UInt32
  /-- `simulator_time`. -/
  simulatorTime : UInt32
  /-- `ready_counter`. -/
  readyCounter : UInt32
  deriving DecidableEq, Repr

/-- `print_final_stats`. -/
def printFinalStats (supervisor : Supervisor) : FinalStats where
  contextSwitches := supervisor.state.contextSwitches
  simulatorTime := supervisor.simulatorTime
  readyCounter := supervisor.counters.ready

/-- The supervisor prints the final statistics and exits. -/
def Supervisor.Exits (config : Config) (supervisor : Supervisor) : Prop :=
  supervisor.state.processesTerminated ≥ .ofNat config.processCount

instance (config : Config) (supervisor : Supervisor) : Decidable (supervisor.Exits config) :=
  inferInstanceAs (Decidable (_ ≥ _))

/-- What the supervisor simulates in an iteration: `simulate_cpus`, `simulate_io` and
`simulate_creat`. -/
def turn (config : Config) (time : UInt32) : List Event :=
  (List.range config.cpuCount).map .cpu ++ .io :: if time % 10 = 0 then [.creat] else []

/-- An event of the supervisor, not of an idle CPU. -/
def Event.supervised : Event → Bool
  | .idle _ => false
  | _ => true

/-- An iteration that does not exit, with the events of the supervisor and of idle CPUs. -/
def supervise (config : Config) (before : Supervisor) (events : List Event) : Option Supervisor :=
  if before.Exits config then none
  else if events.filter Event.supervised = turn config before.simulatorTime then do
    let printed ← printGanttLine config before
    let state ← events.foldlM (simulateEnabled config) printed.state
    some { printed with state, simulatorTime := printed.simulatorTime + 1 }
  else none

/-- A CPU is idle though a process is ready. -/
def State.Late (config : Config) (state : State) : Prop :=
  state.qHead ≠ none ∧ ∃ n < config.cpuCount, (state.cpuData n).current = none

instance (config : Config) (state : State) : Decidable (state.Late config) :=
  inferInstanceAs (Decidable (_ ∧ _))

/-- The supervisor with a record of its iterations. -/
structure Watched where
  /-- The globals. -/
  supervisor : Supervisor
  /-- Number of iterations. -/
  iterations : Nat
  /-- Number of iterations that began with an idle CPU and a ready process. -/
  late : Nat

namespace Watched

/-- Before the loop. -/
def start (programs : Nat → Program) : Watched where
  supervisor :=
    { state := startSimulator programs
      simulatorTime := 0
      counters := ⟨0, 0, 0⟩
      chart := [] }
  iterations := 0
  late := 0

/-- An iteration, which is recorded. -/
def iterate (config : Config) (before : Watched) (events : List Event) : Option Watched := do
  let supervisor ← supervise config before.supervisor events
  some
    { supervisor
      iterations := before.iterations + 1
      late := if before.supervisor.state.Late config then before.late + 1 else before.late }

end Watched

/-! ## Terminated processes -/

section Terminated

variable {config : Config} {programs : Nat → Program} {state after : State} {view : View}
  {waiting : List Nat} {event : Event} {cpu p : Nat}

private theorem processesTerminated_of_schedule
    (schedules : schedule config state cpu = some after) :
    after.processesTerminated = state.processesTerminated := by
  rw [schedule_eq] at schedules
  obtain ⟨⟨removed, pcblock⟩, removes, finishes⟩ := Option.bind_eq_some_iff.mp schedules
  have links : LinksOnly state removed := by
    split at removes
    · exact .of_gethighestone removes
    · obtain rfl : (get state).1 = removed := congrArg Prod.fst (Option.some.inj removes)
      exact .of_get state
  have kept : after.processesTerminated = removed.processesTerminated := by
    cases pcblock with
    | none =>
        obtain ⟨-, result⟩ := Option.ite_none_right_eq_some.mp finishes
        rw [← Option.some.inj result]
        rfl
    | some p =>
        obtain ⟨-, result⟩ := Option.ite_none_right_eq_some.mp finishes
        rw [← Option.some.inj result]
        rfl
  rw [kept, links.rest]

theorem processesTerminated_of_dispatch {event : CpuState}
    (dispatches : dispatch config state cpu event = some after) :
    after.processesTerminated =
      state.processesTerminated + if event = .terminate then 1 else 0 := by
  cases event with
  | running =>
      obtain rfl := Option.some.inj dispatches
      exact (UInt32.add_zero _).symm
  | idle =>
      obtain ⟨handled, handles, result⟩ := Option.bind_eq_some_iff.mp dispatches
      obtain rfl := Option.some.inj result
      exact (processesTerminated_of_schedule handles).trans (UInt32.add_zero _).symm
  | preempt =>
      obtain ⟨handled, handles, result⟩ := Option.bind_eq_some_iff.mp dispatches
      obtain rfl := Option.some.inj result
      obtain ⟨p, -, handles⟩ := Option.bind_eq_some_iff.mp handles
      obtain ⟨queued, adds, handles⟩ := Option.bind_eq_some_iff.mp handles
      refine (processesTerminated_of_schedule handles).trans ?_
      rw [(ProcessesOnly.of_enqueue adds).rest]
      exact (UInt32.add_zero _).symm
  | yield =>
      obtain ⟨handled, handles, result⟩ := Option.bind_eq_some_iff.mp dispatches
      obtain rfl := Option.some.inj result
      obtain ⟨p, -, handles⟩ := Option.bind_eq_some_iff.mp handles
      exact (processesTerminated_of_schedule handles).trans (UInt32.add_zero _).symm
  | terminate =>
      obtain ⟨handled, handles, result⟩ := Option.bind_eq_some_iff.mp dispatches
      obtain rfl := Option.some.inj result
      obtain ⟨p, -, handles⟩ := Option.bind_eq_some_iff.mp handles
      exact processesTerminated_of_schedule handles

theorem processesTerminated_of_wakeUp (wakes : wakeUp config state p = some after) :
    after.processesTerminated = state.processesTerminated := by
  obtain ⟨queued, adds, wakes⟩ := Option.bind_eq_some_iff.mp wakes
  have enqueued : queued.processesTerminated = state.processesTerminated := by
    rw [(ProcessesOnly.of_enqueue adds).rest]
  rw [← enqueued]
  split at wakes
  · split at wakes
    · rw [Option.some.inj wakes]
    · split at wakes
      · obtain ⟨stop, -, preempts⟩ := Option.bind_eq_some_iff.mp wakes
        obtain ⟨-, preempts⟩ := Option.ite_none_right_eq_some.mp preempts
        split at preempts
        · rw [processesTerminated_of_dispatch preempts]
          exact UInt32.add_zero _
        · rw [Option.some.inj preempts]
      · rw [Option.some.inj wakes]
  · rw [Option.some.inj wakes]

/-- Number of processes that are at the end of their operations. -/
def State.finished (config : Config) (state : State) : Nat :=
  ∑ p ∈ Finset.range config.processCount,
    if (state.pcbs p).op?.map Op.type = some .terminate then 1 else 0

/-- As many processes have terminated as are counted. -/
structure Counted (config : Config) (before after : State) (more : Nat) : Prop where
  /-- `processes_terminated`. -/
  counter : after.processesTerminated = before.processesTerminated + .ofNat more
  /-- The processes. -/
  finished : after.finished config = before.finished config + more

namespace Counted

variable {more : Nat}

theorem of_none (counter : after.processesTerminated = state.processesTerminated)
    (types : ∀ p, (after.pcbs p).op?.map Op.type = some .terminate ↔
      (state.pcbs p).op?.map Op.type = some .terminate) : Counted config state after 0 where
  counter := counter.trans (UInt32.add_zero _).symm
  finished := by
    rw [State.finished, State.finished]
    simp only [types, Nat.add_zero]

theorem finished_of_kept (kept : Kept state after) :
    after.finished config = state.finished config := by
  refine Finset.sum_congr rfl fun p _ => ?_
  rw [kept.pcbs p]
  rfl

theorem kept {middle : State} (counted : Counted config state middle more)
    (kept : Kept middle after) (counter : after.processesTerminated = middle.processesTerminated) :
    Counted config state after more :=
  ⟨counter.trans counted.counter, (finished_of_kept kept).trans counted.finished⟩

theorem refl (state : State) : Counted config state state 0 := of_none rfl fun _ => .rfl

end Counted

private theorem Located.counted_process (located : Located config programs state view waiting)
    (alternating : ∀ p < config.processCount, Alternating ((programs p).ops.map Op.type))
    (current : view.current cpu = some p)
    (simulates : simulateProcess config state cpu p = some after) :
    ∃ more, Counted config state after more := by
  obtain ⟨inRange, -, op, found, type⟩ := located.burst current
  have runs : (state.pcbs p).op?.map Op.type = some .cpu := by rw [found, Option.map_some, type]
  by_cases left : op.time > 0
  · have burns : Counted config state (state.burn cpu p op) 0 := by
      refine .of_none rfl fun q => ?_
      by_cases same : q = p
      · subst same
        have inside := (List.getElem?_eq_some_iff.mp found).1
        have burnt : ((state.burn cpu q op).pcbs q).op?.map Op.type = some .cpu := by
          simp [State.burn, State.modifyCpu, State.modifyPcb, Pcb.op?, inside, type]
        rw [burnt, runs]
      · simp [State.burn, State.modifyCpu, State.modifyPcb, same]
    rw [simulateProcess_burn found type left] at simulates
    split at simulates
    · obtain ⟨pcblock, dispatched⟩ := Dispatched.of_dispatch (by decide) simulates
      exact ⟨0, burns.kept dispatched.kept
        ((processesTerminated_of_dispatch simulates).trans (UInt32.add_zero _))⟩
    · obtain rfl := Option.some.inj simulates
      exact ⟨0, burns⟩
  · rcases located.afterBurst alternating current with request | finish
    · obtain ⟨next, read, isIo⟩ := located.advanced
        (show _ = some ProcessState.waiting.opType from request) inRange
      rw [simulateProcess_advance found type left read, isIo] at simulates
      obtain ⟨pcblock, dispatched⟩ := Dispatched.of_dispatch (by decide) simulates
      have rest := submitIoRequest_rest (state.advance p) p (.ofInt next.time)
      have submits : Counted config state
          (submitIoRequest (state.advance p) p (.ofInt next.time)) 0 := by
        rw [rest]
        refine .of_none rfl fun q => ?_
        by_cases same : q = p
        · subst same
          change ((state.advance q).pcbs q).op?.map Op.type = some .terminate ↔ _
          rw [read, runs, Option.map_some, isIo]
          simp [ProcessState.opType]
        · simp [State.advance, State.modifyPcb, same]
      exact ⟨0, submits.kept dispatched.kept
        ((processesTerminated_of_dispatch simulates).trans (UInt32.add_zero _))⟩
    · obtain ⟨next, read, isEnd⟩ := located.advanced
        (show _ = some ProcessState.terminated.opType from finish) inRange
      rw [simulateProcess_advance found type left read, isEnd] at simulates
      obtain ⟨pcblock, dispatched⟩ := Dispatched.of_dispatch (by decide) simulates
      refine ⟨1, processesTerminated_of_dispatch simulates, ?_⟩
      refine (Counted.finished_of_kept dispatched.kept).trans (sum_eq_add inRange ?_ ?_)
      · rw [read, runs, Option.map_some, isEnd]
        rfl
      · intro q different
        simp [State.advance, State.modifyPcb, different]

private theorem Located.counted_io (located : Located config programs state view waiting)
    (alternating : ∀ p < config.processCount, Alternating ((programs p).ops.map Op.type))
    (simulates : simulateIo config state = some after) : Counted config state after 0 := by
  have kept := Kept.of_simulateIo simulates
  rw [simulateIo_eq] at simulates
  cases head : state.ioQueueHead with
  | none =>
      simp only [serveHead, head] at simulates
      obtain rfl := Option.some.inj simulates
      exact .refl state
  | some completed =>
      by_cases done : (state.requests completed).executionTime ≤ 0
      · rw [serveHead_complete head done] at simulates kept
        obtain ⟨status, inRange, operation⟩ := located.afterRequest alternating head
        obtain ⟨next, read, isCpu⟩ := located.advanced
          (show _ = some ProcessState.ready.opType from operation) inRange
        have waits := located.positions.position _ inRange
        rw [View.role, status] at waits
        have completes : Counted config state (state.completeHead completed) 0 := by
          refine .of_none rfl fun q => ?_
          change ((state.advance (state.requests completed).pcb).pcbs q).op?.map Op.type = _ ↔ _
          by_cases same : q = (state.requests completed).pcb
          · rw [same, read, waits, Option.map_some, isCpu]
            simp [ProcessState.opType, ProcessState.role]
          · simp [State.advance, State.modifyPcb, same]
        exact completes.kept kept (processesTerminated_of_wakeUp simulates)
      · rw [serveHead_tick head done] at simulates
        obtain rfl := Option.some.inj simulates
        exact .of_none rfl fun _ => .rfl

/-- Every event terminates a process or none. -/
theorem Located.counted (located : Located config programs state view waiting)
    (alternating : ∀ p < config.processCount, Alternating ((programs p).ops.map Op.type))
    (step : Step config state event after) : ∃ more, Counted config state after more := by
  obtain ⟨-, simulates⟩ := step
  cases event with
  | creat =>
      simp only [simulate, simulateCreat] at simulates
      split at simulates
      · obtain ⟨woken, wakes, result⟩ := Option.bind_eq_some_iff.mp simulates
        obtain rfl := Option.some.inj result
        obtain ⟨counter, finished⟩ := (@Counted.refl config state).kept
          (Kept.of_wakeUp wakes) (processesTerminated_of_wakeUp wakes)
        exact ⟨0, counter, finished⟩
      · obtain rfl := Option.some.inj simulates
        exact ⟨0, .refl state⟩
  | idle n =>
      have dispatches : dispatch config state n .idle = some after := simulates
      obtain ⟨pcblock, dispatched⟩ := Dispatched.of_dispatch (by decide) dispatches
      exact ⟨0, (Counted.refl state).kept dispatched.kept
        ((processesTerminated_of_dispatch dispatches).trans (UInt32.add_zero _))⟩
  | io => exact ⟨0, located.counted_io alternating simulates⟩
  | cpu n =>
      have runs : simulateCpu config state n = some after := simulates
      rw [simulateCpu] at runs
      cases current : (state.cpuData n).current with
      | none =>
          rw [current] at runs
          obtain rfl := Option.some.inj runs
          exact ⟨0, .refl state⟩
      | some p =>
          rw [current] at runs
          exact located.counted_process alternating
            ((located.shows.mirror n).symm.trans current) runs

section Runs

variable
  (alternating : ∀ p < config.processCount, Alternating ((programs p).ops.map Op.type))
  (ranked : (startSimulator programs).Ranked config)

include alternating ranked

/-- `processes_terminated` counts the processes that have terminated. -/
theorem Reached.processesTerminated (reached : Reached config programs state) :
    state.processesTerminated = .ofNat (state.finished config) := by
  obtain ⟨events, trace⟩ := reached
  induction trace with
  | nil =>
      have none : (startSimulator programs).finished config = 0 := by
        refine Finset.sum_eq_zero fun p member => if_neg ?_
        have first := (alternating p (Finset.mem_range.mp member)).first
        rw [List.getElem?_map] at first
        change (programs p).ops[0]?.map Op.type ≠ some .terminate
        rw [first]
        decide
      rw [none]
      rfl
  | snoc trace last ih =>
      obtain ⟨view, waiting, located⟩ := located_of_trace alternating ranked trace
      obtain ⟨more, counter, finished⟩ := located.counted alternating last
      rw [counter, ih, finished, UInt32.ofNat_add]

/-- The supervisor exits exactly when all processes have terminated. -/
theorem exits_iff {supervisor : Supervisor} (small : config.processCount < 2 ^ 32)
    (reached : Reached config programs supervisor.state) :
    supervisor.Exits config ↔
      ∀ p < config.processCount, (supervisor.state.pcbs p).state = .terminated := by
  obtain ⟨view, waiting, located⟩ := reached.located alternating ranked
  have ended : ∀ p < config.processCount,
      ((supervisor.state.pcbs p).op?.map Op.type = some .terminate ↔
        (supervisor.state.pcbs p).state = .terminated) := by
    intro p inRange
    rw [(located.placed inRange).position]
    cases (supervisor.state.pcbs p).state <;> simp [ProcessState.opType]
  have counts : supervisor.state.finished config = ((Finset.range config.processCount).filter
      fun p => (supervisor.state.pcbs p).op?.map Op.type = some .terminate).card :=
    (Finset.card_filter _ _).symm
  have most : supervisor.state.finished config ≤ config.processCount := by
    rw [counts]
    exact (Finset.card_filter_le _ _).trans_eq (Finset.card_range _)
  have all : supervisor.state.finished config = config.processCount ↔
      ∀ p < config.processCount, (supervisor.state.pcbs p).state = .terminated := by
    rw [counts]
    nth_rewrite 2 [← Finset.card_range config.processCount]
    rw [Finset.card_filter_eq_iff]
    refine forall_congr' fun p => ?_
    rw [Finset.mem_range]
    exact forall_congr' fun inRange => ended p inRange
  rw [← all, Supervisor.Exits, reached.processesTerminated alternating ranked, ge_iff_le,
    UInt32.le_iff_toNat_le, UInt32.toNat_ofNat', UInt32.toNat_ofNat',
    Nat.mod_eq_of_lt small, Nat.mod_eq_of_lt (Nat.lt_of_le_of_lt most small)]
  omega

end Runs

end Terminated

end CS2200.Scheduling
