import CS2200.Scheduling.Runtime
import Mathlib.Data.List.ReduceOption

/-!
# The Gantt chart

Every line of the chart agrees with the state in which it is printed: it counts the processes in
each state, the CPUs that are not idle run those that are running, and the queue of I/O requests
holds those that are waiting.
-/

namespace CS2200.Scheduling

open LinkedList

/-! ## Counting -/

/-- Counters that are raised for some states. -/
def Counts.after (counts : Counts) (statuses : List ProcessState) : Counts where
  ready := counts.ready + .ofNat (statuses.count .ready)
  running := counts.running + .ofNat (statuses.count .running)
  waiting := counts.waiting + .ofNat (statuses.count .waiting)

namespace Counts

private theorem after_nil (counts : Counts) : counts.after [] = counts := by
  simp [after]

private theorem count_after (counts : Counts) (status : ProcessState) (rest : List ProcessState) :
    (counts.count status).after rest = counts.after (status :: rest) := by
  cases status <;>
    simp [after, count, UInt32.ofNat_add, UInt32.add_assoc, UInt32.add_comm]

/-- The loop of `print_gantt_line` over the processes. -/
theorem foldl_count (state : State) (processes : List Nat) (current counters : Counts) :
    processes.foldl (fun (current, counters) n =>
      (current.count (state.pcbs n).state, counters.count (state.pcbs n).state))
        (current, counters) =
      (current.after (processes.map fun n => (state.pcbs n).state),
        counters.after (processes.map fun n => (state.pcbs n).state)) := by
  induction processes generalizing current counters with
  | nil => simp [after_nil]
  | cons n processes ih => simp [ih, count_after]

end Counts

private theorem count_le_countP_ne_new (statuses : List ProcessState) :
    statuses.count .ready + statuses.count .running + statuses.count .waiting ≤
      statuses.countP (· ≠ .new) := by
  induction statuses with
  | nil => exact Nat.le_refl _
  | cons status statuses ih =>
      cases status <;> simp at ih ⊢ <;> omega

/-! ## Lines -/

/-- The states of the processes. -/
def State.statuses (config : Config) (state : State) : List ProcessState :=
  (List.range config.processCount).map fun p => (state.pcbs p).state

/-- The line that is printed at a tick agrees with the states of the processes. -/
structure Line.Sound (config : Config) (index : Nat) (state : State) (line : Line) : Prop where
  /-- Lines are printed at every tick. -/
  time : line.time = .ofNat index
  /-- The processes that are ready. -/
  ready : line.current.ready.toNat = (state.statuses config).count .ready
  /-- The processes that are running. -/
  running : line.current.running.toNat = (state.statuses config).count .running
  /-- The processes that are waiting. -/
  waiting : line.current.waiting.toNat = (state.statuses config).count .waiting
  /-- The CPUs run what the scheduler has given them. -/
  cpus : line.cpus = (List.range config.cpuCount).map state.current
  /-- Processes that are running are on the CPUs. -/
  onCpus : ∀ p, some p ∈ line.cpus ↔ p < config.processCount ∧ (state.pcbs p).state = .running
  /-- No process is on two CPUs. -/
  apart : line.cpus.reduceOption.Nodup
  /-- Processes that are waiting are in the queue. -/
  queued : ∀ p, p ∈ line.ioQueue ↔ p < config.processCount ∧ (state.pcbs p).state = .waiting
  /-- No process is in the queue twice. -/
  once : line.ioQueue.Nodup
  /-- Only processes that were created are in a state that is counted. -/
  created : line.current.ready.toNat + line.current.running.toNat + line.current.waiting.toNat ≤
    min config.processCount ((index + 9) / 10)

section Lines

variable {config : Config} {programs : Nat → Program} {state : State} {view : View}
  {waiting : List Nat}

/-- A place that holds the processes of a state holds as many as are counted. -/
theorem State.count_statuses {status : ProcessState} {place : List Nat} (nodup : place.Nodup)
    (holds : ∀ p, p ∈ place ↔ p < config.processCount ∧ (state.pcbs p).state = status) :
    (state.statuses config).count status = place.length := by
  have counts : (state.statuses config).count status =
      ((List.range config.processCount).filter fun p => (state.pcbs p).state = status).length := by
    rw [State.statuses, List.count_eq_countP, List.countP_map, List.countP_eq_length_filter]
    congr 2
  rw [counts]
  refine List.Perm.length_eq ((List.perm_ext_iff_of_nodup (List.nodup_range.filter _) nodup).mpr ?_)
  intro p
  rw [List.mem_filter, List.mem_range, holds, decide_eq_true_eq]

private theorem Line.Sound.running_eq {index : Nat} {line : Line}
    (sound : line.Sound config index state) :
    line.current.running.toNat = line.cpus.reduceOption.length := by
  refine sound.running.trans (State.count_statuses sound.apart fun p => ?_)
  rw [List.reduceOption_mem_iff, sound.onCpus]

/-- What `print_gantt_line` prints. -/
theorem printGanttLine_eq {supervisor printed : Supervisor}
    (chained : Chained supervisor.state waiting)
    (prints : printGanttLine config supervisor = some printed) :
    printed.counters = supervisor.counters.after (supervisor.state.statuses config) ∧
      printed.chart = supervisor.chart ++
        [{ time := supervisor.simulatorTime
           current := Counts.after ⟨0, 0, 0⟩ (supervisor.state.statuses config)
           cpus := (List.range config.cpuCount).map fun n =>
             (supervisor.state.cpuData n).current
           ioQueue := supervisor.state.requesters waiting }] := by
  have queue : ∀ (names requests : List Nat), requests.foldl
      (fun names r => names ++ [(supervisor.state.requests r).pcb]) names =
        names ++ supervisor.state.requesters requests := by
    intro names requests
    induction requests generalizing names with
    | nil => simp [State.requesters]
    | cons request requests ih => simp [ih, State.requesters]
  rw [printGanttLine, chained.queue.foldFrom_eq _ _ chained.length_le, queue] at prints
  simp only [Counts.foldl_count] at prints
  rw [← Option.some.inj prints]
  exact ⟨rfl, rfl⟩

section Sound

variable {index : Nat} {watched : Watched} (timely : Timely config programs watched)
  (located : Located config programs watched.supervisor.state view waiting)

include timely located

private theorem Timely.count_le :
    (watched.supervisor.state.statuses config).count .ready +
      (watched.supervisor.state.statuses config).count .running +
      (watched.supervisor.state.statuses config).count .waiting ≤
        min config.processCount ((watched.iterations + 9) / 10) := by
  refine (count_le_countP_ne_new _).trans ?_
  rw [State.statuses, List.countP_map, List.countP_eq_length_filter, ← timely.created]
  have bounded : ((List.range config.processCount).filter
      ((fun status => decide (status ≠ ProcessState.new)) ∘
        fun p => (watched.supervisor.state.pcbs p).state)) ⊆
          List.range watched.supervisor.state.processesCreated := by
    intro p member
    obtain ⟨inRange, notNew⟩ := List.mem_filter.mp member
    rw [List.mem_range]
    by_contra later
    refine of_decide_eq_true notNew ((located.placed (List.mem_range.mp inRange)).created.mpr ?_)
    exact Nat.not_lt.mp later
  simpa using (List.subperm_of_subset (List.nodup_range.filter _) bounded).length_le

/-- Lines are printed as the state is. -/
theorem Timely.sound (small : 10 * config.processCount < 2 ^ 32) :
    Line.Sound config watched.iterations watched.supervisor.state
    { time := watched.supervisor.simulatorTime
      current := Counts.after ⟨0, 0, 0⟩ (watched.supervisor.state.statuses config)
      cpus := (List.range config.cpuCount).map fun n =>
        (watched.supervisor.state.cpuData n).current
      ioQueue := watched.supervisor.state.requesters waiting } := by
  have counts := timely.count_le located
  have exactly : ∀ status, (watched.supervisor.state.statuses config).count status < 2 ^ 32 →
      ((0 : UInt32) + .ofNat ((watched.supervisor.state.statuses config).count status)).toNat =
        (watched.supervisor.state.statuses config).count status := by
    intro status less
    rw [UInt32.zero_add, UInt32.toNat_ofNat', Nat.mod_eq_of_lt less]
  have ready := exactly .ready (by omega)
  have running := exactly .running (by omega)
  have waits := exactly .waiting (by omega)
  have onCpus : ((List.range config.cpuCount).map fun n =>
      (watched.supervisor.state.cpuData n).current).reduceOption =
        (List.range config.cpuCount).filterMap view.current := by
    simp only [located.shows.mirror, List.reduceOption, List.filterMap_map]
    rfl
  have nodup : ((List.range config.cpuCount).filterMap view.current).Nodup :=
    List.nodup_range.filterMap fun cpu other p first second =>
      located.wellFormed.single first second
  have created : ∀ {p status}, view.status p = status → status ≠ .new →
      p < config.processCount := by
    rintro p _ rfl notNew
    exact located.wellFormed.processes notNew
  have given : (fun n => (watched.supervisor.state.cpuData n).current) =
      watched.supervisor.state.current := by
    rw [located.shows.current]
    exact funext located.shows.mirror
  refine ⟨timely.time, ready, running, waits, congrArg (List.map · _) given, fun p => ?_,
    onCpus ▸ nodup, fun p => ?_, located.queued.nodup, ?_⟩
  · rw [← List.reduceOption_mem_iff, onCpus, List.mem_filterMap, located.shows.status,
      and_iff_right_of_imp fun runs => created runs (by decide), located.wellFormed.running]
    refine exists_congr fun cpu => and_iff_right_of_imp fun current => ?_
    exact List.mem_range.mpr (located.wellFormed.cpus current)
  · rw [located.queued.waits, View.role, ProcessState.role_eq_waiting, located.shows.status,
      and_iff_right_of_imp fun waits => created waits (by decide)]
  · change UInt32.toNat (0 + _) + UInt32.toNat (0 + _) + UInt32.toNat (0 + _) ≤ _
    rw [ready, running, waits]
    exact counts

end Sound

/-! ## Runs -/

/-- Counters are raised by the numbers of a line. -/
def Counts.add (counts : Counts) (line : Line) : Counts where
  ready := counts.ready + line.current.ready
  running := counts.running + line.current.running
  waiting := counts.waiting + line.current.waiting

/-- The counters of some lines. -/
def Counts.sum (chart : List Line) : Counts := chart.foldl Counts.add ⟨0, 0, 0⟩

/-- What was printed up to now. -/
structure Charted (config : Config) (programs : Nat → Program) (turns : List (List Event))
    (watched : Watched) : Prop where
  /-- A line is printed in every iteration. -/
  length : watched.supervisor.chart.length = turns.length
  /-- Lines agree with the states before their iterations. -/
  lines : ∀ index (line : Line), watched.supervisor.chart[index]? = some line →
    ∃ before, Supervises config programs (turns.take index) before ∧
      line.Sound config index before.supervisor.state
  /-- The counters of the statistics. -/
  counters : watched.supervisor.counters = .sum watched.supervisor.chart
  /-- Running processes use their bursts. -/
  running : (watched.supervisor.chart.map fun line => line.current.running.toNat).sum +
    watched.supervisor.state.cpuCalls config ≤ cpuCalls config programs

private theorem Charted.start (config : Config) (programs : Nat → Program) :
    Charted config programs [] (.start programs) where
  length := rfl
  lines := by simp [Watched.start]
  counters := rfl
  running := by
    change 0 + cpuCalls config programs ≤ _
    omega

private theorem Charted.iterate {turns : List (List Event)} {before watched : Watched}
    {events : List Event}
    (alternating : ∀ p < config.processCount, Alternating ((programs p).ops.map Op.type))
    (ranked : (startSimulator programs).Ranked config)
    (small : 10 * config.processCount < 2 ^ 32) (charted : Charted config programs turns before)
    (run : Supervises config programs turns before) (timely : Timely config programs before)
    (iterates : before.iterate config events = some watched) :
    Charted config programs (turns ++ [events]) watched := by
  obtain ⟨supervisor, supervises, result⟩ := Option.bind_eq_some_iff.mp iterates
  obtain rfl := Option.some.inj result
  have iteration := Iteration.of_supervise supervises
  obtain ⟨printed, prints, counters, chart⟩ := iteration.prints
  obtain ⟨view, waiting, located⟩ := timely.reached.located alternating ranked
  obtain ⟨counts, lines⟩ := printGanttLine_eq located.queued.chained prints
  have sound := timely.sound located small
  rw [run.iterations] at sound
  refine ⟨?_, fun index line found => ?_, ?_, ?_⟩
  · simp only [chart, lines, List.length_append, charted.length, List.length_singleton]
  · simp only [chart, lines] at found
    rcases Nat.lt_trichotomy index turns.length with earlier | rfl | later
    · rw [List.getElem?_append_left (charted.length ▸ earlier)] at found
      rw [List.take_append_of_le_length (Nat.le_of_lt earlier)]
      exact charted.lines index line found
    · rw [← charted.length, List.getElem?_concat_length] at found
      rw [List.take_left, ← Option.some.inj found]
      exact ⟨before, run, sound⟩
    · rw [List.getElem?_eq_none] at found
      · cases found
      · rw [List.length_append, charted.length]
        exact later
  · simp only [chart, counters, counts, lines, charted.counters]
    simp [Counts.sum, Counts.add, Counts.after]
  · have order := iteration.order
    rw [turn, List.range_eq_range'] at order
    have work := timely.reached.runs_cpus alternating ranked iteration.runs order
    have least := charted.running
    have busy := sound.running_eq
    dsimp only at busy
    rw [List.reduceOption_length_eq, ← List.countP_eq_length_filter, List.countP_map,
      List.range_eq_range'] at busy
    have same : (List.range' 0 config.cpuCount).countP
        (Option.isSome ∘ fun n => (before.supervisor.state.cpuData n).current) =
          (List.range' 0 config.cpuCount).countP
            (fun n => (before.supervisor.state.cpuData n).current ≠ none) :=
      List.countP_congr fun n _ => by simp [Option.isSome_iff_ne_none]
    simp only [chart, lines, List.map_append, List.sum_append, List.map_cons, List.map_nil,
      List.sum_cons, List.sum_nil]
    omega

/-- Every line of the Gantt chart agrees with the state before its iteration, the counters and the
statistics that are printed at the end are the sums of its columns, and the processes were not seen
to run for longer than their bursts are. -/
theorem chart_sound {turns : List (List Event)} {watched : Watched}
    (alternating : ∀ p < config.processCount, Alternating ((programs p).ops.map Op.type))
    (ranked : (startSimulator programs).Ranked config) (cpus : 1 ≤ config.cpuCount)
    (small : 10 * config.processCount < 2 ^ 32)
    (run : Supervises config programs turns watched) :
    watched.supervisor.chart.length = turns.length ∧
    (∀ index (line : Line), watched.supervisor.chart[index]? = some line →
      ∃ before, Supervises config programs (turns.take index) before ∧
        line.Sound config index before.supervisor.state) ∧
    watched.supervisor.counters = .sum watched.supervisor.chart ∧
    (printFinalStats watched.supervisor).simulatorTime = .ofNat watched.supervisor.chart.length ∧
    (printFinalStats watched.supervisor).readyCounter =
      (Counts.sum watched.supervisor.chart).ready ∧
    (watched.supervisor.chart.map fun line => line.current.running.toNat).sum ≤
      cpuCalls config programs := by
  have timely := Supervises.timely alternating ranked cpus small run
  have charted : Charted config programs turns watched := by
    induction run with
    | nil => exact .start config programs
    | snoc earlier last ih =>
        have before := Supervises.timely alternating ranked cpus small earlier
        exact (ih before).iterate alternating ranked small earlier before last
  have time : watched.supervisor.simulatorTime = .ofNat watched.supervisor.chart.length := by
    rw [timely.time, run.iterations, charted.length]
  exact ⟨charted.length, charted.lines, charted.counters, time,
    congrArg Counts.ready charted.counters, Nat.le_trans (Nat.le_add_right _ _) charted.running⟩

theorem chart_sound_roundRobin : ∃ turns watched,
    Supervises roundRobin requesting turns watched ∧ watched.supervisor.Exits roundRobin ∧
      watched.supervisor.chart.length = 14 ∧
      (printFinalStats watched.supervisor).simulatorTime = .ofNat watched.supervisor.chart.length ∧
      (printFinalStats watched.supervisor).readyCounter =
        (Counts.sum watched.supervisor.chart).ready ∧
      (watched.supervisor.chart.map fun line => line.current.running.toNat).sum ≤ 6 := by
  let created : List (List Event) :=
    [[.cpu 0, .io, .creat, .idle 0], [.cpu 0, .io], [.cpu 0, .io, .idle 0], [.cpu 0, .io]]
  let turns := created ++ List.replicate 6 [.cpu 0, .io] ++ created
  let watched := (turns.foldlM (Watched.iterate roundRobin) (.start requesting)).get (by decide)
  have run : Supervises roundRobin requesting turns watched :=
    Trace.of_foldlM (Option.some_get _).symm
  have alternating : ∀ p < roundRobin.processCount,
      Alternating ((requesting p).ops.map Op.type) := fun _ _ => .burst .last
  have ranked : (startSimulator requesting).Ranked roundRobin := fun _ _ =>
    ⟨Nat.le_refl 1, Nat.le_add_left 1 9⟩
  obtain ⟨length, -, -, time, ready, running⟩ :=
    chart_sound alternating ranked (by decide) (by decide) run
  exact ⟨turns, watched, run, by decide, length, time, ready, running⟩

end Lines

end CS2200.Scheduling
