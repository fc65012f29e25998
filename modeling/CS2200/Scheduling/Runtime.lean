import CS2200.Scheduling.Supervisor

/-!
# How long the simulation takes

After the last process was created, every iteration of the supervisor does a part of the work that
the programs need, unless it begins with an idle CPU and a ready process. The simulation ends after
the work is done, whatever the policy, the number of CPUs and the order of events are.
-/

namespace CS2200.Scheduling

open LinkedList

section Runtime

variable {config : Config} {programs : Nat → Program} {state middle after : State}
  {waiting : List Nat} {event : Event} {events : List Event} {cpu other p : Nat}

/-! ## Iterations -/

/-- What an iteration does. -/
structure Iteration (config : Config) (before : Supervisor) (events : List Event)
    (after : Supervisor) : Prop where
  /-- Some process has not terminated. -/
  continues : ¬ before.Exits config
  /-- The supervisor takes its turn. -/
  order : events.filter Event.supervised = turn config before.simulatorTime
  /-- The events happen. -/
  runs : events.foldlM (simulateEnabled config) before.state = some after.state
  /-- Time passes. -/
  time : after.simulatorTime = before.simulatorTime + 1
  /-- A line is printed before. -/
  prints : ∃ printed, printGanttLine config before = some printed ∧
    after.counters = printed.counters ∧ after.chart = printed.chart

theorem state_printGanttLine {supervisor printed : Supervisor}
    (prints : printGanttLine config supervisor = some printed) :
    printed.state = supervisor.state ∧ printed.simulatorTime = supervisor.simulatorTime := by
  obtain ⟨ioQueue, -, result⟩ := Option.bind_eq_some_iff.mp prints
  rw [← Option.some.inj result]
  exact ⟨rfl, rfl⟩

theorem Iteration.of_supervise {before after : Supervisor}
    (supervises : supervise config before events = some after) :
    Iteration config before events after := by
  obtain ⟨continues, supervises⟩ := Option.ite_none_left_eq_some.mp supervises
  obtain ⟨order, supervises⟩ := Option.ite_none_right_eq_some.mp supervises
  obtain ⟨printed, prints, supervises⟩ := Option.bind_eq_some_iff.mp supervises
  obtain ⟨state, runs, result⟩ := Option.bind_eq_some_iff.mp supervises
  obtain rfl := Option.some.inj result
  obtain ⟨sameState, sameTime⟩ := state_printGanttLine prints
  rw [sameState] at runs
  exact ⟨continues, order, runs, congrArg (· + 1) sameTime, printed, prints, rfl, rfl⟩

/-! ## Events of an iteration -/

theorem foldlM_cons_eq_some :
    (event :: events).foldlM (simulateEnabled config) state = some after ↔
      ∃ middle, Step config state event middle ∧
        events.foldlM (simulateEnabled config) middle = some after := by
  rw [List.foldlM_cons]
  refine Option.bind_eq_some_iff.trans (exists_congr fun middle => and_congr_left' ?_)
  rw [simulateEnabled, Option.ite_none_right_eq_some]
  rfl

theorem Reached.step (reached : Reached config programs state)
    (step : Step config state event after) :
    Reached config programs after := by
  obtain ⟨events, trace⟩ := reached
  exact ⟨_, trace.snoc step⟩

private theorem Reached.runs (reached : Reached config programs state)
    (runs : events.foldlM (simulateEnabled config) state = some after) :
    Reached config programs after := by
  induction events generalizing state with
  | nil => rwa [← Option.some.inj runs]
  | cons event events ih =>
      obtain ⟨middle, step, runs⟩ := foldlM_cons_eq_some.mp runs
      exact ih (reached.step step) runs

theorem Kept.ioQueueHead (kept : Kept state after) : after.ioQueueHead = state.ioQueueHead := by
  rw [kept.rest]

private theorem Processed.ioQueueHead {op : Op} (processed : Processed config state cpu p op after)
    (full : state.ioQueueHead ≠ none) : after.ioQueueHead ≠ none := by
  cases processed with
  | tick => exact full
  | expire _ _ dispatched =>
      rw [dispatched.kept.ioQueueHead]
      exact full
  | request _ _ _ dispatched =>
      rw [dispatched.kept.ioQueueHead, ioQueueHead_submitIoRequest]
      split
      · exact Option.some_ne_none _
      · exact full
  | finish _ _ _ dispatched =>
      rw [dispatched.kept.ioQueueHead]
      exact full

private theorem Processed.current_of_ne {op : Op}
    (processed : Processed config state cpu p op after)
    (different : other ≠ cpu) : (after.cpuData other).current = (state.cpuData other).current := by
  have burnt : (state.burn cpu p op).cpuData other = state.cpuData other := by
    simp [State.burn, State.modifyCpu, State.modifyPcb, different]
  cases processed with
  | tick => rw [burnt]
  | expire _ _ dispatched => rw [dispatched.cpuData, Function.update_of_ne different, burnt]
  | request _ _ _ dispatched =>
      rw [dispatched.cpuData, Function.update_of_ne different, submitIoRequest_rest]
      rfl
  | finish _ _ _ dispatched =>
      rw [dispatched.cpuData, Function.update_of_ne different]
      rfl

section Runs

variable
  (alternating : ∀ p < config.processCount, Alternating ((programs p).ops.map Op.type))
  (ranked : (startSimulator programs).Ranked config)

include alternating ranked

/-- The supervisor simulates an idle CPU by doing nothing. -/
theorem Reached.processed (reached : Reached config programs state)
    (step : Step config state (.cpu cpu) after) :
    after = state ∨ ∃ p op, Processed config state cpu p op after := by
  obtain ⟨view, requests, located⟩ := reached.located alternating ranked
  have runs : simulateCpu config state cpu = some after := step.2
  rw [simulateCpu] at runs
  cases current : (state.cpuData cpu).current with
  | none =>
      rw [current] at runs
      exact .inl (Option.some.inj runs).symm
  | some p =>
      rw [current] at runs
      obtain ⟨op, -, -, processed⟩ := located.processed alternating
        ((located.shows.mirror cpu).symm.trans current) runs
      exact .inr ⟨p, op, processed⟩

/-- The queue of I/O requests becomes empty by `simulate_io` only. -/
theorem Reached.ioQueueHead (reached : Reached config programs state)
    (step : Step config state event after) (notIo : event ≠ .io)
    (full : state.ioQueueHead ≠ none) : after.ioQueueHead ≠ none := by
  cases event with
  | io => exact absurd rfl notIo
  | cpu n =>
      obtain rfl | ⟨p, op, processed⟩ := reached.processed alternating ranked step
      · exact full
      · exact processed.ioQueueHead full
  | idle n =>
      obtain ⟨pcblock, dispatched⟩ := Dispatched.of_dispatch (by decide)
        (show dispatch config state n .idle = some after from step.2)
      rwa [dispatched.kept.ioQueueHead]
  | creat =>
      have simulates : simulateCreat config state = some after := step.2
      unfold simulateCreat at simulates
      split at simulates
      · obtain ⟨woken, wakes, result⟩ := Option.bind_eq_some_iff.mp simulates
        rw [← Option.some.inj result]
        exact (Kept.of_wakeUp wakes).ioQueueHead.trans_ne full
      · rwa [← Option.some.inj simulates]

/-- A CPU that is busy is still busy after another CPU was simulated or was given a process. -/
theorem Reached.busy (reached : Reached config programs state)
    (step : Step config state event after)
    (elsewhere : (∃ n, event = .idle n) ∨ ∃ n, event = .cpu n ∧ other ≠ n)
    (busy : (state.cpuData other).current ≠ none) : (after.cpuData other).current ≠ none := by
  obtain ⟨n, rfl⟩ | ⟨n, rfl, different⟩ := elsewhere
  · obtain ⟨pcblock, dispatched⟩ := Dispatched.of_dispatch (by decide)
      (show dispatch config state n .idle = some after from step.2)
    obtain ⟨view, requests, located⟩ := reached.located alternating ranked
    have different : other ≠ n := by
      rintro rfl
      have waits := step.1.2.1
      rw [located.steady, if_neg busy] at waits
      cases waits
    rwa [dispatched.cpuData, Function.update_of_ne different]
  · obtain rfl | ⟨p, op, processed⟩ := reached.processed alternating ranked step
    · exact busy
    · rwa [processed.current_of_ne different]

/-! ## The work of an iteration -/

theorem Reached.left_le (reached : Reached config programs state)
    (runs : events.foldlM (simulateEnabled config) state = some after)
    (chained : Chained state waiting) : after.cpuCalls config ≤ state.cpuCalls config ∧
      ∃ rest, Chained after rest ∧ after.ioCalls config rest ≤ state.ioCalls config waiting := by
  induction events generalizing state waiting with
  | nil =>
      obtain rfl := Option.some.inj runs
      exact ⟨Nat.le_refl _, waiting, chained, Nat.le_refl _⟩
  | cons event events ih =>
      obtain ⟨middle, step, runs⟩ := foldlM_cons_eq_some.mp runs
      obtain ⟨cpu, rest, chained, io⟩ := reached.works alternating ranked chained step
      obtain ⟨cpuLess, last, chained, ioLess⟩ := ih (reached.step step) runs chained
      exact ⟨by omega, last, chained, by omega⟩

/-- The first request of the queue is served in every iteration. -/
theorem Reached.serves (reached : Reached config programs state)
    (runs : events.foldlM (simulateEnabled config) state = some after)
    (chained : Chained state waiting) (full : state.ioQueueHead ≠ none) (member : .io ∈ events) :
    ∃ rest, Chained after rest ∧ after.ioCalls config rest + 1 ≤ state.ioCalls config waiting := by
  induction events generalizing state waiting with
  | nil => cases member
  | cons event events ih =>
      obtain ⟨middle, step, runsNext⟩ := foldlM_cons_eq_some.mp runs
      obtain ⟨-, rest, chained, io⟩ := reached.works alternating ranked chained step
      by_cases isIo : event = .io
      · subst isIo
        obtain ⟨-, last, chained, ioLess⟩ :=
          (reached.step step).left_le alternating ranked runsNext chained
        rw [Event.ioCalls, if_neg full] at io
        exact ⟨last, chained, by omega⟩
      · have later : .io ∈ events := (List.mem_cons.mp member).resolve_left (Ne.symm isIo)
        obtain ⟨last, chained, ioLess⟩ := ih (reached.step step) runsNext chained
          (reached.ioQueueHead alternating ranked step isIo full) later
        exact ⟨last, chained, by omega⟩

/-- Every CPU that is busy when its turn comes runs its process for a tick. -/
theorem Reached.runs_cpus {start count : Nat} {later : List Event}
    (reached : Reached config programs state)
    (runs : events.foldlM (simulateEnabled config) state = some after)
    (order : events.filter Event.supervised = (List.range' start count).map .cpu ++ later) :
    after.cpuCalls config +
      (List.range' start count).countP (fun n => (state.cpuData n).current ≠ none) ≤
        state.cpuCalls config := by
  induction events generalizing state start count with
  | nil =>
      obtain rfl := Option.some.inj runs
      cases count with
      | zero => exact Nat.le_refl _
      | succ count => simp [List.range'_succ] at order
  | cons event events ih =>
      obtain ⟨middle, step, rest⟩ := foldlM_cons_eq_some.mp runs
      obtain ⟨view, waiting, located⟩ := reached.located alternating ranked
      have chained := located.queued.chained
      have work := (reached.works alternating ranked chained step).cpu
      have more : ∀ {cpus : List Nat},
          (∀ n ∈ cpus, (∃ m, event = .idle m) ∨ ∃ m, event = .cpu m ∧ n ≠ m) →
            cpus.countP (fun n => (state.cpuData n).current ≠ none) ≤
              cpus.countP (fun n => (middle.cpuData n).current ≠ none) := by
        intro cpus elsewhere
        refine List.countP_mono_left fun n member busy => ?_
        exact decide_eq_true (reached.busy alternating ranked step (elsewhere n member)
          (of_decide_eq_true busy))
      cases supervised : event.supervised with
      | false =>
          obtain ⟨m, rfl⟩ : ∃ m, event = .idle m := by
            cases event <;> simp [Event.supervised] at supervised ⊢
          rw [List.filter_cons_of_neg (by simp [supervised])] at order
          have less := ih (reached.step step) rest order
          have monotone := @more (List.range' start count) fun _ _ => .inl ⟨m, rfl⟩
          omega
      | true =>
          rw [List.filter_cons_of_pos supervised] at order
          cases count with
          | zero =>
              have least := (reached.left_le alternating ranked runs chained).1
              simpa using least
          | succ count =>
              rw [List.range'_succ, List.map_cons, List.cons_append, List.cons.injEq] at order
              obtain ⟨rfl, order⟩ := order
              have less := ih (reached.step step) rest order
              have monotone := @more (List.range' (start + 1) count) fun n member =>
                .inr ⟨start, rfl, Nat.ne_of_gt (List.mem_range'_1.mp member).1⟩
              rw [Event.cpuCalls] at work
              rw [List.range'_succ, List.countP_cons]
              by_cases idle : (state.cpuData start).current = none
              · rw [if_pos idle] at work
                rw [if_neg (by simp [idle])]
                omega
              · rw [if_neg idle] at work
                rw [if_pos (by simp [idle])]
                omega

/-! ## Created processes -/

private theorem Reached.processesCreated (reached : Reached config programs state)
    (step : Step config state event after)
    (most : state.processesCreated ≤ config.processCount) :
    after.processesCreated =
      min config.processCount (state.processesCreated + [event].count .creat) := by
  have unchanged : after.processesCreated = state.processesCreated → event ≠ .creat →
      after.processesCreated =
        min config.processCount (state.processesCreated + [event].count .creat) := by
    intro same other
    rw [same, List.count_eq_zero.mpr (by simpa using other.symm), Nat.add_zero,
      Nat.min_eq_right most]
  cases event with
  | creat =>
      have simulates : simulateCreat config state = some after := step.2
      unfold simulateCreat at simulates
      rw [List.count_singleton_self]
      split at simulates
      case isTrue less =>
        obtain ⟨woken, wakes, result⟩ := Option.bind_eq_some_iff.mp simulates
        rw [← Option.some.inj result, Nat.min_eq_right less, (Kept.of_wakeUp wakes).rest]
      case isFalse all =>
        rw [← Option.some.inj simulates]
        omega
  | idle n =>
      obtain ⟨pcblock, dispatched⟩ := Dispatched.of_dispatch (by decide)
        (show dispatch config state n .idle = some after from step.2)
      refine unchanged ?_ (by simp)
      rw [dispatched.kept.rest]
  | io =>
      have serves : (serveHead state).1.processesCreated = state.processesCreated := by
        unfold serveHead
        split
        · rfl
        · dsimp only
          split <;> rfl
      refine unchanged ?_ (by simp)
      rw [(Kept.of_simulateIo step.2).rest, ← serves]
  | cpu n =>
      refine unchanged ?_ (by simp)
      obtain rfl | ⟨p, op, processed⟩ := reached.processed alternating ranked step
      · rfl
      · cases processed with
        | tick => rfl
        | expire _ _ dispatched =>
            rw [dispatched.kept.rest]
            rfl
        | request _ _ _ dispatched =>
            rw [dispatched.kept.rest, submitIoRequest_rest]
            rfl
        | finish _ _ _ dispatched =>
            rw [dispatched.kept.rest]
            rfl

private theorem Reached.processesCreated_runs (reached : Reached config programs state)
    (runs : events.foldlM (simulateEnabled config) state = some after)
    (most : state.processesCreated ≤ config.processCount) :
    after.processesCreated =
      min config.processCount (state.processesCreated + events.count .creat) := by
  induction events generalizing state with
  | nil =>
      obtain rfl := Option.some.inj runs
      exact (Nat.min_eq_right most).symm
  | cons event events ih =>
      obtain ⟨middle, step, runs⟩ := foldlM_cons_eq_some.mp runs
      have created := reached.processesCreated alternating ranked step most
      have less : middle.processesCreated ≤ config.processCount := by omega
      have counts : (event :: events).count .creat =
          [event].count .creat + events.count .creat := by
        rw [← List.count_append]
        rfl
      rw [ih (reached.step step) runs less, created, counts]
      omega

end Runs

/-- A process is created in the turn of every tenth tick. -/
theorem count_creat_turn (config : Config) (time : UInt32) :
    (turn config time).count .creat = if time % 10 = 0 then 1 else 0 := by
  have none : ((List.range config.cpuCount).map Event.cpu).count .creat = 0 :=
    List.count_eq_zero.mpr (by simp)
  rw [turn, List.count_append, none, Nat.zero_add, List.count_cons]
  split <;> simp

private theorem of_mem_turn {time : UInt32} (member : event ∈ turn config time) :
    event.supervised = true ∧ ∀ state, event.Enabled config state := by
  rcases List.mem_append.mp member with member | member
  · obtain ⟨n, inRange, rfl⟩ := List.mem_map.mp member
    exact ⟨rfl, fun _ => List.mem_range.mp inRange⟩
  · rcases List.mem_cons.mp member with rfl | member
    · exact ⟨rfl, fun _ => True.intro⟩
    · split at member
      · rw [List.mem_singleton.mp member]
        exact ⟨rfl, fun _ => True.intro⟩
      · cases member

/-! ## Runs of the supervisor -/

/-- Iterations after which all processes were created. -/
def createdAfter (config : Config) : Nat := 10 * (config.processCount - 1) + 1

/-- Time passes for the creation of processes, in work or in late iterations. -/
structure Timely (config : Config) (programs : Nat → Program) (watched : Watched) : Prop where
  /-- The simulation was run. -/
  reached : Reached config programs watched.supervisor.state
  /-- Iterations are ticks. -/
  time : watched.supervisor.simulatorTime = .ofNat watched.iterations
  /-- A process is created at every tenth tick. -/
  created : watched.supervisor.state.processesCreated =
    min config.processCount ((watched.iterations + 9) / 10)
  /-- The work that is left. -/
  left : ∃ waiting, Chained watched.supervisor.state waiting ∧
    watched.supervisor.state.cpuCalls config + watched.supervisor.state.ioCalls config waiting ≤
      cpuCalls config programs + ioCalls config programs ∧
    watched.iterations + (watched.supervisor.state.cpuCalls config +
      watched.supervisor.state.ioCalls config waiting) ≤
        createdAfter config + (cpuCalls config programs + ioCalls config programs) + watched.late

section Runs

variable
  (alternating : ∀ p < config.processCount, Alternating ((programs p).ops.map Op.type))
  (ranked : (startSimulator programs).Ranked config)

include alternating

private theorem Timely.start : Timely config programs (.start programs) where
  reached := ⟨[], .nil⟩
  time := rfl
  created := by simp [Watched.start, startSimulator]
  left := by
    have io : (startSimulator programs).ioCalls config [] = ioCalls config programs :=
      ioCalls_start alternating
    refine ⟨[], ⟨rfl, rfl, by simp⟩, ?_, ?_⟩
    · simp only [Watched.start, io]
      exact Nat.le_refl _
    · simp only [Watched.start, io]
      change 0 + (cpuCalls config programs + _) ≤ _
      omega

include ranked

/-- After all processes were created, an iteration does some work unless it is late. -/
theorem Timely.works {before : Watched} {supervisor : Supervisor}
    (timely : Timely config programs before) (cpus : 1 ≤ config.cpuCount)
    (small : config.processCount < 2 ^ 32)
    (iteration : Iteration config before.supervisor events supervisor)
    (allCreated : before.supervisor.state.processesCreated = config.processCount)
    (prompt : ¬ before.supervisor.state.Late config)
    (chained : Chained before.supervisor.state waiting) :
    ∃ rest, Chained supervisor.state rest ∧
      supervisor.state.cpuCalls config + supervisor.state.ioCalls config rest + 1 ≤
        before.supervisor.state.cpuCalls config +
          before.supervisor.state.ioCalls config waiting := by
  obtain ⟨view, requests, located⟩ := timely.reached.located alternating ranked
  obtain rfl := chained.queue.unique located.queued.queue
  obtain ⟨least, rest, chainedRest, leastIo⟩ :=
    timely.reached.left_le alternating ranked iteration.runs chained
  have order := iteration.order
  rw [turn, List.range_eq_range'] at order
  have busy : ∀ cpu < config.cpuCount, (before.supervisor.state.cpuData cpu).current ≠ none →
      supervisor.state.cpuCalls config + 1 ≤ before.supervisor.state.cpuCalls config := by
    intro cpu inRange occupied
    have work := timely.reached.runs_cpus alternating ranked iteration.runs order
    have one : 0 < (List.range' 0 config.cpuCount).countP
        (fun n => (before.supervisor.state.cpuData n).current ≠ none) :=
      List.countP_pos_iff.mpr ⟨cpu, by simpa using inRange, decide_eq_true occupied⟩
    omega
  have unfinished := mt (exits_iff alternating ranked small timely.reached).mpr
    iteration.continues
  push Not at unfinished
  obtain ⟨p, inRange, continues⟩ := unfinished
  have notNew : (before.supervisor.state.pcbs p).state ≠ .new := by
    rw [Ne, (located.placed inRange).created, allCreated]
    omega
  rw [located.shows.status] at continues notNew
  cases status : view.status p with
  | new => exact absurd status notNew
  | terminated => exact absurd status continues
  | running =>
      obtain ⟨cpu, current⟩ := located.wellFormed.running.mp status
      have work := busy cpu (located.wellFormed.cpus current)
        (by simp [located.shows.mirror, current])
      exact ⟨rest, chainedRest, by omega⟩
  | ready =>
      have head : before.supervisor.state.qHead ≠ none := by
        rw [Ne, located.shows.list.head_eq_none_iff]
        exact List.ne_nil_of_mem (located.wellFormed.ready.mpr status)
      have occupied : (before.supervisor.state.cpuData 0).current ≠ none := fun idle =>
        prompt ⟨head, 0, cpus, idle⟩
      have work := busy 0 cpus occupied
      exact ⟨rest, chainedRest, by omega⟩
  | waiting =>
      have role : view.role p = .waiting := ProcessState.role_eq_waiting.mpr status
      have full : before.supervisor.state.ioQueueHead ≠ none := by
        rw [Ne, chained.queue.head_eq_none_iff]
        rintro rfl
        cases (located.queued.waits p).mpr role
      have turns : .io ∈ events.filter Event.supervised := by
        rw [order]
        simp
      have member : .io ∈ events := (List.mem_filter.mp turns).1
      obtain ⟨last, chainedLast, work⟩ :=
        timely.reached.serves alternating ranked iteration.runs chained full member
      obtain rfl := chainedRest.queue.unique chainedLast.queue
      exact ⟨rest, chainedRest, by omega⟩

private theorem Timely.created_iterate {before : Watched} {supervisor : Supervisor}
    (timely : Timely config programs before) (small : 10 * config.processCount < 2 ^ 32)
    (iteration : Iteration config before.supervisor events supervisor) :
    supervisor.state.processesCreated =
      min config.processCount ((before.iterations + 1 + 9) / 10) := by
  have most : before.supervisor.state.processesCreated ≤ config.processCount := by
    rw [timely.created]
    exact Nat.min_le_left _ _
  have counts : events.count .creat =
      if before.supervisor.simulatorTime % 10 = 0 then 1 else 0 := by
    rw [← count_creat_turn, ← iteration.order]
    exact (List.count_filter rfl).symm
  rw [timely.reached.processesCreated_runs alternating ranked iteration.runs most, timely.created,
    counts]
  by_cases early : before.iterations < 2 ^ 32
  · have tenth : before.supervisor.simulatorTime % 10 = 0 ↔ before.iterations % 10 = 0 := by
      rw [timely.time, ← UInt32.toNat_inj, UInt32.toNat_mod, UInt32.toNat_ofNat',
        Nat.mod_eq_of_lt early]
      rfl
    simp only [tenth]
    split <;> omega
  · split <;> omega

private theorem Timely.iterate {before watched : Watched} (timely : Timely config programs before)
    (cpus : 1 ≤ config.cpuCount) (small : 10 * config.processCount < 2 ^ 32)
    (iterates : before.iterate config events = some watched) :
    Timely config programs watched := by
  obtain ⟨supervisor, supervises, result⟩ := Option.bind_eq_some_iff.mp iterates
  obtain rfl := Option.some.inj result
  have iteration := Iteration.of_supervise supervises
  refine ⟨timely.reached.runs iteration.runs, ?_,
    timely.created_iterate alternating ranked small iteration, ?_⟩
  · rw [iteration.time, timely.time, UInt32.ofNat_add]
    rfl
  obtain ⟨waiting, chained, least, bound⟩ := timely.left
  obtain ⟨leastCpu, rest, chainedRest, leastIo⟩ :=
    timely.reached.left_le alternating ranked iteration.runs chained
  refine ⟨rest, chainedRest, Nat.le_trans (Nat.add_le_add leastCpu leastIo) least, ?_⟩
  by_cases late : before.supervisor.state.Late config
  · simp only [if_pos late]
    omega
  · simp only [if_neg late]
    by_cases early : before.iterations < createdAfter config
    · omega
    · have allCreated : before.supervisor.state.processesCreated = config.processCount := by
        rw [timely.created]
        unfold createdAfter at early
        omega
      obtain ⟨last, chainedLast, work⟩ := timely.works alternating ranked cpus (by omega) iteration
        allCreated late chained
      obtain rfl := chainedRest.queue.unique chainedLast.queue
      omega

/-- What the supervisor does by itself happens without a failure. -/
theorem Reached.happens (reached : Reached config programs state)
    (own : ∀ event ∈ events, ∀ state, event.Enabled config state) :
    ∃ after, events.foldlM (simulateEnabled config) state = some after := by
  induction events generalizing state with
  | nil => exact ⟨state, rfl⟩
  | cons event events ih =>
      have enabled := own event List.mem_cons_self state
      obtain ⟨view, waiting, located⟩ := reached.located alternating ranked
      obtain ⟨middle, -, -, result, -⟩ := located.simulate_spec alternating enabled
      have step : Step config state event middle := ⟨enabled, result⟩
      obtain ⟨after, runs⟩ := ih (reached.step step) fun other member =>
        own other (List.mem_cons_of_mem event member)
      exact ⟨after, foldlM_cons_eq_some.mpr ⟨middle, step, runs⟩⟩

end Runs

theorem Chained.length_le (chained : Chained state waiting) : waiting.length ≤ state.allocated := by
  have bounded : waiting ⊆ List.range state.allocated := fun request member =>
    List.mem_range.mpr (chained.allocated request member)
  simpa using (List.subperm_of_subset chained.queue.nodup bounded).length_le

private theorem Chained.prints {supervisor : Supervisor}
    (chained : Chained supervisor.state waiting) :
    ∃ printed, printGanttLine config supervisor = some printed := by
  rw [printGanttLine, chained.queue.foldFrom_eq _ _ chained.length_le]
  exact ⟨_, rfl⟩

/-- A run of the supervisor. -/
def Supervises (config : Config) (programs : Nat → Program) (turns : List (List Event))
    (watched : Watched) : Prop :=
  Trace (fun before events after => before.iterate config events = some after) (.start programs)
    turns watched

theorem Supervises.iterations {turns : List (List Event)} {watched : Watched}
    (run : Supervises config programs turns watched) : watched.iterations = turns.length := by
  induction run with
  | nil => rfl
  | snoc _ last ih =>
      obtain ⟨supervisor, -, result⟩ := Option.bind_eq_some_iff.mp last
      rw [← Option.some.inj result, List.length_append, ← ih]
      rfl

theorem Supervises.timely {turns : List (List Event)} {watched : Watched}
    (alternating : ∀ p < config.processCount, Alternating ((programs p).ops.map Op.type))
    (ranked : (startSimulator programs).Ranked config) (cpus : 1 ≤ config.cpuCount)
    (small : 10 * config.processCount < 2 ^ 32)
    (run : Supervises config programs turns watched) : Timely config programs watched :=
  Trace.invariant run (.start alternating) fun timely iterates =>
    timely.iterate alternating ranked cpus small iterates

/-- The supervisor exits exactly when all processes have terminated. Until then it goes on, for as
many iterations at most as the creation of the processes, the calls of their programs and the
iterations that begin with an idle CPU and a ready process are. -/
theorem supervisor_exits {turns : List (List Event)} {watched : Watched}
    (alternating : ∀ p < config.processCount, Alternating ((programs p).ops.map Op.type))
    (ranked : (startSimulator programs).Ranked config) (cpus : 1 ≤ config.cpuCount)
    (small : 10 * config.processCount < 2 ^ 32)
    (run : Supervises config programs turns watched) :
    (watched.supervisor.Exits config ↔
      ∀ p < config.processCount, (watched.supervisor.state.pcbs p).state = .terminated) ∧
    (¬ watched.supervisor.Exits config → ∃ after,
      watched.iterate config (turn config watched.supervisor.simulatorTime) = some after) ∧
    turns.length ≤ createdAfter config + (cpuCalls config programs + ioCalls config programs) +
      watched.late := by
  have timely := run.timely alternating ranked cpus small
  obtain ⟨waiting, chained, -, bound⟩ := timely.left
  refine ⟨exits_iff alternating ranked (by omega) timely.reached, fun continues => ?_, ?_⟩
  · obtain ⟨printed, prints⟩ := @Chained.prints config _ _ chained
    obtain ⟨state, runs⟩ := timely.reached.happens alternating ranked
      fun event (member : event ∈ turn config watched.supervisor.simulatorTime) =>
        (of_mem_turn member).2
    have own : (turn config watched.supervisor.simulatorTime).filter Event.supervised =
        turn config watched.supervisor.simulatorTime :=
      List.filter_eq_self.mpr fun event member => (of_mem_turn member).1
    rw [← (state_printGanttLine prints).1] at runs
    have supervises : ∃ after, supervise config watched.supervisor
        (turn config watched.supervisor.simulatorTime) = some after := by
      rw [supervise, if_neg continues, if_pos own]
      exact ⟨_, Option.bind_eq_some_iff.mpr ⟨printed, prints,
        Option.bind_eq_some_iff.mpr ⟨state, runs, rfl⟩⟩⟩
    obtain ⟨after, supervises⟩ := supervises
    exact ⟨_, Option.bind_eq_some_iff.mpr ⟨after, supervises, rfl⟩⟩
  · rw [← run.iterations]
    omega

theorem supervisor_exits_roundRobin : ∃ turns watched,
    Supervises roundRobin requesting turns watched ∧
      (∀ p < 2, (watched.supervisor.state.pcbs p).state = .terminated) ∧
      turns.length ≤ 19 + watched.late := by
  let created : List (List Event) :=
    [[.cpu 0, .io, .creat, .idle 0], [.cpu 0, .io], [.cpu 0, .io, .idle 0], [.cpu 0, .io]]
  let turns := created ++ List.replicate 6 [.cpu 0, .io] ++ created
  let watched := (turns.foldlM (Watched.iterate roundRobin) (.start requesting)).get (by decide)
  have run : Supervises roundRobin requesting turns watched :=
    Trace.of_foldlM (Option.some_get _).symm
  have exits : watched.supervisor.Exits roundRobin := by decide
  have alternating : ∀ p < roundRobin.processCount,
      Alternating ((requesting p).ops.map Op.type) := fun _ _ => .burst .last
  have ranked : (startSimulator requesting).Ranked roundRobin := fun _ _ =>
    ⟨Nat.le_refl 1, Nat.le_add_left 1 9⟩
  obtain ⟨ended, -, bound⟩ := supervisor_exits alternating ranked (by decide) (by decide) run
  exact ⟨turns, watched, run, ended.mp exits, bound⟩

end Runtime

end CS2200.Scheduling
