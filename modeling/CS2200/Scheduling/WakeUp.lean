import CS2200.Scheduling.Frames
import Mathlib.Data.List.Range

/-!
# Preemption by wake_up

With static priorities `wake_up` adds a process under `ready_mutex`, looks through `current` under
`current_mutex` and may then call `force_preempt`. Meanwhile idle CPUs, which the process has woken,
run `schedule`; handlers of other CPUs run between the calls of `wake_up`. A call of `force_preempt`
is justified unless a CPU that was idle has taken a process before `wake_up` looks at it.
-/

namespace CS2200.Scheduling

open LinkedList

/-! ## The scheduler and the simulator -/

/-- The scheduler and the simulator agree on the process of a CPU. -/
def State.Agree (state : State) (cpu : Nat) : Prop :=
  state.current cpu = (state.cpuData cpu).current

section Agreement

variable {config : Config} {state after : State} {cpu other : Nat} {pcblock : Option Nat}

theorem ProcessesOnly.agree (only : ProcessesOnly state after) (agree : state.Agree cpu) :
    after.Agree cpu := by
  rw [only.rest]
  exact agree

private theorem Scheduled.agree (scheduled : Scheduled config cpu state after pcblock)
    (agree : other ≠ cpu → state.Agree other) : after.Agree other := by
  unfold State.Agree
  rw [scheduled.current, scheduled.cpuData]
  by_cases same : other = cpu
  · simp [same]
  · simpa [same, State.Agree] using agree same

theorem Dispatched.agree (dispatched : Dispatched config cpu state after pcblock)
    (agree : other ≠ cpu → state.Agree other) : after.Agree other := by
  unfold State.Agree
  rw [dispatched.current, dispatched.cpuData]
  by_cases same : other = cpu
  · simp [same]
  · simpa [same, State.Agree] using agree same

private theorem agree_settle : (state.settle cpu).Agree other ↔ state.Agree other := by
  unfold State.Agree State.settle State.modifyCpu
  by_cases same : other = cpu <;> simp [same]

private theorem agree_forcePreempt (preempts : forcePreempt config state cpu = some after)
    (agree : state.Agree other) : after.Agree other := by
  obtain ⟨-, preempts⟩ := Option.ite_none_right_eq_some.mp preempts
  split at preempts
  · obtain ⟨pcblock, dispatched⟩ := Dispatched.of_dispatch (by decide) preempts
    exact dispatched.agree fun _ => agree
  · obtain rfl := Option.some.inj preempts
    exact agree

end Agreement

/-! ## Steps of `wake_up` -/

/-- Where the supervisor is in `wake_up`. -/
inductive Waker where
  /-- Not in `wake_up`. -/
  | outside
  /-- After `addqueue`, with a record of whether a CPU was idle then. -/
  | queued (process : Nat) (idle : Bool)
  /-- Before `force_preempt(stop)`, where `stop` may be uninitialised. -/
  | preempting (process : Nat) (idle : Bool) (stop : Option Nat)
  deriving DecidableEq, Repr

/-- The shared memory, the idle CPUs that run `schedule`, and the supervisor. -/
structure Waking where
  /-- The globals. -/
  state : State
  /-- Where each CPU is in `schedule`, if `idle` has called it. -/
  phase : Nat → Phase
  /-- Where the supervisor is. -/
  waker : Waker

/-- Some CPU has no process. -/
def State.Idle (config : Config) (state : State) : Prop :=
  ∃ cpu < config.cpuCount, state.current cpu = none

instance (config : Config) : DecidablePred (State.Idle config) :=
  fun _ => inferInstanceAs (Decidable (∃ _, _ ∧ _))

namespace Waking

/-- A step of the supervisor or of an idle CPU. -/
inductive Move where
  /-- `wake_up` marks a process as ready and adds it. -/
  | addqueue (process : Nat)
  /-- `wake_up` looks through `current`. -/
  | look
  /-- `wake_up` calls `force_preempt`. -/
  | forcePreempt
  /-- The supervisor lets a CPU that is not idle serve an event. -/
  | handle (cpu : Nat) (event : CpuState)
  /-- The loop of `idle` ends on a CPU, and `idle` calls `schedule`. -/
  | idle (cpu : Nat)
  /-- A CPU runs `get`. -/
  | get (cpu : Nat)
  /-- A CPU looks through the list in `gethighestone`. -/
  | scan (cpu : Nat)
  /-- A CPU unlinks what it found. -/
  | unlink (cpu : Nat)
  /-- A CPU runs what it removed, and waits in the simulator. -/
  | finish (cpu : Nat)
  deriving DecidableEq, Repr

/-- A CPU proceeds to another place. -/
def setPhase (waking : Waking) (cpu : Nat) (phase : Phase) : Waking :=
  { waking with phase := Function.update waking.phase cpu phase }

/-- The system before any step. -/
def start (programs : Nat → Program) : Waking where
  state := startSimulator programs
  phase _ := .outside
  waker := .outside

/-- The argument of `force_preempt`, if `wake_up` calls it after looking through `current`. -/
def victim (config : Config) (state : State) (process : Nat) : Option (Option Nat) :=
  if config.staticPrior then
    match findLows state (List.range config.cpuCount) (10, none) with
    | none => none
    | some (lows, stop) =>
        if lows < (state.pcbs process).staticPriority then some stop else none
  else none

/-- One step. -/
def move (config : Config) (waking : Waking) : Move → Option Waking
  | .addqueue process =>
      if waking.waker = .outside ∧ process < config.processCount then do
        let state ← Scheduling.addqueue config (waking.state.setState process .ready) process
        some { waking with
          state
          waker := .queued process (decide (waking.state.Idle config)) }
      else none
  | .look =>
      match waking.waker with
      | .queued process idle =>
          some { waking with
            waker := (victim config waking.state process).elim .outside (.preempting process idle) }
      | _ => none
  | .forcePreempt =>
      match waking.waker with
      | .preempting _ _ stop => do
          let state ← Scheduling.forcePreempt config waking.state (← stop)
          some { waking with state, waker := .outside }
      | _ => none
  | .handle cpu event =>
      if waking.waker = .outside ∧ waking.phase cpu = .outside ∧
          (waking.state.cpuData cpu).current ≠ none ∧ event ≠ .idle ∧ event ≠ .running then do
        let state ← dispatch config waking.state cpu event
        some { waking with state }
      else none
  | .idle cpu =>
      if cpu < config.cpuCount ∧ waking.phase cpu = .outside ∧
          (waking.state.cpuData cpu).current = none ∧ waking.state.qHead ≠ none then
        some (waking.setPhase cpu .entered)
      else none
  | .get cpu =>
      if waking.phase cpu = .entered ∧ config.staticPrior = false then
        let (state, getone) := Scheduling.get waking.state
        some { waking.setPhase cpu (.taken getone) with state }
      else none
  | .scan cpu =>
      if waking.phase cpu = .entered ∧ config.staticPrior then do
        match ← Scheduling.scan config waking.state with
        | none => some (waking.setPhase cpu (.taken none))
        | some found => some (waking.setPhase cpu (.scanned found))
      else none
  | .unlink cpu =>
      match waking.phase cpu with
      | .scanned found => do
          let state ← Scheduling.unlink config waking.state found
          some { waking.setPhase cpu (.taken (some found.process)) with state }
      | _ => none
  | .finish cpu =>
      match waking.phase cpu with
      | .taken pcblock => do
          let state ← Scheduling.finish config waking.state cpu pcblock
          some { waking.setPhase cpu .outside with state := state.settle cpu }
      | _ => none

/-- The transition relation of the system. -/
def Step (config : Config) (before : Waking) (move : Move) (after : Waking) : Prop :=
  before.move config move = some after

/-- Following the links from `q_head` visits a process. -/
def Queued (waking : Waking) (p : Nat) : Prop :=
  Reaches waking.state.next waking.state.qHead p

/-! ## Justified preemptions -/

/-- A CPU whose process has the least priority of all CPUs, below that of a process. -/
structure Victim (config : Config) (state : State) (process cpu : Nat) : Prop where
  /-- The CPU exists. -/
  inRange : cpu < config.cpuCount
  /-- All CPUs have processes, and the one of this CPU has the least priority. -/
  least : ∃ running, state.current cpu = some running ∧
    (state.pcbs running).staticPriority < (state.pcbs process).staticPriority ∧
    ∀ other < config.cpuCount, ∃ q, state.current other = some q ∧
      (state.pcbs running).staticPriority ≤ (state.pcbs q).staticPriority

/-- Before `force_preempt`: no CPU was idle when the process was added, the process is in the ready
list, and the victim is known and has the least priority. -/
def Justified (config : Config) (waking : Waking) : Prop :=
  ∀ process idle stop, waking.waker = .preempting process idle stop →
    idle = false ∧ waking.Queued process ∧
      ∃ cpu, stop = some cpu ∧ Victim config waking.state process cpu

/-- No CPU has a process of lower priority. -/
def NoneLower (config : Config) (state : State) (process : Nat) : Prop :=
  ∀ cpu < config.cpuCount, ∀ q ∈ state.current cpu,
    (state.pcbs process).staticPriority ≤ (state.pcbs q).staticPriority

/-- If some CPU was idle when the process was added, then a CPU is still idle, or no CPU has a
process of lower priority. -/
def InTime (config : Config) (state : State) : Waker → Prop
  | .queued process true => state.Idle config ∨ NoneLower config state process
  | _ => True

/-- `wake_up` looks through `current` in time. -/
def LooksInTime (config : Config) (before : Waking) : Move → Prop
  | .look => InTime config before.state before.waker
  | _ => True

/-! ## What the steps do -/

/-- What holds of the supervisor in every state. -/
def Sound (config : Config) (waking : Waking) : Prop :=
  match waking.waker with
  | .outside => True
  | .queued process idle => process < config.processCount ∧
      (idle = false → ¬waking.state.Idle config ∧ waking.Queued process)
  | .preempting process idle stop => ¬waking.state.Idle config ∧ idle = false ∧
      waking.Queued process ∧ ∃ cpu, stop = some cpu ∧ Victim config waking.state process cpu

/-- CPUs leave idle only when they are idle, and the supervisor is sound. -/
structure Watched (config : Config) (waking : Waking) : Prop where
  /-- A CPU that runs `schedule` has no process. -/
  leaving : ∀ cpu, waking.phase cpu ≠ .outside →
    cpu < config.cpuCount ∧ waking.state.current cpu = none
  /-- The scheduler and the simulator agree. -/
  agree : ∀ cpu, waking.state.Agree cpu
  /-- Static priorities are between 1 and 10. -/
  ranked : waking.state.Ranked config
  /-- The supervisor is sound. -/
  sound : waking.Sound config

section Steps

variable {config : Config} {before after : Waking} {process cpu : Nat}

theorem step_look (step : Step config before .look after) :
    ∃ process idle, before.waker = .queued process idle ∧
      after =
        { before with
          waker := (victim config before.state process).elim .outside
            (.preempting process idle) } := by
  cases waker : before.waker with
  | outside | preempting => simp [Step, move, waker] at step
  | queued process idle =>
      simp only [Step, move, waker] at step
      exact ⟨process, idle, rfl, (Option.some.inj step).symm⟩

theorem step_forcePreempt (step : Step config before .forcePreempt after) :
    ∃ process idle cpu state, before.waker = .preempting process idle (some cpu) ∧
      Scheduling.forcePreempt config before.state cpu = some state ∧
      after = { before with state, waker := .outside } := by
  cases waker : before.waker with
  | outside | queued => simp [Step, move, waker] at step
  | preempting process idle stop =>
      simp only [Step, move, waker] at step
      obtain ⟨cpu, rfl, forces⟩ := Option.bind_eq_some_iff.mp step
      obtain ⟨state, preempts, result⟩ := Option.bind_eq_some_iff.mp forces
      exact ⟨process, idle, cpu, state, rfl, preempts, (Option.some.inj result).symm⟩

theorem step_unlink (step : Step config before (.unlink cpu) after) :
    ∃ found state, before.phase cpu = .scanned found ∧
      Scheduling.unlink config before.state found = some state ∧
      after = { before.setPhase cpu (.taken (some found.process)) with state } := by
  cases phase : before.phase cpu with
  | scanned found =>
      simp only [Step, move, phase] at step
      obtain ⟨state, unlinks, result⟩ := Option.bind_eq_some_iff.mp step
      exact ⟨found, state, rfl, unlinks, (Option.some.inj result).symm⟩
  | outside | entered | taken => simp [Step, move, phase] at step

theorem step_finish (step : Step config before (.finish cpu) after) :
    ∃ pcblock state, before.phase cpu = .taken pcblock ∧
      Scheduling.finish config before.state cpu pcblock = some state ∧
      after = { before.setPhase cpu .outside with state := state.settle cpu } := by
  cases phase : before.phase cpu with
  | taken pcblock =>
      simp only [Step, move, phase] at step
      obtain ⟨state, finishes, result⟩ := Option.bind_eq_some_iff.mp step
      exact ⟨pcblock, state, rfl, finishes, (Option.some.inj result).symm⟩
  | outside | entered | scanned => simp [Step, move, phase] at step

private theorem Watched.justified (watched : Watched config before) : before.Justified config := by
  intro process idle stop preempting
  have sound := watched.sound
  rw [Sound, preempting] at sound
  exact sound.2

/-- While no CPU is idle, none runs `schedule`. -/
theorem Watched.outside (watched : Watched config before) (busy : ¬before.state.Idle config)
    (cpu : Nat) : before.phase cpu = .outside := by
  by_contra leaves
  obtain ⟨inRange, none⟩ := watched.leaving cpu leaves
  exact busy ⟨cpu, inRange, none⟩

private theorem reaches_of_addqueue {state added : State} {p : Nat}
    (adds : Scheduling.addqueue config state p = some added) :
    Reaches added.next added.qHead p := by
  unfold Scheduling.addqueue at adds
  split at adds
  · obtain rfl := Option.some.inj adds
    exact ⟨p, rfl, .refl⟩
  · next first head =>
      obtain ⟨last, walk, result⟩ := Option.bind_eq_some_iff.mp adds
      obtain rfl := Option.some.inj result
      have unchanged : ((state.setNext p none).setNext last (some p)).qHead = some first := head
      rw [State.next_setNext, unchanged]
      exact reaches_of_lastFrom walk

private theorem Watched.addqueue (watched : Watched config before)
    (step : Step config before (.addqueue process) after) : Watched config after := by
  obtain ⟨⟨-, inRange⟩, step⟩ := Option.ite_none_right_eq_some.mp step
  obtain ⟨state, adds, result⟩ := Option.bind_eq_some_iff.mp step
  obtain rfl := Option.some.inj result
  have only := ProcessesOnly.of_enqueue adds
  have current : state.current = before.state.current := by rw [only.rest]
  refine ⟨fun cpu leaves => ?_, fun cpu => only.agree (watched.agree cpu),
    only.kept.ranked watched.ranked, inRange, fun busy => ⟨?_, ?_⟩⟩
  · rw [current]
    exact watched.leaving cpu leaves
  · rw [State.Idle, current]
    exact of_decide_eq_false busy
  · exact reaches_of_addqueue adds

private theorem exists_victim {state : State} (ranked : state.Ranked config)
    (inRange : process < config.processCount) {stop : Option Nat}
    (preempts : victim config state process = some stop) :
    ∃ cpu, stop = some cpu ∧ Victim config state process cpu := by
  unfold victim at preempts
  split at preempts
  · split at preempts
    · cases preempts
    · next lows least search =>
        obtain ⟨lower, same⟩ := Option.ite_none_right_eq_some.mp preempts
        obtain rfl := Option.some.inj same
        obtain ⟨all, -, found⟩ := findLows_eq_some search
        rcases found with unchanged | ⟨cpu, member, running, runs, least⟩
        · have ten : lows = 10 := congrArg Prod.fst unchanged
          have limit := (ranked process inRange).2
          omega
        · obtain ⟨rfl, rfl⟩ := Prod.mk.inj least
          exact ⟨cpu, rfl, List.mem_range.mp member, running, runs, lower, fun other inside =>
            all other (List.mem_range.mpr inside)⟩
  · cases preempts

/-- While a CPU has a process of lower priority and none is idle, `wake_up` names a victim. -/
theorem victim_ne_none {state : State} (static : config.staticPrior)
    (busy : ¬state.Idle config) (inRange : cpu < config.cpuCount) {q : Nat}
    (runs : state.current cpu = some q)
    (lower : (state.pcbs q).staticPriority < (state.pcbs process).staticPriority) :
    victim config state process ≠ none := by
  cases search : findLows state (List.range config.cpuCount) (10, none) with
  | none =>
      obtain ⟨other, member, none⟩ := findLows_eq_none search
      exact absurd ⟨other, List.mem_range.mp member, none⟩ busy
  | some found =>
      obtain ⟨p, occupied, least⟩ :=
        (findLows_eq_some search).1 cpu (List.mem_range.mpr inRange)
      obtain rfl := Option.some.inj (occupied.symm.trans runs)
      simp [victim, static, search, Nat.lt_of_le_of_lt least lower]

private theorem Victim.busy {state : State} (victim : Victim config state process cpu) :
    ¬state.Idle config := by
  obtain ⟨running, -, -, all⟩ := victim.least
  rintro ⟨other, inRange, none⟩
  obtain ⟨q, occupied, -⟩ := all other inRange
  rw [none] at occupied
  cases occupied

private theorem Watched.look (watched : Watched config before)
    (inTime : LooksInTime config before .look)
    (step : Step config before .look after) : Watched config after := by
  obtain ⟨process, idle, waker, rfl⟩ := step_look step
  have sound := watched.sound
  rw [Sound, waker] at sound
  obtain ⟨inRange, queued⟩ := sound
  refine ⟨watched.leaving, watched.agree, watched.ranked, ?_⟩
  unfold Sound
  cases preempts : victim config before.state process with
  | none => trivial
  | some stop =>
      obtain ⟨cpu, same, isVictim⟩ := exists_victim watched.ranked inRange preempts
      cases idle with
      | false => exact ⟨isVictim.busy, rfl, (queued rfl).2, cpu, same, isVictim⟩
      | true =>
          rw [LooksInTime, waker] at inTime
          obtain ⟨running, runs, lower, -⟩ := isVictim.least
          rcases inTime with someIdle | noneLower
          · exact absurd someIdle isVictim.busy
          · have notLower := noneLower cpu isVictim.inRange running runs
            omega

/-- A search that is late leads to a preemption that is not justified. -/
theorem looksInTime_of_justified (static : config.staticPrior) {taken : Move}
    (step : Step config before taken after) (justified : after.Justified config) :
    LooksInTime config before taken := by
  cases taken with
  | look =>
      obtain ⟨process, idle, waker, rfl⟩ := step_look step
      cases idle with
      | false => simp [LooksInTime, InTime, waker]
      | true =>
          rw [LooksInTime, waker]
          by_contra late
          obtain ⟨busy, lower⟩ := not_or.mp late
          obtain ⟨cpu, inRange, q, runs, lower⟩ : ∃ cpu < config.cpuCount,
              ∃ q ∈ before.state.current cpu, (before.state.pcbs q).staticPriority <
                (before.state.pcbs process).staticPriority := by
            simpa [NoneLower] using lower
          obtain ⟨stop, preempts⟩ := Option.ne_none_iff_exists'.mp
            (victim_ne_none static busy inRange runs lower)
          have inTime := (justified process true stop (by rw [preempts]; rfl)).1
          cases inTime
  | _ => trivial

private theorem Watched.forcePreempt (watched : Watched config before)
    (step : Step config before .forcePreempt after) : Watched config after := by
  obtain ⟨process, idle, cpu, state, waker, preempts, rfl⟩ := step_forcePreempt step
  have sound := watched.sound
  rw [Sound, waker] at sound
  obtain ⟨busy, -⟩ := sound
  exact ⟨fun other leaves => absurd (watched.outside busy other) leaves,
    fun other => agree_forcePreempt preempts (watched.agree other),
    (Kept.of_forcePreempt preempts).ranked watched.ranked, trivial⟩

private theorem Watched.handle (watched : Watched config before) {event : CpuState}
    (step : Step config before (.handle cpu event) after) : Watched config after := by
  obtain ⟨⟨waker, phase, -, -, served⟩, step⟩ := Option.ite_none_right_eq_some.mp step
  obtain ⟨state, dispatches, result⟩ := Option.bind_eq_some_iff.mp step
  obtain rfl := Option.some.inj result
  obtain ⟨pcblock, dispatched⟩ := Dispatched.of_dispatch served dispatches
  refine ⟨fun other leaves => ?_, fun other => dispatched.agree fun _ => watched.agree other,
    dispatched.kept.ranked watched.ranked, ?_⟩
  · have different : other ≠ cpu := by
      rintro rfl
      exact leaves phase
    rw [dispatched.current, Function.update_of_ne different]
    exact watched.leaving other leaves
  · simp [Sound, waker]

/-! ## CPUs that leave idle -/

/-- A CPU that runs `schedule` changes no priority and does not wake a process. -/
structure Leaves (config : Config) (cpu : Nat) (before after : Waking) : Prop where
  /-- The CPU exists and was idle. -/
  inRange : cpu < config.cpuCount
  /-- The CPU was idle. -/
  none : before.state.current cpu = none
  /-- The priorities are the same. -/
  kept : Kept before.state after.state
  /-- The supervisor is where it was. -/
  waker : after.waker = before.waker
  /-- Other CPUs are where they were. -/
  phase : ∀ other, other ≠ cpu → after.phase other = before.phase other
  /-- Other CPUs have the processes that they had. -/
  current : ∀ other, other ≠ cpu → after.state.current other = before.state.current other
  /-- The CPU is still idle, or has left `schedule`. -/
  stays : after.phase cpu = .outside ∨ after.state.current cpu = Option.none
  /-- The scheduler and the simulator agree as they did. -/
  agree : ∀ other, before.state.Agree other → after.state.Agree other

theorem Watched.leaves (watched : Watched config before) (step : Leaves config cpu before after) :
    Watched config after := by
  refine ⟨fun other leaves => ?_, fun other => step.agree other (watched.agree other),
    step.kept.ranked watched.ranked, ?_⟩
  · by_cases same : other = cpu
    · subst same
      exact ⟨step.inRange, step.stays.resolve_left leaves⟩
    · rw [step.phase other same] at leaves
      rw [step.current other same]
      exact watched.leaving other leaves
  · have someIdle : before.state.Idle config := ⟨cpu, step.inRange, step.none⟩
    have sound := watched.sound
    unfold Sound at sound ⊢
    rw [step.waker]
    cases waker : before.waker with
    | outside => trivial
    | queued process idle =>
        rw [waker] at sound
        exact ⟨sound.1, fun busy => absurd someIdle (sound.2 busy).1⟩
    | preempting process idle stop =>
        rw [waker] at sound
        exact absurd someIdle sound.1

theorem Watched.proceeds (watched : Watched config before) (inRange : cpu < config.cpuCount)
    (none : before.state.current cpu = none) (phase : Phase) :
    Watched config (before.setPhase cpu phase) :=
  watched.leaves ⟨inRange, none, .refl _, rfl, fun _ different => Function.update_of_ne different _ _,
    fun _ _ => rfl, .inr none, fun _ agree => agree⟩

theorem Watched.links (watched : Watched config before) (inRange : cpu < config.cpuCount)
    (none : before.state.current cpu = none) (phase : Phase) {state : State}
    (only : LinksOnly before.state state) :
    Watched config { before.setPhase cpu phase with state } :=
  watched.leaves ⟨inRange, none, only.kept, rfl,
    fun _ different => Function.update_of_ne different _ _,
    fun other _ => congrFun only.current other, .inr ((congrFun only.current cpu).trans none),
    fun _ agree => only.processesOnly.agree agree⟩

private theorem Watched.idle (watched : Watched config before)
    (step : Step config before (.idle cpu) after) : Watched config after := by
  obtain ⟨⟨inRange, -, none, -⟩, result⟩ := Option.ite_none_right_eq_some.mp step
  obtain rfl := Option.some.inj result
  exact watched.proceeds inRange ((watched.agree cpu).trans none) _

private theorem Watched.get (watched : Watched config before)
    (step : Step config before (.get cpu) after) : Watched config after := by
  obtain ⟨⟨phase, -⟩, result⟩ := Option.ite_none_right_eq_some.mp step
  obtain rfl := Option.some.inj result
  obtain ⟨inRange, none⟩ := watched.leaving cpu (by simp [phase])
  exact watched.links inRange none _ (.of_get _)

private theorem Watched.scan (watched : Watched config before)
    (step : Step config before (.scan cpu) after) : Watched config after := by
  obtain ⟨⟨phase, -⟩, step⟩ := Option.ite_none_right_eq_some.mp step
  obtain ⟨inRange, none⟩ := watched.leaving cpu (by simp [phase])
  obtain ⟨found, -, result⟩ := Option.bind_eq_some_iff.mp step
  cases found <;> obtain rfl := Option.some.inj result <;> exact watched.proceeds inRange none _

private theorem Watched.unlink (watched : Watched config before)
    (step : Step config before (.unlink cpu) after) : Watched config after := by
  obtain ⟨found, state, phase, unlinks, rfl⟩ := step_unlink step
  obtain ⟨inRange, none⟩ := watched.leaving cpu (by simp [phase])
  exact watched.links inRange none _ (.of_unlink unlinks)

private theorem Watched.finish (watched : Watched config before)
    (step : Step config before (.finish cpu) after) : Watched config after := by
  obtain ⟨pcblock, state, phase, finishes, rfl⟩ := step_finish step
  obtain ⟨inRange, none⟩ := watched.leaving cpu (by simp [phase])
  have scheduled := Scheduled.of_finish finishes
  have settled : Kept state (state.settle cpu) := .modifyCpu _ _ _
  refine watched.leaves ⟨inRange, none, scheduled.kept.trans settled, rfl,
    fun _ different => Function.update_of_ne different _ _, fun other different => ?_,
    .inl (Function.update_self _ _ _),
    fun _ agree => agree_settle.mpr (scheduled.agree fun _ => agree)⟩
  have updated : (state.settle cpu).current = state.current := rfl
  rw [updated, scheduled.current, Function.update_of_ne different]

/-- A step keeps what holds of every state, if `wake_up` looks in time. -/
theorem Watched.move (watched : Watched config before) {taken : Move}
    (inTime : LooksInTime config before taken) (step : Step config before taken after) :
    Watched config after := by
  cases taken with
  | addqueue process => exact watched.addqueue step
  | look => exact watched.look inTime step
  | forcePreempt => exact watched.forcePreempt step
  | handle cpu event => exact watched.handle step
  | idle cpu => exact watched.idle step
  | get cpu => exact watched.get step
  | scan cpu => exact watched.scan step
  | unlink cpu => exact watched.unlink step
  | finish cpu => exact watched.finish step

end Steps

/-! ## Runs -/

section Runs

variable {config : Config} {programs : Nat → Program}

private theorem Watched.start (ranked : ∀ p < config.processCount,
    1 ≤ (programs p).staticPriority ∧ (programs p).staticPriority ≤ 10) :
    Watched config (start programs) where
  leaving _ leaves := absurd rfl leaves
  agree _ := rfl
  ranked := ranked
  sound := trivial

/-- With static priorities, every preemption by `wake_up` is justified if and only if `wake_up` always
looks through `current` in time. -/
theorem justified_iff_looksInTime (static : config.staticPrior = true)
    (ranked : ∀ p < config.processCount,
      1 ≤ (programs p).staticPriority ∧ (programs p).staticPriority ≤ 10)
    (moves : List Move) :
    Always (Step config) (start programs) moves (Justified config) ↔
      Respects (Step config) (start programs) moves (LooksInTime config) := by
  have anyMove : Respects (Step config) (start programs) moves fun _ _ => True :=
    fun _ _ _ _ _ _ _ => trivial
  exact always_iff_respects anyMove (Watched.start ranked)
    (fun watched _ inTime step => watched.move inTime step)
    (fun watched => watched.justified)
    fun _ _ step justified => looksInTime_of_justified static step justified

private theorem wakeUp_eq (config : Config) (state : State) (process : Nat) :
    wakeUp config state process =
      (Scheduling.addqueue config (state.setState process .ready) process).bind fun state =>
        match victim config state process with
        | none => some state
        | some stop => stop.bind (Scheduling.forcePreempt config state) := by
  unfold wakeUp victim
  congr 1
  funext state
  by_cases static : config.staticPrior
  · cases search : findLows state (List.range config.cpuCount) (10, none) with
    | none => simp [static]
    | some found =>
        by_cases lower : found.1 < (state.pcbs process).staticPriority <;> simp [static, lower]
  · simp [static]

/-- When no idle CPU interferes, the steps of the supervisor are `wake_up`. -/
theorem uninterrupted {waking : Waking} {process : Nat} {state : State}
    (outside : waking.waker = .outside) (inRange : process < config.processCount)
    (wakes : wakeUp config waking.state process = some state) :
    ∃ moves, Trace (Step config) waking moves { waking with state } := by
  rw [wakeUp_eq] at wakes
  obtain ⟨added, adds, wakes⟩ := Option.bind_eq_some_iff.mp wakes
  let idle := decide (waking.state.Idle config)
  have queues : Trace (Step config) waking ([] ++ [.addqueue process])
      { waking with state := added, waker := .queued process idle } :=
    .snoc .nil (by simp [Step, move, outside, inRange, adds, idle])
  cases preempts : victim config added process with
  | none =>
      rw [preempts] at wakes
      obtain rfl := Option.some.inj wakes
      have looks : Step config { waking with state := added, waker := .queued process idle } .look
          { waking with state := added } := by
        simp [Step, move, preempts, outside]
      exact ⟨_, queues.snoc looks⟩
  | some stop =>
      rw [preempts] at wakes
      obtain ⟨cpu, rfl, forces⟩ := Option.bind_eq_some_iff.mp wakes
      have looks : Step config { waking with state := added, waker := .queued process idle } .look
          { waking with state := added, waker := .preempting process idle (some cpu) } := by
        simp [Step, move, preempts]
      have ends : Step config
          { waking with state := added, waker := .preempting process idle (some cpu) } .forcePreempt
          { waking with state } := by
        simp [Step, move, forces, outside]
      exact ⟨_, (queues.snoc looks).snoc ends⟩

end Runs

instance (config : Config) (state : State) : DecidablePred (NoneLower config state) :=
  fun _ => inferInstanceAs (Decidable (∀ _, _ → ∀ _ ∈ _, _))

instance (config : Config) (state : State) : DecidablePred (InTime config state)
  | .queued _ true => inferInstanceAs (Decidable (_ ∨ _))
  | .queued _ false | .outside | .preempting _ _ _ => inferInstanceAs (Decidable True)

instance (config : Config) (before : Waking) : DecidablePred (LooksInTime config before)
  | .look => inferInstanceAs (Decidable (InTime _ _ _))
  | .addqueue _ | .forcePreempt | .handle _ _ | .idle _ | .get _ | .scan _ | .unlink _
  | .finish _ => inferInstanceAs (Decidable True)

/-- Both CPUs take a process, and the third process preempts the first. -/
def preempting : List Move :=
  [.addqueue 0, .look, .idle 0, .scan 0, .unlink 0, .finish 0, .addqueue 1, .idle 1, .scan 1,
    .look, .unlink 1, .finish 1, .addqueue 2, .look, .forcePreempt]

theorem justified_iff_looksInTime_preempting :
    Always (Step twoCpus) (start prioritized) preempting (Justified twoCpus) :=
  (justified_iff_looksInTime rfl (by decide) preempting).mpr
    (Respects.of_foldlM (by decide +kernel))

/-- A process is added while CPU 1 is idle, which takes it before `wake_up` looks through
`current`; `wake_up` then preempts CPU 0. -/
theorem late_not_justified :
    ¬Always (Step twoCpus) (start prioritized)
      [.addqueue 0, .look, .idle 0, .scan 0, .unlink 0, .finish 0, .addqueue 2, .idle 1, .scan 1,
        .unlink 1, .finish 1, .look] (Justified twoCpus) := by
  intro always
  let moves : List Move :=
    [.addqueue 0, .look, .idle 0, .scan 0, .unlink 0, .finish 0, .addqueue 2, .idle 1, .scan 1,
      .unlink 1, .finish 1, .look]
  let waking := (moves.foldlM (move twoCpus) (start prioritized)).get (by decide)
  have trace : Trace (Step twoCpus) (start prioritized) moves waking :=
    .of_foldlM (Option.some_get _).symm
  have justified := always moves (List.prefix_refl _) waking trace
  have inTime := (justified 2 true (some 0) (by decide)).1
  cases inTime

end Waking

end CS2200.Scheduling
