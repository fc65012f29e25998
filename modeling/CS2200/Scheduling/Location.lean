import CS2200.Scheduling.IoQueue

/-!
# Every process is in one place

The state of a process names the place where the process is: the ready list, a CPU or the queue of
I/O requests. The scheduler moves processes between the ready list and the CPUs only, which is
forgotten in their roles; the simulator's accounts relate the roles to the operation arrays and to
the queue of I/O requests.
-/

namespace CS2200.Scheduling

open LinkedList

/-! ## Operation arrays -/

/-- Operation arrays that alternate between bursts and I/O requests up to the last burst. -/
inductive Alternating : List OpType → Prop
  | last : Alternating [.cpu, .terminate]
  | burst {rest : List OpType} : Alternating rest → Alternating (.cpu :: .io :: rest)

namespace Alternating

variable {types : List OpType}

theorem first (alternating : Alternating types) : types[0]? = some .cpu := by
  cases alternating <;> rfl

private theorem after_cpu (alternating : Alternating types) {pc : Nat}
    (burst : types[pc]? = some .cpu) :
    types[pc + 1]? = some .io ∨ types[pc + 1]? = some .terminate := by
  induction alternating generalizing pc with
  | last =>
      match pc with
      | 0 => exact .inr rfl
      | 1 | pc + 2 => simp at burst
  | burst _ ih =>
      match pc with
      | 0 => exact .inl rfl
      | 1 => simp at burst
      | pc + 2 => exact ih burst

private theorem after_io (alternating : Alternating types) {pc : Nat}
    (request : types[pc]? = some .io) : types[pc + 1]? = some .cpu := by
  induction alternating generalizing pc with
  | last =>
      match pc with
      | 0 | 1 | pc + 2 => simp at request
  | burst rest ih =>
      match pc with
      | 0 => simp at request
      | 1 => exact rest.first
      | pc + 2 => exact ih request

theorem length_of_terminate (alternating : Alternating types) {pc : Nat}
    (ends : types[pc]? = some .terminate) : pc + 1 = types.length := by
  induction alternating generalizing pc with
  | last =>
      match pc with
      | 0 | pc + 2 => simp at ends
      | 1 => rfl
  | burst _ ih =>
      match pc with
      | 0 | 1 => simp at ends
      | pc + 2 => simpa using ih ends

end Alternating

/-- The operation at which a process is in a state. -/
def ProcessState.opType : ProcessState → OpType
  | .new | .ready | .running => .cpu
  | .waiting => .io
  | .terminated => .terminate

/-! ## Roles -/

/-- Ready and running processes have the same role. -/
def ProcessState.role : ProcessState → ProcessState
  | .running => .ready
  | status => status

@[simp] theorem ProcessState.opType_role (status : ProcessState) :
    status.role.opType = status.opType := by cases status <;> rfl

@[simp] theorem ProcessState.role_eq_new {status : ProcessState} :
    status.role = .new ↔ status = .new := by cases status <;> simp [role]

@[simp] theorem ProcessState.role_eq_waiting {status : ProcessState} :
    status.role = .waiting ↔ status = .waiting := by cases status <;> simp [role]

namespace View

/-- Roles of the processes. -/
def role (view : View) (p : Nat) : ProcessState := (view.status p).role

variable {cpuCount processCount cpu p : Nat} {view after : View} {rank : Option (Nat → Nat)}

theorem role_update (status : Nat → ProcessState) (p : Nat) (changed : ProcessState) :
    (fun q => (Function.update status p changed q).role) =
      Function.update (fun q => (status q).role) p changed.role :=
  funext fun q => Function.apply_update (fun _ => ProcessState.role) status p changed q

theorem role_enqueue : (view.enqueue p).role = Function.update view.role p .ready :=
  role_update view.status p .ready

theorem role_release (status : ProcessState) :
    (view.release cpu p status).role = Function.update view.role p status.role :=
  role_update view.status p status

theorem Schedules.role (step : Schedules rank cpu view after)
    (ready : ∀ q ∈ view.ready, view.status q = .ready) : after.role = view.role := by
  cases step with
  | idle => rfl
  | @run p member =>
      have same : (view.run cpu p).role = Function.update view.role p .ready :=
        role_update view.status p .running
      rw [same, Function.update_eq_self_iff]
      simp [View.role, ready p member, ProcessState.role]

theorem Leaves.role (wellFormed : view.WellFormed cpuCount processCount) {status : ProcessState}
    (step : Leaves rank cpu status view after) (current : view.current cpu = some p)
    (notReady : status ≠ .ready) (notRunning : status ≠ .running) :
    after.role = Function.update view.role p status := by
  obtain ⟨q, runs, step⟩ := step
  obtain rfl := Option.some.inj (current.symm.trans runs)
  have released := wellFormed.release current notReady notRunning
  rw [step.role fun q member => released.ready.mp member, role_release]
  cases status <;> first | rfl | contradiction

theorem Preempts.role (wellFormed : view.WellFormed cpuCount processCount)
    (step : Preempts rank cpu view after) : after.role = view.role := by
  obtain ⟨p, current, step⟩ := step
  have running := wellFormed.running.mpr ⟨cpu, current⟩
  have ready : ∀ q ∈ ((view.release cpu p .ready).enqueue p).ready,
      ((view.release cpu p .ready).enqueue p).status q = .ready := by
    intro q member
    by_cases same : q = p
    · simp [View.enqueue, same]
    · have earlier : q ∈ view.ready := by simpa [View.enqueue, View.release, same] using member
      simpa [View.enqueue, View.release, same] using wellFormed.ready.mp earlier
  have same : ProcessState.ready = view.role p := by simp [View.role, running, ProcessState.role]
  rw [step.role ready, role_enqueue, role_release, Function.update_idem]
  exact Function.update_eq_self_iff.mpr same

theorem Wakes.role (wellFormed : view.WellFormed cpuCount processCount)
    (notReady : view.status p ≠ .ready) (notRunning : view.status p ≠ .running)
    (inRange : p < processCount) (step : Wakes rank cpuCount p view after) :
    after.role = Function.update view.role p .ready := by
  cases step with
  | quiet => exact role_enqueue
  | preempts _ _ _ _ _ step =>
      rw [step.role (wellFormed.enqueue notReady notRunning inRange), role_enqueue]

end View

/-! ## The simulator's accounts -/

/-- The processes of some I/O requests. -/
def State.requesters (state : State) (requests : List Nat) : List Nat :=
  requests.map fun request => (state.requests request).pcb

/-- Every process is at an operation of its role. -/
structure Positions (config : Config) (programs : Nat → Program) (state : State)
    (role : Nat → ProcessState) : Prop where
  /-- Operations change their times only. -/
  types : ∀ p, (state.pcbs p).ops.map Op.type = (programs p).ops.map Op.type
  /-- The operation at the position. -/
  position : ∀ p < config.processCount, (state.pcbs p).op?.map Op.type = some (role p).opType

/-- The queue of I/O requests holds the requests of the waiting processes. -/
structure Queued (state : State) (role : Nat → ProcessState) (waiting : List Nat) : Prop where
  /-- The links of the queue. -/
  queue : IsList state.nextRequest state.ioQueueHead waiting
  /-- The end of the queue. -/
  tail : state.ioQueueTail = waiting.getLast?
  /-- Requests of the queue were allocated. -/
  allocated : ∀ request ∈ waiting, request < state.allocated
  /-- A process has one request. -/
  nodup : (state.requesters waiting).Nodup
  /-- Waiting processes have requests. -/
  waits : ∀ p, p ∈ state.requesters waiting ↔ role p = .waiting

section Accounts

variable {config : Config} {programs : Nat → Program} {state after : State}
  {role roleAfter : Nat → ProcessState} {waiting : List Nat} {p : Nat}

namespace Positions

theorem kept (positions : Positions config programs state role) (kept : Kept state after) :
    Positions config programs after role where
  types q := by
    rw [kept.pcbs q]
    exact positions.types q
  position q := by
    rw [kept.pcbs q]
    exact positions.position q

theorem types_at (positions : Positions config programs state role) (p : Nat) :
    ((programs p).ops.map Op.type)[(state.pcbs p).pc]? = (state.pcbs p).op?.map Op.type := by
  rw [← positions.types, List.getElem?_map, Pcb.op?]

theorem advance (positions : Positions config programs state role) {next : ProcessState}
    (operation : ((programs p).ops.map Op.type)[(state.pcbs p).pc + 1]? = some next.opType) :
    Positions config programs (state.modifyPcb p fun block => { block with pc := block.pc + 1 })
      (Function.update role p next) where
  types q := by
    by_cases same : q = p
    · subst same
      simpa [State.modifyPcb] using positions.types q
    · simpa [State.modifyPcb, same] using positions.types q
  position q inRange := by
    by_cases same : q = p
    · subst same
      rw [← positions.types, List.getElem?_map] at operation
      simpa [State.modifyPcb, Pcb.op?] using operation
    · simpa [State.modifyPcb, same] using positions.position q inRange

private theorem burn (positions : Positions config programs state role) {op : Op}
    (current : (state.pcbs p).op? = some op) (time : Int) :
    Positions config programs (state.modifyPcb p fun block =>
      { block with ops := block.ops.set block.pc { op with time } }) role := by
  obtain ⟨inside, found⟩ := List.getElem?_eq_some_iff.mp current
  have types : ((state.pcbs p).ops.set (state.pcbs p).pc { op with time }).map Op.type =
      (state.pcbs p).ops.map Op.type := by
    rw [List.map_set]
    refine List.ext_getElem? fun index => ?_
    rw [List.getElem?_set]
    split
    case isTrue same =>
      subst same
      simp [inside, found]
    case isFalse => rfl
  constructor
  · intro q
    by_cases same : q = p
    · subst same
      simpa [State.modifyPcb, types] using positions.types q
    · simpa [State.modifyPcb, same] using positions.types q
  · intro q inRange
    by_cases same : q = p
    · subst same
      have before := positions.position q inRange
      rw [current] at before
      simpa [State.modifyPcb, Pcb.op?, inside] using before
    · simpa [State.modifyPcb, same] using positions.position q inRange

end Positions

namespace Queued

theorem congr (queued : Queued state role waiting) (links : after.nextRequest = state.nextRequest)
    (pcbs : ∀ request, (after.requests request).pcb = (state.requests request).pcb)
    (head : after.ioQueueHead = state.ioQueueHead) (tail : after.ioQueueTail = state.ioQueueTail)
    (allocated : after.allocated = state.allocated)
    (roles : ∀ p, roleAfter p = .waiting ↔ role p = .waiting) :
    Queued after roleAfter waiting := by
  have requesters : after.requesters waiting = state.requesters waiting := by
    simp only [State.requesters, pcbs]
  refine ⟨?_, tail.trans queued.tail, ?_, ?_, fun p => ?_⟩
  · rw [links, head]
    exact queued.queue
  · rw [allocated]
    exact queued.allocated
  · rw [requesters]
    exact queued.nodup
  · rw [requesters, roles]
    exact queued.waits p

theorem tick (queued : Queued state role waiting) (request : Nat) (time : UInt32) :
    Queued
      { state with
        requests := Function.update state.requests request
          { state.requests request with executionTime := time } } role waiting := by
  refine queued.congr (funext fun other => ?_) (fun other => ?_) rfl rfl rfl fun _ => .rfl
  all_goals by_cases same : other = request
  · simp [State.nextRequest, same]
  · simp [State.nextRequest, same]
  · simp [same]
  · simp [same]

/-- The queue without its requesters. -/
theorem chained (queued : Queued state role waiting) : Chained state waiting :=
  ⟨queued.queue, queued.tail, queued.allocated⟩

private theorem submit (queued : Queued state role waiting) (notWaiting : role p ≠ .waiting)
    (time : UInt32) :
    Queued (submitIoRequest state p time) (Function.update role p .waiting)
      (waiting ++ [state.allocated]) := by
  have requesters : (submitIoRequest state p time).requesters (waiting ++ [state.allocated]) =
      state.requesters waiting ++ [p] := by
    rw [State.requesters, List.map_append]
    congr 1
    · refine List.map_congr_left fun request member => ?_
      rw [pcb_submitIoRequest, if_neg (ne_of_mem_of_not_mem member queued.chained.fresh)]
    · simp [pcb_submitIoRequest]
  obtain ⟨queue, tail, allocated⟩ := queued.chained.submit p time
  refine ⟨queue, tail, allocated, ?_, fun q => ?_⟩
  · rw [requesters]
    refine List.nodup_append.mpr ⟨queued.nodup, List.nodup_singleton p, fun q member r single => ?_⟩
    rw [List.mem_singleton.mp single]
    rintro rfl
    exact notWaiting ((queued.waits q).mp member)
  · rw [requesters, List.mem_append, List.mem_singleton, queued.waits]
    by_cases same : q = p <;> simp [same]

private theorem complete {completed : Nat} (queued : Queued state role (completed :: waiting))
    {next : ProcessState} (stays : next ≠ .waiting) :
    Queued
      { state with
        ioQueueHead := (state.requests completed).next
        ioQueueTail := if (state.requests completed).next = none then none else state.ioQueueTail }
      (Function.update role (state.requests completed).pcb next) waiting := by
  have nodup : (state.requests completed).pcb ∉ state.requesters waiting ∧
      (state.requesters waiting).Nodup := List.nodup_cons.mp queued.nodup
  obtain ⟨queue, tail, allocated⟩ := queued.chained.complete
  refine ⟨queue, tail, allocated, nodup.2, fun p => ?_⟩
  have before := queued.waits p
  change p ∈ state.requesters waiting ↔ _
  by_cases same : p = (state.requests completed).pcb
  · subst same
    simpa [stays] using nodup.1
  · simpa [State.requesters, same] using before

end Queued

end Accounts

/-! ## Runs -/

/-- One enabled event of the simulation. -/
def Step (config : Config) (before : State) (event : Event) (after : State) : Prop :=
  event.Enabled config before ∧ simulate config before event = some after

/-- The invariant of the runs. -/
structure Located (config : Config) (programs : Nat → Program) (state : State) (view : View)
    (waiting : List Nat) : Prop where
  /-- The scheduler's data. -/
  shows : Shows config state view
  /-- States name places. -/
  wellFormed : view.WellFormed config.cpuCount config.processCount
  /-- The CPU threads wait. -/
  steady : state.Steady
  /-- Static priorities. -/
  ranked : state.Ranked config
  /-- The operation arrays. -/
  positions : Positions config programs state view.role
  /-- The queue of I/O requests. -/
  queued : Queued state view.role waiting
  /-- Processes are created in the order of the table. -/
  created : ∀ p < config.processCount, view.role p = .new ↔ state.processesCreated ≤ p
  /-- Nothing was printed. -/
  output : state.output = []

section Runs

variable {config : Config} {programs : Nat → Program} {state middle after : State}
  {view next : View} {waiting waiting' : List Nat} {cpu p : Nat}

theorem created_update {role : Nat → ProcessState} {bound count : Nat} {changed : ProcessState}
    (created : ∀ q < bound, role q = .new ↔ count ≤ q) (notNew : role p ≠ .new)
    (stays : changed ≠ .new) :
    ∀ q < bound, Function.update role p changed q = .new ↔ count ≤ q := by
  intro q inRange
  by_cases same : q = p
  · subst same
    simpa [notNew, stays] using created q inRange
  · simpa [same] using created q inRange

theorem Shows.modifyPcb (shows : Shows config state view) (p : Nat) {change : Pcb → Pcb}
    (links : ∀ block, (change block).next = block.next)
    (status : ∀ block, (change block).state = block.state) :
    Shows config (state.modifyPcb p change) view where
  list := by
    have same : (state.modifyPcb p change).next = state.next := by
      funext q
      by_cases same : q = p <;> simp [State.next, State.modifyPcb, same, links]
    rw [same]
    exact shows.list
  inRange := shows.inRange
  current := shows.current
  mirror := shows.mirror
  status q := by
    by_cases same : q = p
    · simp [State.modifyPcb, same, status, shows.status]
    · simp [State.modifyPcb, same, shows.status]

theorem State.Ranked.modifyPcb (ranked : state.Ranked config) (p : Nat) {change : Pcb → Pcb}
    (priority : ∀ block, (change block).staticPriority = block.staticPriority) :
    (state.modifyPcb p change).Ranked config := by
  intro q inRange
  by_cases same : q = p
  · subst same
    simpa [State.modifyPcb, priority] using ranked q inRange
  · simpa [State.modifyPcb, same] using ranked q inRange

/-- What the simulator changed before the scheduler is called stays. -/
theorem Serves.located (serves : Serves config middle after next)
    (wellFormed : next.WellFormed config.cpuCount config.processCount)
    (ranked : middle.Ranked config) (positions : Positions config programs middle next.role)
    (queued : Queued middle next.role waiting)
    (created : ∀ p < config.processCount, next.role p = .new ↔ middle.processesCreated ≤ p)
    (output : middle.output = []) : Located config programs after next waiting where
  shows := serves.shows
  wellFormed := wellFormed
  steady := serves.steady
  ranked := serves.kept.ranked ranked
  positions := positions.kept serves.kept
  queued := by
    have requests : after.requests = middle.requests := by rw [serves.kept.rest]
    exact queued.congr (funext fun request => by simp only [State.nextRequest, requests])
      (by simp [requests]) (by rw [serves.kept.rest]) (by rw [serves.kept.rest])
      (by rw [serves.kept.rest]) fun _ => .rfl
  created := by
    rw [serves.kept.rest]
    exact created
  output := by
    rw [serves.kept.rest]
    exact output

/-- Move a process to its next operation. -/
def State.advance (state : State) (p : Nat) : State :=
  state.modifyPcb p fun block => { block with pc := block.pc + 1 }

/-- Use a tick of the current operation of a process on a CPU. -/
def State.burn (state : State) (cpu p : Nat) (op : Op) : State :=
  (state.modifyPcb p fun block =>
    { block with ops := block.ops.set block.pc { op with time := op.time - 1 } }).modifyCpu cpu
      fun data => { data with preemptionTimer := data.preemptionTimer - 1 }

theorem simulateProcess_burn {op : Op} (found : (state.pcbs p).op? = some op)
    (type : op.type = .cpu) (left : op.time > 0) :
    simulateProcess config state cpu p =
      if ((state.burn cpu p op).cpuData cpu).preemptionTimer = 0 then
        dispatch config (state.burn cpu p op) cpu .preempt
      else some (state.burn cpu p op) := by
  simp [simulateProcess, found, type, left, State.burn]

theorem simulateProcess_advance {op after : Op} (found : (state.pcbs p).op? = some op)
    (type : op.type = .cpu) (ended : ¬ op.time > 0)
    (read : ((state.advance p).pcbs p).op? = some after) :
    simulateProcess config state cpu p =
      match after.type with
      | .io => dispatch config (submitIoRequest (state.advance p) p (.ofInt after.time)) cpu .yield
      | .terminate => dispatch config (state.advance p) cpu .terminate
      | .cpu => some (state.advance p) := by
  rw [State.advance] at read ⊢
  cases kind : after.type <;>
    simp only [simulateProcess, found, type, ended, if_false, Option.bind_eq_bind,
      Option.bind_some, read, kind]

namespace Located

theorem burst (located : Located config programs state view waiting)
    (current : view.current cpu = some p) :
    p < config.processCount ∧ view.status p = .running ∧
      ∃ op, (state.pcbs p).op? = some op ∧ op.type = .cpu := by
  have running := located.wellFormed.running.mpr ⟨cpu, current⟩
  have inRange : p < config.processCount := located.wellFormed.processes (by simp [running])
  refine ⟨inRange, running, ?_⟩
  have position := located.positions.position p inRange
  rw [View.role, running] at position
  obtain ⟨op, found, type⟩ := Option.map_eq_some_iff.mp position
  exact ⟨op, found, type⟩

/-- A running process is at a burst, and the next operation is a request or the end. -/
theorem afterBurst (located : Located config programs state view waiting)
    (alternating : ∀ p < config.processCount, Alternating ((programs p).ops.map Op.type))
    (current : view.current cpu = some p) :
    ((programs p).ops.map Op.type)[(state.pcbs p).pc + 1]? = some .io ∨
      ((programs p).ops.map Op.type)[(state.pcbs p).pc + 1]? = some .terminate := by
  obtain ⟨inRange, -, op, found, type⟩ := located.burst current
  refine (alternating p inRange).after_cpu ?_
  rw [located.positions.types_at, found, Option.map_some, type]

private theorem tick (located : Located config programs state view waiting)
    (current : view.current cpu = some p) {op : Op} (found : (state.pcbs p).op? = some op)
    (type : op.type = .cpu) (left : op.time > 0) :
    ∃ after next, simulateProcess config state cpu p = some after ∧
      Located config programs after next waiting := by
  let middle := state.burn cpu p op
  have shows : Shows config middle view :=
    (located.shows.modifyPcb p (fun _ => by rfl) fun _ => by rfl).modifyCpu cpu fun _ => by rfl
  have burnt : (state.modifyPcb p fun block =>
      { block with ops := block.ops.set block.pc { op with time := op.time - 1 } }).Ranked config :=
    located.ranked.modifyPcb p fun _ => by rfl
  have ranked : middle.Ranked config := burnt
  have positions : Positions config programs middle view.role :=
    (located.positions.burn found _).kept (.modifyCpu _ _ _)
  have steady : middle.Steady := by
    intro other
    by_cases here : other = cpu
    · subst here
      simpa [middle, State.burn, State.modifyCpu, State.modifyPcb] using located.steady other
    · simpa [middle, State.burn, State.modifyCpu, State.modifyPcb, here] using located.steady other
  rw [simulateProcess_burn found type left]
  split
  · obtain ⟨after, next, result, step, serves⟩ := dispatch_preempt shows ranked steady
      located.wellFormed current
    have role := step.role located.wellFormed
    refine ⟨after, next, result, serves.located (located.wellFormed.preempts step) ranked ?_ ?_ ?_
      located.output⟩
    · rwa [role]
    · rw [role]
      exact located.queued.congr rfl (fun _ => rfl) rfl rfl rfl fun _ => .rfl
    · rw [role]
      exact located.created
  · exact ⟨middle, view, rfl, shows, located.wellFormed, steady, ranked, positions,
      located.queued.congr rfl (fun _ => rfl) rfl rfl rfl fun _ => .rfl, located.created,
      located.output⟩

theorem advanced (located : Located config programs state view waiting) {next : ProcessState}
    (operation : ((programs p).ops.map Op.type)[(state.pcbs p).pc + 1]? = some next.opType)
    (inRange : p < config.processCount) :
    ∃ op, ((state.advance p).pcbs p).op? = some op ∧ op.type = next.opType := by
  have position := (located.positions.advance operation).position p inRange
  rw [Function.update_self] at position
  exact Option.map_eq_some_iff.mp position

private theorem request (located : Located config programs state view waiting)
    (current : view.current cpu = some p) {op : Op} (found : (state.pcbs p).op? = some op)
    (type : op.type = .cpu) (ended : ¬ op.time > 0)
    (operation : ((programs p).ops.map Op.type)[(state.pcbs p).pc + 1]? = some .io) :
    ∃ after next waiting', simulateProcess config state cpu p = some after ∧
      Located config programs after next waiting' := by
  obtain ⟨inRange, running, -⟩ := located.burst current
  have role : view.role p = .ready := by simp [View.role, running, ProcessState.role]
  have waits : ((programs p).ops.map Op.type)[(state.pcbs p).pc + 1]? =
      some ProcessState.waiting.opType := operation
  obtain ⟨request, read, kind⟩ := located.advanced waits inRange
  let moved := state.advance p
  have simulates : simulateProcess config state cpu p =
      dispatch config (submitIoRequest moved p (.ofInt request.time)) cpu .yield := by
    rw [simulateProcess_advance found type ended read, kind]
    rfl
  have ranked : moved.Ranked config := located.ranked.modifyPcb p fun _ => by rfl
  have shows : Shows config moved view :=
    located.shows.modifyPcb p (fun _ => by rfl) fun _ => by rfl
  have positions : Positions config programs moved (Function.update view.role p .waiting) :=
    located.positions.advance operation
  have queued : Queued moved view.role waiting :=
    located.queued.congr rfl (fun _ => rfl) rfl rfl rfl fun _ => .rfl
  have notWaiting : view.role p ≠ .waiting := by simp [role]
  have submitted := queued.submit notWaiting (.ofInt request.time)
  have rest := submitIoRequest_rest moved p (.ofInt request.time)
  generalize submitIoRequest moved p (.ofInt request.time) = middle at simulates submitted rest
  rw [rest] at simulates submitted
  obtain ⟨after, next, result, step, serves⟩ := dispatch_yield
    (⟨shows.list, shows.inRange, shows.current, shows.mirror, shows.status⟩ : Shows config
      { moved with
        requests := middle.requests
        allocated := middle.allocated
        ioQueueHead := middle.ioQueueHead
        ioQueueTail := middle.ioQueueTail } view) ranked located.steady located.wellFormed current
  have roles := step.role located.wellFormed current (by decide) (by decide)
  refine ⟨after, next, waiting ++ [moved.allocated], simulates.trans result, serves.located
    (located.wellFormed.leaves (by decide) (by decide) step) ranked ?_ ?_ ?_ located.output⟩
  · rw [roles]
    exact ⟨positions.types, positions.position⟩
  · rw [roles]
    exact submitted
  · rw [roles]
    exact created_update located.created (by simp [role]) (by decide)

private theorem finish (located : Located config programs state view waiting)
    (current : view.current cpu = some p) {op : Op} (found : (state.pcbs p).op? = some op)
    (type : op.type = .cpu) (ended : ¬ op.time > 0)
    (operation : ((programs p).ops.map Op.type)[(state.pcbs p).pc + 1]? = some .terminate) :
    ∃ after next, simulateProcess config state cpu p = some after ∧
      Located config programs after next waiting := by
  obtain ⟨inRange, running, -⟩ := located.burst current
  have role : view.role p = .ready := by simp [View.role, running, ProcessState.role]
  have ends : ((programs p).ops.map Op.type)[(state.pcbs p).pc + 1]? =
      some ProcessState.terminated.opType := operation
  obtain ⟨last, read, kind⟩ := located.advanced ends inRange
  let moved := state.advance p
  have simulates : simulateProcess config state cpu p = dispatch config moved cpu .terminate := by
    rw [simulateProcess_advance found type ended read, kind]
    rfl
  have shows : Shows config moved view :=
    located.shows.modifyPcb p (fun _ => by rfl) fun _ => by rfl
  have ranked : moved.Ranked config := located.ranked.modifyPcb p fun _ => by rfl
  have positions : Positions config programs moved (Function.update view.role p .terminated) :=
    located.positions.advance operation
  obtain ⟨after, next, result, step, serves⟩ := dispatch_terminate shows ranked located.steady
    located.wellFormed current
  have roles := step.role located.wellFormed current (by decide) (by decide)
  refine ⟨after, next, simulates.trans result, serves.located
    (located.wellFormed.leaves (by decide) (by decide) step) ranked ?_ ?_ ?_ located.output⟩
  · rwa [roles]
  · rw [roles]
    refine located.queued.congr rfl (fun _ => rfl) rfl rfl rfl fun q => ?_
    by_cases same : q = p <;> simp [same, role]
  · rw [roles]
    exact created_update located.created (by simp [role]) (by decide)

/-- Any event at a CPU. -/
theorem cpu_spec (located : Located config programs state view waiting)
    (alternating : ∀ p < config.processCount, Alternating ((programs p).ops.map Op.type)) :
    ∃ after next waiting', simulateCpu config state cpu = some after ∧
      Located config programs after next waiting' := by
  rw [simulateCpu, located.shows.mirror]
  cases current : view.current cpu with
  | none => exact ⟨state, view, waiting, rfl, located⟩
  | some p =>
      obtain ⟨-, -, op, found, type⟩ := located.burst current
      by_cases left : op.time > 0
      · obtain ⟨after, next, result, located⟩ := located.tick current found type left
        exact ⟨after, next, waiting, result, located⟩
      · rcases located.afterBurst alternating current with request | finish
        · exact located.request current found type left request
        · obtain ⟨after, next, result, located⟩ := located.finish current found type left finish
          exact ⟨after, next, waiting, result, located⟩

theorem afterRequest {completed : Nat}
    (located : Located config programs state view waiting)
    (alternating : ∀ p < config.processCount, Alternating ((programs p).ops.map Op.type))
    (head : state.ioQueueHead = some completed) :
    view.status (state.requests completed).pcb = .waiting ∧
      (state.requests completed).pcb < config.processCount ∧
      ((programs (state.requests completed).pcb).ops.map Op.type)[
        (state.pcbs (state.requests completed).pcb).pc + 1]? = some .cpu := by
  have first : (state.requests completed).pcb ∈ state.requesters waiting := by
    have queue := located.queued.queue
    cases waiting with
    | nil =>
        have empty : state.ioQueueHead = none := queue
        rw [head] at empty
        cases empty
    | cons first waiting =>
        obtain rfl := Option.some.inj (head.symm.trans queue.1)
        exact List.mem_cons_self
  have role := (located.queued.waits _).mp first
  have status := ProcessState.role_eq_waiting.mp role
  have inRange : (state.requests completed).pcb < config.processCount :=
    located.wellFormed.processes (by simp [status])
  refine ⟨status, inRange, (alternating _ inRange).after_io ?_⟩
  rw [located.positions.types_at, located.positions.position _ inRange, role]
  rfl

private theorem wake {completed : Nat}
    (located : Located config programs state view (completed :: waiting))
    (alternating : ∀ p < config.processCount, Alternating ((programs p).ops.map Op.type))
    (head : state.ioQueueHead = some completed)
    (done : (state.requests completed).executionTime ≤ 0) :
    ∃ after next waiting', simulateIo config state = some after ∧
      Located config programs after next waiting' := by
  let p := (state.requests completed).pcb
  obtain ⟨status, inRange, operation⟩ := located.afterRequest alternating head
  have role : view.role p = .waiting := ProcessState.role_eq_waiting.mpr status
  have notReady : view.status p ≠ .ready := by simp [p, status]
  have notRunning : view.status p ≠ .running := by simp [p, status]
  let moved := state.modifyPcb p fun block => { block with pc := block.pc + 1 }
  have shows : Shows config moved view :=
    located.shows.modifyPcb p (fun _ => by rfl) fun _ => by rfl
  have ranked : moved.Ranked config := located.ranked.modifyPcb p fun _ => by rfl
  have positions : Positions config programs moved (Function.update view.role p .ready) :=
    located.positions.advance operation
  have stays : ProcessState.ready ≠ .waiting := by decide
  have queued := (located.queued.complete stays).tick completed
    ((state.requests completed).executionTime - 1)
  let middle : State :=
    { moved with
      requests := Function.update state.requests completed
        { state.requests completed with
          executionTime := (state.requests completed).executionTime - 1 }
      ioQueueHead := (state.requests completed).next
      ioQueueTail := if (state.requests completed).next = none then none else state.ioQueueTail }
  have simulates : simulateIo config state = wakeUp config middle p := by
    simp [simulateIo, head, done, middle, moved, p, State.modifyPcb]
  obtain ⟨after, next, result, step, serves⟩ := wakeUp_spec
    (⟨shows.list, shows.inRange, shows.current, shows.mirror, shows.status⟩ :
      Shows config middle view) ranked located.steady located.wellFormed notReady notRunning inRange
  have roles := step.role located.wellFormed notReady notRunning inRange
  refine ⟨after, next, waiting, simulates.trans result, serves.located
    (located.wellFormed.wakes notReady notRunning inRange step) ranked ?_ ?_ ?_ located.output⟩
  · rw [roles]
    exact ⟨positions.types, positions.position⟩
  · rw [roles]
    exact queued.congr rfl (fun _ => rfl) rfl rfl rfl fun _ => .rfl
  · rw [roles]
    exact created_update located.created (by simp [role]) (by decide)

/-- A tick of the I/O device, at the end of which a process may be woken. -/
theorem io_spec (located : Located config programs state view waiting)
    (alternating : ∀ p < config.processCount, Alternating ((programs p).ops.map Op.type)) :
    ∃ after next waiting', simulateIo config state = some after ∧
      Located config programs after next waiting' := by
  cases waiting with
  | nil =>
      have empty : state.ioQueueHead = none := located.queued.queue
      exact ⟨state, view, [], by simp [simulateIo, empty], located⟩
  | cons completed waiting =>
      have head : state.ioQueueHead = some completed := located.queued.queue.1
      by_cases done : (state.requests completed).executionTime ≤ 0
      · exact located.wake alternating head done
      · have ticks : simulateIo config state = some
            { state with
              requests := Function.update state.requests completed
                { state.requests completed with
                  executionTime := (state.requests completed).executionTime - 1 } } := by
          simp [simulateIo, head, done]
        exact ⟨_, view, completed :: waiting, ticks,
          ⟨located.shows.list, located.shows.inRange, located.shows.current, located.shows.mirror,
            located.shows.status⟩, located.wellFormed, located.steady, located.ranked,
          ⟨located.positions.types, located.positions.position⟩, located.queued.tick completed _,
          located.created, located.output⟩

/-- The next process of the table is created. -/
theorem creat_spec (located : Located config programs state view waiting) :
    ∃ after next waiting', simulateCreat config state = some after ∧
      Located config programs after next waiting' := by
  by_cases more : state.processesCreated < config.processCount
  · have new : view.role state.processesCreated = .new :=
      (located.created _ more).mpr (Nat.le_refl _)
    have status : view.status state.processesCreated = .new := ProcessState.role_eq_new.mp new
    have notReady : view.status state.processesCreated ≠ .ready := by simp [status]
    have notRunning : view.status state.processesCreated ≠ .running := by simp [status]
    obtain ⟨after, next, result, step, serves⟩ := wakeUp_spec located.shows located.ranked
      located.steady located.wellFormed notReady notRunning more
    have roles := step.role located.wellFormed notReady notRunning more
    have created : Serves config
        { state with processesCreated := state.processesCreated + 1 }
        { after with processesCreated := state.processesCreated + 1 } next :=
      ⟨⟨serves.shows.list, serves.shows.inRange, serves.shows.current, serves.shows.mirror,
        serves.shows.status⟩, ⟨by rw [serves.kept.rest], serves.kept.pcbs⟩, serves.steady⟩
    have count : after.processesCreated = state.processesCreated := by rw [serves.kept.rest]
    refine ⟨_, next, waiting, by simp [simulateCreat, more, result, count], created.located
      (located.wellFormed.wakes notReady notRunning more step) located.ranked
      ⟨located.positions.types, fun p inRange => ?_⟩ ?_ (fun p inRange => ?_) located.output⟩
    · rw [roles]
      by_cases same : p = state.processesCreated
      · have position := located.positions.position p inRange
        rw [same, new] at position
        rw [same, Function.update_self]
        exact position
      · simpa [same] using located.positions.position p inRange
    · rw [roles]
      refine located.queued.congr rfl (fun _ => rfl) rfl rfl rfl fun p => ?_
      by_cases same : p = state.processesCreated <;> simp [same, new]
    · rw [roles]
      by_cases same : p = state.processesCreated
      · simp [same]
      · have before := located.created p inRange
        simp only [same, Function.update_of_ne, ne_eq, not_false_eq_true, before]
        omega
  · exact ⟨state, view, waiting, by simp [simulateCreat, more], located⟩

/-- An idle CPU finds a ready process. -/
theorem idle_spec (located : Located config programs state view waiting)
    (inRange : cpu < config.cpuCount) (waits : (state.cpuData cpu).state = .idle) :
    ∃ after next, dispatch config state cpu .idle = some after ∧
      Located config programs after next waiting := by
  have idle : view.current cpu = none := by
    rw [← located.shows.mirror]
    by_contra busy
    rw [located.steady, if_neg busy] at waits
    cases waits
  obtain ⟨after, next, result, step, serves⟩ := dispatch_idle located.shows located.ranked
    located.steady inRange
  have roles := step.role fun q member => located.wellFormed.ready.mp member
  refine ⟨after, next, result, serves.located (located.wellFormed.schedules idle inRange step)
    located.ranked ?_ ?_ ?_ located.output⟩
  · rw [roles]
    exact located.positions
  · rw [roles]
    exact located.queued
  · rw [roles]
    exact located.created

/-- Every enabled event happens and leaves every process in one place. -/
theorem simulate_spec (located : Located config programs state view waiting)
    (alternating : ∀ p < config.processCount, Alternating ((programs p).ops.map Op.type))
    {event : Event} (enabled : event.Enabled config state) :
    ∃ after next waiting', simulate config state event = some after ∧
      Located config programs after next waiting' := by
  cases event with
  | cpu => exact located.cpu_spec alternating
  | io => exact located.io_spec alternating
  | creat => exact located.creat_spec
  | idle cpu =>
      obtain ⟨after, next, result, located⟩ := located.idle_spec enabled.1 enabled.2.1
      exact ⟨after, next, waiting, result, located⟩

private theorem start
    (alternating : ∀ p < config.processCount, Alternating ((programs p).ops.map Op.type))
    (ranked : (startSimulator programs).Ranked config) :
    Located config programs (startSimulator programs) View.start [] where
  shows := (startSimulator_serves config programs).shows
  wellFormed := .start _ _
  steady := (startSimulator_serves config programs).steady
  ranked := ranked
  positions := by
    refine ⟨fun _ => rfl, fun p inRange => ?_⟩
    have first := (alternating p inRange).first
    rw [List.getElem?_map] at first
    exact first
  queued := ⟨rfl, rfl, by simp, List.nodup_nil, by simp [State.requesters, View.role, View.start,
    ProcessState.role]⟩
  created p _ := by simp [View.role, View.start, startSimulator, ProcessState.role]
  output := rfl

end Located

theorem located_of_trace {events : List Event}
    (alternating : ∀ p < config.processCount, Alternating ((programs p).ops.map Op.type))
    (ranked : (startSimulator programs).Ranked config)
    (trace : Trace (Step config) (startSimulator programs) events state) :
    ∃ view waiting, Located config programs state view waiting := by
  induction trace with
  | nil => exact ⟨_, _, .start alternating ranked⟩
  | snoc _ last ih =>
      obtain ⟨view, waiting, located⟩ := ih
      obtain ⟨after, next, waiting', result, located⟩ :=
        located.simulate_spec alternating last.1
      obtain rfl := Option.some.inj (last.2.symm.trans result)
      exact ⟨next, waiting', located⟩

end Runs

/-! ## Places -/

/-- A process is once in the place that its state names and in no other place, and it is at an
operation for this place. -/
structure Placed (config : Config) (state : State) (ready waiting : List Nat) (p : Nat) : Prop where
  /-- Processes are created in the order of the table. -/
  created : (state.pcbs p).state = .new ↔ state.processesCreated ≤ p
  /-- The ready list. -/
  ready : ready.count p = if (state.pcbs p).state = .ready then 1 else 0
  /-- The CPUs. -/
  running : (List.range config.cpuCount).countP (fun cpu => state.current cpu = some p) =
    if (state.pcbs p).state = .running then 1 else 0
  /-- The queue of I/O requests. -/
  waiting : (state.requesters waiting).count p = if (state.pcbs p).state = .waiting then 1 else 0
  /-- The current operation. -/
  position : (state.pcbs p).op?.map Op.type = some (state.pcbs p).state.opType

section Places

variable {config : Config} {programs : Nat → Program} {state : State} {view : View}
  {waiting : List Nat} {p : Nat}

theorem Located.placed (located : Located config programs state view waiting)
    (inRange : p < config.processCount) : Placed config state view.ready waiting p where
  created := by
    rw [located.shows.status, ← located.created p inRange]
    exact ProcessState.role_eq_new.symm
  ready := by
    rw [located.shows.status, located.wellFormed.nodup.count]
    simp only [located.wellFormed.ready]
  running := by
    rw [located.shows.status, located.shows.current]
    split
    case isTrue running =>
      obtain ⟨cpu, current⟩ := located.wellFormed.running.mp running
      have only : ∀ other ∈ List.range config.cpuCount,
          decide (view.current other = some p) = true ↔ (other == cpu) = true := by
        intro other _
        simp only [decide_eq_true_eq, beq_iff_eq]
        refine ⟨fun runs => located.wellFormed.single runs current, ?_⟩
        rintro rfl
        exact current
      rw [List.countP_congr only]
      exact List.count_eq_one_of_mem List.nodup_range
        (List.mem_range.mpr (located.wellFormed.cpus current))
    case isFalse notRunning =>
      refine List.countP_eq_zero.mpr fun cpu _ current => ?_
      exact notRunning (located.wellFormed.running.mpr ⟨cpu, of_decide_eq_true current⟩)
  waiting := by
    rw [located.shows.status, located.queued.nodup.count]
    simp only [located.queued.waits, View.role, ProcessState.role_eq_waiting]
  position := by
    rw [located.positions.position p inRange, located.shows.status, View.role,
      ProcessState.opType_role]

/-- In every reachable state every process is in one place only. The arrays of running processes
agree, nothing was printed, and every enabled event happens without a failure. -/
theorem every_process_in_one_place {events : List Event}
    (alternating : ∀ p < config.processCount, Alternating ((programs p).ops.map Op.type))
    (ranked : (startSimulator programs).Ranked config)
    (trace : Trace (Step config) (startSimulator programs) events state) :
    (∃ ready waiting, IsList state.next state.qHead ready ∧
      IsList state.nextRequest state.ioQueueHead waiting ∧
      ∀ p < config.processCount, Placed config state ready waiting p) ∧
    (∀ cpu, (state.cpuData cpu).current = state.current cpu) ∧
    state.output = [] ∧
    ∀ event : Event, event.Enabled config state → ∃ after, simulate config state event = some after := by
  obtain ⟨view, waiting, located⟩ := located_of_trace alternating ranked trace
  refine ⟨⟨view.ready, waiting, located.shows.list, located.queued.queue, fun p inRange =>
    located.placed inRange⟩, fun cpu => ?_, located.output, fun event enabled => ?_⟩
  · rw [located.shows.mirror, located.shows.current]
  · obtain ⟨after, -, -, result, -⟩ := located.simulate_spec alternating enabled
    exact ⟨after, result⟩

end Places

/-- Simulate one event if it is enabled. -/
def simulateEnabled (config : Config) (state : State) (event : Event) : Option State :=
  if event.Enabled config state then simulate config state event else none

theorem simulateEnabled_step {config : Config} {before after : State} {event : Event}
    (result : simulateEnabled config before event = some after) : Step config before event after := by
  unfold simulateEnabled at result
  split at result
  case isTrue enabled => exact ⟨enabled, result⟩
  case isFalse => cases result

/-- One CPU and two processes, in turn. -/
def roundRobin : Config where
  cpuCount := 1
  processCount := 2
  staticPrior := false
  timeslice := 1

/-- A process with two bursts and one I/O request. -/
def requesting (p : Nat) : Program where
  pid := p.toUInt32
  staticPriority := 1
  ops := [⟨.cpu, 1⟩, ⟨.io, 0⟩, ⟨.cpu, 0⟩, ⟨.terminate, 0⟩]

theorem every_process_in_one_place_roundRobin : ∃ events state,
    Trace (Step roundRobin) (startSimulator requesting) events state ∧
      (state.pcbs 0).state = .terminated ∧ (state.pcbs 1).state = .waiting ∧
      ∃ ready waiting, Placed roundRobin state ready waiting 0 ∧
        Placed roundRobin state ready waiting 1 := by
  let events : List Event :=
    [.creat, .idle 0, .cpu 0, .cpu 0, .io, .creat, .idle 0, .cpu 0, .cpu 0, .cpu 0, .cpu 0]
  let state := (events.foldlM (simulateEnabled roundRobin) (startSimulator requesting)).get
    (by decide)
  have trace : Trace (Step roundRobin) (startSimulator requesting) events state :=
    (Trace.of_foldlM (Option.some_get _).symm).mono simulateEnabled_step
  have alternating : ∀ p < roundRobin.processCount,
      Alternating ((requesting p).ops.map Op.type) := fun _ _ => .burst .last
  have ranked : (startSimulator requesting).Ranked roundRobin := fun _ _ =>
    ⟨Nat.le_refl 1, Nat.le_add_left 1 9⟩
  obtain ⟨ready, waiting, -, -, placed⟩ :=
    (every_process_in_one_place alternating ranked trace).1
  exact ⟨events, state, trace, by decide, by decide, ready, waiting, placed 0 (by decide),
    placed 1 (by decide)⟩

end CS2200.Scheduling
