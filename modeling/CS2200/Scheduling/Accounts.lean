import CS2200.Scheduling.Location

/-!
# Every process gets its program

A record beside the state keeps, for every process, the ticks that its operations have used and the
I/O requests that were submitted and completed for it, and for every CPU the ticks of each of its
dispatches. The simulator consumes an operation array in place; together with the record it is
always the whole program.
-/

namespace CS2200.Scheduling

/-! ## The record of a process -/

/-- What a process is given, with the position of the operation. -/
inductive Entry where
  /-- A tick of a CPU. -/
  | tick (op : Nat)
  /-- A submitted I/O request. -/
  | submitted (op : Nat) (time : UInt32)
  /-- A completed I/O request. -/
  | completed (op : Nat)
  deriving DecidableEq, Repr

/-- What an operation is given in all. -/
def Op.entries (index : Nat) (op : Op) : List Entry :=
  match op.type with
  | .cpu => List.replicate op.time.toNat (.tick index)
  | .io => [.submitted index (.ofInt op.time), .completed index]
  | .terminate => []

/-- What an operation was given when it is current and has some time left. -/
def Op.begun (index : Nat) (op : Op) (left : Int) : List Entry :=
  match op.type with
  | .cpu => List.replicate (op.time.toNat - left.toNat) (.tick index)
  | .io => [.submitted index (.ofInt op.time)]
  | .terminate => []

/-- What the operations of a program are given, in their order. -/
def recorded (program : List Op) : List Entry :=
  (program.zipIdx.map fun (op, index) => op.entries index).flatten

theorem recorded_take_succ {program : List Op} {index : Nat} {op : Op}
    (present : program[index]? = some op) :
    recorded (program.take (index + 1)) = recorded (program.take index) ++ op.entries index := by
  have inside := (List.getElem?_eq_some_iff.mp present).1
  have length : (program.take index).length = index := List.length_take_of_le (Nat.le_of_lt inside)
  rw [List.take_add_one, present, Option.toList_some, recorded, List.zipIdx_append, length]
  simp [recorded]

/-- The operation array of a process and its record are its program. -/
structure Spent (program : List Op) (block : Pcb) (history : List Entry) : Prop where
  /-- Later operations are untouched. -/
  later : ∀ index, block.pc < index → block.ops[index]? = program[index]?
  /-- The current operation has used what was recorded for it. -/
  current : ∃ op left, program[block.pc]? = some op ∧ block.op? = some { op with time := left } ∧
    left ≤ op.time ∧ history = recorded (program.take block.pc) ++ op.begun block.pc left

namespace Spent

variable {program : List Op} {block after : Pcb} {history : List Entry} {op : Op}

theorem congr (spent : Spent program block history) (ops : after.ops = block.ops)
    (pc : after.pc = block.pc) : Spent program after history := by
  obtain ⟨later, current⟩ := spent
  refine ⟨?_, ?_⟩
  · rwa [ops, pc]
  · rwa [Pcb.op?, ops, pc]

private theorem burn (spent : Spent program block history) (found : block.op? = some op)
    (type : op.type = .cpu) (left : op.time > 0) :
    Spent program
      { block with ops := block.ops.set block.pc { op with time := op.time - 1 } }
      (history ++ [.tick block.pc]) := by
  obtain ⟨later, whole, time, present, isCurrent, less, rfl⟩ := spent
  obtain rfl := Option.some.inj (found.symm.trans isCurrent)
  have isCpu : whole.type = .cpu := type
  have inside := (List.getElem?_eq_some_iff.mp isCurrent).1
  refine ⟨fun index behind => ?_, whole, time - 1, present, ?_, by omega, ?_⟩
  · rw [List.getElem?_set_ne (Nat.ne_of_lt behind)]
    exact later index behind
  · simp [Pcb.op?, inside]
  · have positive : time > 0 := left
    have more : whole.time.toNat - (time - 1).toNat = whole.time.toNat - time.toNat + 1 := by omega
    simp only [Op.begun, isCpu, more, List.replicate_succ', List.append_assoc]

theorem advance (spent : Spent program block history) {given : List Entry} {next : Op}
    (whole : ∀ op left, program[block.pc]? = some op → block.op? = some { op with time := left } →
      op.begun block.pc left ++ given = op.entries block.pc ++ next.begun (block.pc + 1) next.time)
    (read : block.ops[block.pc + 1]? = some next) :
    Spent program { block with pc := block.pc + 1 } (history ++ given) := by
  obtain ⟨later, op, left, present, isCurrent, less, rfl⟩ := spent
  have following := (later (block.pc + 1) (Nat.lt_succ_self _)).symm.trans read
  refine ⟨fun index behind => later index (Nat.lt_of_succ_lt behind), next, next.time, following,
    read, Int.le_refl _, ?_⟩
  rw [recorded_take_succ present, List.append_assoc, whole op left present isCurrent,
    List.append_assoc]

/-- A burst without time left has been given everything. -/
theorem begun_of_ended (type : op.type = .cpu) {left : Int} (ended : ¬ left > 0) (index : Nat) :
    op.begun index left = op.entries index := by
  have nothing : left.toNat = 0 := Int.toNat_of_nonpos (Int.not_lt.mp ended)
  simp [Op.begun, Op.entries, type, nothing]

private theorem request (spent : Spent program block history) (found : block.op? = some op)
    (type : op.type = .cpu) (ended : ¬ op.time > 0) {next : Op}
    (read : block.ops[block.pc + 1]? = some next) (kind : next.type = .io) :
    Spent program { block with pc := block.pc + 1 }
      (history ++ [.submitted (block.pc + 1) (.ofInt next.time)]) := by
  refine spent.advance (fun whole left _ isCurrent => ?_) read
  obtain rfl := Option.some.inj (found.symm.trans isCurrent)
  rw [begun_of_ended (show whole.type = .cpu from type) ended]
  simp [Op.begun, kind]

private theorem finish (spent : Spent program block history) (found : block.op? = some op)
    (type : op.type = .cpu) (ended : ¬ op.time > 0) {next : Op}
    (read : block.ops[block.pc + 1]? = some next) (kind : next.type = .terminate) :
    Spent program { block with pc := block.pc + 1 } history := by
  have same : history = history ++ [] := (List.append_nil history).symm
  rw [same]
  refine spent.advance (fun whole left _ isCurrent => ?_) read
  obtain rfl := Option.some.inj (found.symm.trans isCurrent)
  rw [begun_of_ended (show whole.type = .cpu from type) ended]
  simp [Op.begun, kind]

private theorem complete (spent : Spent program block history) (found : block.op? = some op)
    (type : op.type = .io) {next : Op} (read : block.ops[block.pc + 1]? = some next)
    (kind : next.type = .cpu) :
    Spent program { block with pc := block.pc + 1 } (history ++ [.completed block.pc]) := by
  refine spent.advance (fun whole left _ isCurrent => ?_) read
  obtain rfl := Option.some.inj (found.symm.trans isCurrent)
  have isIo : whole.type = .io := type
  simp [Op.begun, Op.entries, isIo, kind]

theorem kept {state after : State} {p : Nat} (spent : Spent program (state.pcbs p) history)
    (kept : Kept state after) : Spent program (after.pcbs p) history :=
  spent.congr (by rw [kept.pcbs p]) (by rw [kept.pcbs p])

end Spent

/-! ## Accounts -/

/-- What an event adds to the record of a process: the request that it has put into the queue, the
tick that a burst with time left uses, or the request that it completes. -/
def entry (before after : State) : Event → Option (Nat × Entry)
  | .cpu n =>
      if before.allocated < after.allocated then
        let request := after.requests before.allocated
        some (request.pcb, .submitted (after.pcbs request.pcb).pc request.executionTime)
      else do
        let p ← (before.cpuData n).current
        let block := before.pcbs p
        let op ← block.op?
        if op.type = .cpu ∧ op.time > 0 then some (p, .tick block.pc) else none
  | .io => do
      let head ← before.ioQueueHead
      let request := before.requests head
      if request.executionTime ≤ 0 then
        some (request.pcb, .completed (before.pcbs request.pcb).pc)
      else none
  | .creat | .idle _ => none

/-- The globals with the records. -/
structure Account where
  /-- The globals. -/
  state : State
  /-- What each process was given, in order. -/
  history : Nat → List Entry
  /-- The ticks of the dispatches of each CPU, the last dispatch in front. -/
  slices : Nat → List Nat

namespace Account

/-- Before any event. -/
def start (programs : Nat → Program) : Account where
  state := startSimulator programs
  history _ := []
  slices _ := []

/-- The histories after an event that leads to a state. -/
def recordEntry (account : Account) (event : Event) (after : State) : Nat → List Entry :=
  match entry account.state after event with
  | none => account.history
  | some (p, entry) => Function.update account.history p (account.history p ++ [entry])

/-- A tick of the last dispatch. -/
def countTick : List Nat → List Nat
  | [] => [1]
  | ticks :: earlier => (ticks + 1) :: earlier

/-- The dispatches of a CPU after the simulation of its process. -/
def ticks (account : Account) (cpu : Nat) (after : State) : List Nat :=
  match entry account.state after (.cpu cpu) with
  | some (_, .tick _) => countTick (account.slices cpu)
  | _ => account.slices cpu

/-- The dispatches after an event that leads to a state. A context switch on the CPU of the event
begins a dispatch; `wake_up` switches other CPUs under static priorities only. -/
def recordTicks (account : Account) (event : Event) (after : State) : Nat → List Nat :=
  match event with
  | .cpu n =>
      Function.update account.slices n
        (if after.contextSwitches = account.state.contextSwitches then account.ticks n after
        else 0 :: account.ticks n after)
  | .idle n => Function.update account.slices n (0 :: account.slices n)
  | .io | .creat => account.slices

/-- One enabled event, which is recorded. -/
def Step (config : Config) (before : Account) (event : Event) (after : Account) : Prop :=
  Scheduling.Step config before.state event after.state ∧
    after = { after with
      history := before.recordEntry event after.state
      slices := before.recordTicks event after.state }

end Account

/-- Every run can be recorded. -/
theorem exists_account {config : Config} {programs : Nat → Program} {events : List Event}
    {state : State} (trace : Trace (Step config) (startSimulator programs) events state) :
    ∃ account, Trace (Account.Step config) (.start programs) events account ∧
      account.state = state := by
  induction trace with
  | nil => exact ⟨_, .nil, rfl⟩
  | @snoc events event before after _ last ih =>
      obtain ⟨account, trace, rfl⟩ := ih
      let recorded : Account :=
        { state := after
          history := account.recordEntry event after
          slices := account.recordTicks event after }
      exact ⟨recorded, trace.snoc ⟨last, rfl⟩, rfl⟩

theorem trace_of_account {config : Config} {programs : Nat → Program} {events : List Event}
    {account : Account} (trace : Trace (Account.Step config) (.start programs) events account) :
    Trace (Step config) (startSimulator programs) events account.state := by
  induction trace with
  | nil => exact .nil
  | snoc _ last ih => exact ih.snoc last.1

/-! ## Programs -/

section Programs

variable {config : Config} {programs : Nat → Program} {account after : Account} {view : View}
  {waiting : List Nat} {event : Event} {p : Nat}

theorem recordEntry_of_eq {state : State} {q : Nat} {entry' : Entry}
    (adds : entry account.state state event = some (q, entry')) :
    account.recordEntry event state p =
      if p = q then account.history p ++ [entry'] else account.history p := by
  by_cases same : p = q
  · subst same
    simp [Account.recordEntry, adds]
  · simp [Account.recordEntry, adds, same]

theorem recordEntry_of_none {state : State} (nothing : entry account.state state event = none) :
    account.recordEntry event state = account.history := by
  simp [Account.recordEntry, nothing]

section Bursts

variable {state final : State} {cpu : Nat} {op : Op}
  (runs : (state.cpuData cpu).current = some p) (found : (state.pcbs p).op? = some op)

include runs found

theorem entry_of_left (type : op.type = .cpu) (left : op.time > 0)
    (allocated : final.allocated = state.allocated) :
    entry state final (.cpu cpu) = some (p, .tick (state.pcbs p).pc) := by
  simp [entry, runs, found, type, left, allocated]

theorem entry_of_finish (ended : ¬ op.time > 0) (allocated : final.allocated = state.allocated) :
    entry state final (.cpu cpu) = none := by
  simp [entry, runs, found, ended, allocated]

end Bursts

/-- A request that is submitted is recorded as it is queued. -/
theorem entry_of_request {state final : State} {cpu : Nat} {time : UInt32}
    (kept : Kept (submitIoRequest (state.advance p) p time) final) :
    entry state final (.cpu cpu) = some (p, .submitted ((state.pcbs p).pc + 1) time) := by
  have allocated : final.allocated = state.allocated + 1 := by
    rw [kept.rest]
    exact allocated_submitIoRequest ..
  have requests : final.requests = (submitIoRequest (state.advance p) p time).requests := by
    rw [kept.rest]
  have pcb : (final.requests state.allocated).pcb = p := by
    rw [requests, pcb_submitIoRequest]
    exact if_pos rfl
  have executionTime : (final.requests state.allocated).executionTime = time := by
    rw [requests, executionTime_submitIoRequest]
    exact if_pos rfl
  have position : (final.pcbs p).pc = (state.pcbs p).pc + 1 := by
    rw [kept.pcbs, submitIoRequest_rest]
    simp [State.advance, State.modifyPcb]
  rw [entry, if_pos (by omega)]
  simp only [pcb, executionTime, position]

/-- `simulate_io` gives the processes what it records. -/
theorem Located.spent_io {state : State}
    (located : Located config programs account.state view waiting)
    (alternating : ∀ p < config.processCount, Alternating ((programs p).ops.map Op.type))
    (inRange : p < config.processCount)
    (spent : Spent (programs p).ops (account.state.pcbs p) (account.history p))
    (simulates : simulateIo config account.state = some state) :
    Spent (programs p).ops (state.pcbs p) (account.recordEntry .io state p) := by
  refine Spent.kept ?_ (Kept.of_simulateIo simulates)
  cases head : account.state.ioQueueHead with
  | none =>
      have nothing : entry account.state state .io = none := by simp [entry, head]
      rw [recordEntry_of_none nothing]
      simpa [serveHead, head] using spent
  | some completed =>
      by_cases done : (account.state.requests completed).executionTime ≤ 0
      · rw [serveHead_complete head done]
        have adds : entry account.state state .io = some ((account.state.requests completed).pcb,
            .completed (account.state.pcbs (account.state.requests completed).pcb).pc) := by
          simp only [entry, head, Option.bind_eq_bind, Option.bind_some, if_pos done]
        rw [recordEntry_of_eq adds]
        by_cases same : p = (account.state.requests completed).pcb
        · obtain ⟨status, -, operation⟩ := located.afterRequest alternating head
          have position := located.positions.position p inRange
          rw [same, View.role, status] at position
          obtain ⟨op, found, type⟩ := Option.map_eq_some_iff.mp position
          obtain ⟨next, read, kind⟩ := located.advanced
            (show _ = some ProcessState.ready.opType from operation) (same ▸ inRange)
          have block : ((account.state.completeHead completed).pcbs p) =
              { account.state.pcbs p with pc := (account.state.pcbs p).pc + 1 } := by
            simp [State.completeHead, State.modifyPcb, State.tick, same]
          rw [if_pos same, block, ← same]
          rw [← same] at found read
          refine spent.complete found type ?_ kind
          simpa [State.advance, State.modifyPcb, Pcb.op?] using read
        · have block : ((account.state.completeHead completed).pcbs p) =
              account.state.pcbs p := by
            simp [State.completeHead, State.modifyPcb, State.tick, same]
          rw [if_neg same, block]
          exact spent
      · rw [serveHead_tick head done]
        have nothing : entry account.state state .io = none := by
          simp only [entry, head, Option.bind_eq_bind, Option.bind_some, if_neg done]
        rw [recordEntry_of_none nothing]
        exact spent

/-- What `simulate_process` can do with a process that is at an operation of a burst. -/
inductive Processed (config : Config) (state : State) (cpu p : Nat) (op : Op) : State → Prop
  | tick : op.time > 0 → ((state.burn cpu p op).cpuData cpu).preemptionTimer ≠ 0 →
      Processed config state cpu p op (state.burn cpu p op)
  | expire {after : State} {pcblock : Option Nat} : op.time > 0 →
      ((state.burn cpu p op).cpuData cpu).preemptionTimer = 0 →
      Dispatched config cpu (state.burn cpu p op) after pcblock →
      Processed config state cpu p op after
  | request {after : State} {pcblock : Option Nat} {next : Op} : ¬ op.time > 0 →
      (state.pcbs p).ops[(state.pcbs p).pc + 1]? = some next → next.type = .io →
      Dispatched config cpu (submitIoRequest (state.advance p) p (.ofInt next.time)) after pcblock →
      Processed config state cpu p op after
  | finish {after : State} {pcblock : Option Nat} {next : Op} : ¬ op.time > 0 →
      (state.pcbs p).ops[(state.pcbs p).pc + 1]? = some next → next.type = .terminate →
      Dispatched config cpu (state.advance p) after pcblock →
      Processed config state cpu p op after

theorem Located.processed {state final : State} {cpu : Nat}
    (located : Located config programs state view waiting)
    (alternating : ∀ p < config.processCount, Alternating ((programs p).ops.map Op.type))
    (current : view.current cpu = some p)
    (simulates : simulateProcess config state cpu p = some final) :
    ∃ op, (state.pcbs p).op? = some op ∧ op.type = .cpu ∧
      Processed config state cpu p op final := by
  obtain ⟨inRange, -, op, found, type⟩ := located.burst current
  refine ⟨op, found, type, ?_⟩
  by_cases left : op.time > 0
  · rw [simulateProcess_burn found type left] at simulates
    split at simulates
    case isTrue expired =>
      obtain ⟨pcblock, dispatched⟩ := Dispatched.of_dispatch (by decide) simulates
      exact .expire left expired dispatched
    case isFalse running =>
      obtain rfl := Option.some.inj simulates
      exact .tick left running
  · have following : ∀ {next}, ((state.advance p).pcbs p).op? = some next →
        (state.pcbs p).ops[(state.pcbs p).pc + 1]? = some next := by
      intro next read
      simpa [State.advance, State.modifyPcb, Pcb.op?] using read
    rcases located.afterBurst alternating current with request | finish
    · obtain ⟨next, read, kind⟩ := located.advanced
        (show _ = some ProcessState.waiting.opType from request) inRange
      have isIo : next.type = .io := kind
      have dispatches : dispatch config
          (submitIoRequest (state.advance p) p (.ofInt next.time)) cpu .yield = some final := by
        rwa [simulateProcess_advance found type left read, isIo] at simulates
      obtain ⟨pcblock, dispatched⟩ := Dispatched.of_dispatch (by decide) dispatches
      exact .request left (following read) isIo dispatched
    · obtain ⟨next, read, kind⟩ := located.advanced
        (show _ = some ProcessState.terminated.opType from finish) inRange
      have isEnd : next.type = .terminate := kind
      have dispatches : dispatch config (state.advance p) cpu .terminate = some final := by
        rwa [simulateProcess_advance found type left read, isEnd] at simulates
      obtain ⟨pcblock, dispatched⟩ := Dispatched.of_dispatch (by decide) dispatches
      exact .finish left (following read) isEnd dispatched

/-- `simulate_process` gives the processes what it records. -/
theorem Processed.spent {state : State} {cpu q : Nat} {op : Op}
    (processed : Processed config account.state cpu q op state)
    (runs : (account.state.cpuData cpu).current = some q)
    (found : (account.state.pcbs q).op? = some op) (type : op.type = .cpu)
    (spent : Spent (programs p).ops (account.state.pcbs p) (account.history p)) :
    Spent (programs p).ops (state.pcbs p) (account.recordEntry (.cpu cpu) state p) := by
  have burns : op.time > 0 → state.allocated = account.state.allocated →
      Spent (programs p).ops ((account.state.burn cpu q op).pcbs p)
        (account.recordEntry (.cpu cpu) state p) := by
    intro left allocated
    rw [recordEntry_of_eq (entry_of_left runs found type left allocated)]
    by_cases same : p = q
    · subst same
      rw [if_pos rfl]
      simpa [State.burn, State.modifyCpu, State.modifyPcb] using spent.burn found type left
    · rw [if_neg same]
      simpa [State.burn, State.modifyCpu, State.modifyPcb, same] using spent
  have block : (account.state.advance q).pcbs p =
      if p = q then { account.state.pcbs p with pc := (account.state.pcbs p).pc + 1 }
      else account.state.pcbs p := by
    by_cases same : p = q
    · subst same
      simp [State.advance, State.modifyPcb]
    · simp [State.advance, State.modifyPcb, same]
  cases processed with
  | tick left => exact burns left rfl
  | expire left _ dispatched =>
      exact (burns left (by rw [dispatched.kept.rest]; rfl)).kept dispatched.kept
  | request ended following isIo dispatched =>
      refine Spent.kept ?_ dispatched.kept
      rw [recordEntry_of_eq (entry_of_request dispatched.kept), submitIoRequest_rest, block]
      by_cases same : p = q
      · subst same
        rw [if_pos rfl, if_pos rfl]
        exact spent.request found type ended following isIo
      · rwa [if_neg same, if_neg same]
  | finish ended following isEnd dispatched =>
      refine Spent.kept ?_ dispatched.kept
      have allocated : state.allocated = account.state.allocated := by
        rw [dispatched.kept.rest]
        rfl
      rw [recordEntry_of_none (entry_of_finish runs found ended allocated), block]
      by_cases same : p = q
      · subst same
        rw [if_pos rfl]
        exact spent.finish found type ended following isEnd
      · rwa [if_neg same]

/-- An event gives the processes what it records. -/
theorem Located.spent {state : State}
    (located : Located config programs account.state view waiting)
    (alternating : ∀ p < config.processCount, Alternating ((programs p).ops.map Op.type))
    (inRange : p < config.processCount)
    (spent : Spent (programs p).ops (account.state.pcbs p) (account.history p))
    (step : Scheduling.Step config account.state event state) :
    Spent (programs p).ops (state.pcbs p) (account.recordEntry event state p) := by
  obtain ⟨-, simulates⟩ := step
  cases event with
  | creat =>
      rw [recordEntry_of_none rfl]
      simp only [simulate, simulateCreat] at simulates
      split at simulates
      · obtain ⟨woken, wakes, result⟩ := Option.bind_eq_some_iff.mp simulates
        obtain rfl := Option.some.inj result
        exact (spent.kept (Kept.of_wakeUp wakes)).congr rfl rfl
      · obtain rfl := Option.some.inj simulates
        exact spent
  | idle n =>
      rw [recordEntry_of_none rfl]
      have dispatches : dispatch config account.state n .idle = some state := simulates
      obtain ⟨pcblock, dispatched⟩ := Dispatched.of_dispatch (by decide) dispatches
      exact spent.kept dispatched.kept
  | io => exact located.spent_io alternating inRange spent simulates
  | cpu n =>
      have runs : simulateCpu config account.state n = some state := simulates
      rw [simulateCpu, located.shows.mirror] at runs
      cases current : view.current n with
      | none =>
          rw [current] at runs
          obtain rfl := Option.some.inj runs
          have nothing : entry account.state account.state (.cpu n) = none := by
            simp [entry, located.shows.mirror, current]
          rwa [recordEntry_of_none nothing]
      | some q =>
          rw [current] at runs
          obtain ⟨op, found, type, processed⟩ := located.processed alternating current runs
          exact processed.spent ((located.shows.mirror n).trans current) found type spent

private theorem Spent.start {program : Program}
    (alternating : Alternating (program.ops.map Op.type)) : Spent program.ops program.pcb [] := by
  have first := alternating.first
  rw [List.getElem?_map] at first
  obtain ⟨op, present, type⟩ := Option.map_eq_some_iff.mp first
  refine ⟨fun _ _ => rfl, op, op.time, present, present, Int.le_refl _, ?_⟩
  simp [Program.pcb, recorded, Op.begun, type]

private theorem spent_of_trace {events : List Event}
    (alternating : ∀ p < config.processCount, Alternating ((programs p).ops.map Op.type))
    (ranked : (startSimulator programs).Ranked config)
    (trace : Trace (Account.Step config) (.start programs) events account)
    (inRange : p < config.processCount) :
    Spent (programs p).ops (account.state.pcbs p) (account.history p) := by
  induction trace with
  | nil => exact Spent.start (alternating p inRange)
  | snoc trace last ih =>
      obtain ⟨view, waiting, located⟩ :=
        located_of_trace alternating ranked (trace_of_account trace)
      rw [last.2]
      exact located.spent alternating inRange ih last.1

/-- A process that has terminated has been given its program. -/
theorem Spent.terminated {program : List Op} {block : Pcb} {history : List Entry}
    (spent : Spent program block history) (alternating : Alternating (program.map Op.type))
    (ended : block.op?.map Op.type = some .terminate) : history = recorded program := by
  obtain ⟨op, left, present, isCurrent, -, rfl⟩ := spent.current
  have type : op.type = .terminate := by simpa [isCurrent] using ended
  have last : block.pc + 1 = program.length := by
    have ends : (program.map Op.type)[block.pc]? = some .terminate := by simp [present, type]
    simpa using alternating.length_of_terminate ends
  have whole := recorded_take_succ present
  rw [last, List.take_length] at whole
  simp [whole, Op.begun, Op.entries, type]

end Programs

/-! ## Time slices -/

/-- No dispatch of a CPU has used more than its slice, and the timer of a running process has what
is left of it. -/
structure InSlice (timeslice : Int) (data : CpuData) (slices : List Nat) : Prop where
  /-- All dispatches. -/
  bounded : ∀ ticks ∈ slices, (ticks : Int) ≤ timeslice
  /-- The present one. -/
  running : data.current ≠ none → ∃ ticks earlier, slices = ticks :: earlier ∧
    data.preemptionTimer + ticks = timeslice ∧ 0 < data.preemptionTimer

section Slices

variable {config : Config} {programs : Nat → Program} {account after : Account} {view : View}
  {waiting : List Nat} {event : Event} {cpu p : Nat}

theorem InSlice.dispatch {timeslice : Int} {slices : List Nat} {data : CpuData}
    (bounded : ∀ ticks ∈ slices, (ticks : Int) ≤ timeslice) (positive : 1 ≤ timeslice)
    (timer : data.preemptionTimer = timeslice) : InSlice timeslice data (0 :: slices) where
  bounded := by
    intro ticks member
    rcases List.mem_cons.mp member with rfl | member
    · exact Int.le_trans (by decide) positive
    · exact bounded ticks member
  running _ := ⟨0, slices, rfl, by simpa using timer, by omega⟩

private theorem InSlice.tick {timeslice : Int} {slices : List Nat} {data : CpuData}
    (inSlice : InSlice timeslice data slices) (runs : data.current ≠ none) :
    (∀ ticks ∈ Account.countTick slices, (ticks : Int) ≤ timeslice) ∧
      (data.preemptionTimer - 1 ≠ 0 → InSlice timeslice
        { data with preemptionTimer := data.preemptionTimer - 1 } (Account.countTick slices)) := by
  obtain ⟨ticks, earlier, rfl, timer, left⟩ := inSlice.running runs
  have bounded : ∀ ticks' ∈ Account.countTick (ticks :: earlier), (ticks' : Int) ≤ timeslice := by
    intro ticks' member
    rcases List.mem_cons.mp member with rfl | member
    · omega
    · exact inSlice.bounded ticks' (List.mem_cons_of_mem ticks member)
  refine ⟨bounded, fun more => ⟨bounded, fun _ => ⟨ticks + 1, earlier, rfl, ?_, ?_⟩⟩⟩
  · simp only [Int.natCast_add]
    omega
  · simp only
    omega

/-- The CPUs are in their slices. -/
def Account.Sliced (config : Config) (account : Account) : Prop :=
  ∀ cpu, InSlice config.timeslice (account.state.cpuData cpu) (account.slices cpu)

private theorem cpuData_serveHead (state : State) :
    (serveHead state).1.cpuData = state.cpuData := by
  unfold serveHead
  split
  · rfl
  · dsimp only
    split <;> rfl

private theorem Dispatched.contextSwitches_ne {state final : State} {pcblock : Option Nat}
    (dispatched : Dispatched config cpu state final pcblock) :
    final.contextSwitches ≠ state.contextSwitches := by
  rw [dispatched.contextSwitches]
  simp

theorem recordTicks_cpu (account : Account) (final : State) (cpu other : Nat) :
    account.recordTicks (.cpu cpu) final other =
      if other = cpu then
        if final.contextSwitches = account.state.contextSwitches then account.ticks cpu final
        else 0 :: account.ticks cpu final
      else account.slices other := by
  by_cases same : other = cpu
  · subst same
    simp [Account.recordTicks]
  · simp [Account.recordTicks, same]

private theorem Dispatched.sliced {middle final : State} {pcblock : Option Nat}
    (dispatched : Dispatched config cpu middle final pcblock)
    (switches : middle.contextSwitches = account.state.contextSwitches)
    (others : ∀ other, other ≠ cpu → middle.cpuData other = account.state.cpuData other)
    (bounded : ∀ ticks ∈ account.ticks cpu final, (ticks : Int) ≤ config.timeslice)
    (positive : 1 ≤ config.timeslice) (sliced : account.Sliced config) (other : Nat) :
    InSlice config.timeslice (final.cpuData other)
      (account.recordTicks (.cpu cpu) final other) := by
  have switched := dispatched.contextSwitches_ne
  rw [switches] at switched
  rw [recordTicks_cpu, dispatched.cpuData, if_neg switched]
  by_cases here : other = cpu
  · subst here
    rw [if_pos rfl, Function.update_self]
    exact .dispatch bounded positive rfl
  · rw [if_neg here, Function.update_of_ne here, others other here]
    exact sliced other

private theorem Processed.sliced {final : State} {op : Op}
    (processed : Processed config account.state cpu p op final)
    (runs : (account.state.cpuData cpu).current = some p)
    (found : (account.state.pcbs p).op? = some op) (type : op.type = .cpu)
    (positive : 1 ≤ config.timeslice) (sliced : account.Sliced config) (other : Nat) :
    InSlice config.timeslice (final.cpuData other)
      (account.recordTicks (.cpu cpu) final other) := by
  have busy : (account.state.cpuData cpu).current ≠ none := by simp [runs]
  have ticks : op.time > 0 → final.allocated = account.state.allocated →
      account.ticks cpu final = Account.countTick (account.slices cpu) := by
    intro left allocated
    rw [Account.ticks, entry_of_left runs found type left allocated]
  have burnt : ∀ other, other ≠ cpu →
      (account.state.burn cpu p op).cpuData other = account.state.cpuData other := by
    intro other different
    simp [State.burn, State.modifyCpu, State.modifyPcb, different]
  have timer : (account.state.burn cpu p op).cpuData cpu = { account.state.cpuData cpu with
      preemptionTimer := (account.state.cpuData cpu).preemptionTimer - 1 } := by
    simp [State.burn, State.modifyCpu, State.modifyPcb]
  cases processed with
  | tick left more =>
      have unswitched : (account.state.burn cpu p op).contextSwitches =
          account.state.contextSwitches := rfl
      rw [recordTicks_cpu, if_pos unswitched, ticks left rfl]
      by_cases here : other = cpu
      · rw [timer] at more
        rw [here, if_pos rfl, timer]
        exact ((sliced cpu).tick busy).2 more
      · rw [if_neg here, burnt other here]
        exact sliced other
  | expire left expired dispatched =>
      refine dispatched.sliced rfl burnt ?_ positive sliced other
      rw [ticks left (by rw [dispatched.kept.rest]; rfl)]
      exact ((sliced cpu).tick busy).1
  | request ended following isIo dispatched =>
      refine dispatched.sliced ?_ (fun _ _ => ?_) ?_ positive sliced other
      · rw [submitIoRequest_rest]
        rfl
      · rw [submitIoRequest_rest]
        rfl
      · rw [Account.ticks, entry_of_request dispatched.kept]
        exact (sliced cpu).bounded
  | finish ended following isEnd dispatched =>
      refine dispatched.sliced rfl (fun _ _ => rfl) ?_ positive sliced other
      rw [Account.ticks, entry_of_finish runs found ended (by rw [dispatched.kept.rest]; rfl)]
      exact (sliced cpu).bounded

/-- An event keeps the slices when `wake_up` preempts no CPU. -/
theorem Located.sliced (located : Located config programs account.state view waiting)
    (alternating : ∀ p < config.processCount, Alternating ((programs p).ops.map Op.type))
    (dynamic : config.staticPrior = false) (positive : 1 ≤ config.timeslice)
    (sliced : account.Sliced config) (step : Account.Step config account event after) :
    after.Sliced config := by
  obtain ⟨⟨-, simulates⟩, result⟩ := step
  intro cpu
  rw [result]
  have quiet : after.state.cpuData = account.state.cpuData →
      InSlice config.timeslice (after.state.cpuData cpu) (account.slices cpu) := by
    intro same
    rw [same]
    exact sliced cpu
  cases event with
  | creat =>
      refine quiet ?_
      simp only [simulate, simulateCreat] at simulates
      split at simulates
      · obtain ⟨woken, wakes, state⟩ := Option.bind_eq_some_iff.mp simulates
        rw [← Option.some.inj state]
        exact (ProcessesOnly.of_wakeUp dynamic wakes).cpuData
      · rw [← Option.some.inj simulates]
  | io =>
      refine quiet ?_
      have served : simulateIo config account.state = some after.state := simulates
      rw [simulateIo_eq] at served
      rw [← cpuData_serveHead account.state]
      generalize serveHead account.state = reached at served
      obtain ⟨state, _ | p⟩ := reached
      · rw [← Option.some.inj served]
      · exact (ProcessesOnly.of_wakeUp dynamic served).cpuData
  | idle n =>
      have dispatches : dispatch config account.state n .idle = some after.state := simulates
      obtain ⟨pcblock, dispatched⟩ := Dispatched.of_dispatch (by decide) dispatches
      simp only [dispatched.cpuData, Account.recordTicks]
      by_cases same : cpu = n
      · subst same
        rw [Function.update_self, Function.update_self]
        exact .dispatch (sliced cpu).bounded positive rfl
      · rw [Function.update_of_ne same, Function.update_of_ne same]
        exact sliced cpu
  | cpu n =>
      have runs : simulateCpu config account.state n = some after.state := simulates
      rw [simulateCpu] at runs
      cases current : (account.state.cpuData n).current with
      | none =>
          rw [current] at runs
          have same := Option.some.inj runs
          have counts : account.ticks n account.state = account.slices n := by
            simp [Account.ticks, entry, current]
          simp only [← same]
          rw [recordTicks_cpu, if_pos rfl, counts]
          by_cases here : cpu = n
          · rw [if_pos here, ← here]
            exact sliced cpu
          · rw [if_neg here]
            exact sliced cpu
      | some p =>
          rw [current] at runs
          obtain ⟨op, found, type, processed⟩ := located.processed alternating
            ((located.shows.mirror n).symm.trans current) runs
          exact processed.sliced current found type positive sliced cpu

/-- Runs keep the slices when `wake_up` preempts no CPU. -/
theorem sliced_of_trace {events : List Event}
    (alternating : ∀ p < config.processCount, Alternating ((programs p).ops.map Op.type))
    (ranked : (startSimulator programs).Ranked config) (dynamic : config.staticPrior = false)
    (positive : 1 ≤ config.timeslice)
    (trace : Trace (Account.Step config) (.start programs) events account) :
    account.Sliced config := by
  induction trace with
  | nil => exact fun _ => ⟨nofun, fun busy => absurd rfl busy⟩
  | snoc trace last ih =>
      obtain ⟨view, waiting, located⟩ :=
        located_of_trace alternating ranked (trace_of_account trace)
      exact located.sliced alternating dynamic positive ih last

/-- A process that has terminated has used the ticks of its bursts, and its requests were submitted
and completed, all in the order of its program. In round-robin mode no dispatch uses more ticks than
the time slice. -/
theorem processes_get_their_programs {events : List Event}
    (alternating : ∀ p < config.processCount, Alternating ((programs p).ops.map Op.type))
    (ranked : (startSimulator programs).Ranked config)
    (trace : Trace (Account.Step config) (.start programs) events account) :
    (∀ p < config.processCount, (account.state.pcbs p).state = .terminated →
      account.history p = recorded (programs p).ops) ∧
    (config.staticPrior = false → 1 ≤ config.timeslice →
      ∀ cpu, ∀ ticks ∈ account.slices cpu, (ticks : Int) ≤ config.timeslice) := by
  constructor
  · intro p inRange ended
    obtain ⟨view, waiting, located⟩ := located_of_trace alternating ranked (trace_of_account trace)
    have spent := spent_of_trace alternating ranked trace inRange
    refine spent.terminated (alternating p inRange) ?_
    rw [(located.placed inRange).position, ended]
    rfl
  · intro dynamic positive cpu
    exact (sliced_of_trace alternating ranked dynamic positive trace cpu).bounded

/-- A process with bursts of two ticks and one tick and a request of three ticks. -/
def reading (p : Nat) : Program where
  pid := p.toUInt32
  staticPriority := 1
  ops := [⟨.cpu, 2⟩, ⟨.io, 3⟩, ⟨.cpu, 1⟩, ⟨.terminate, 0⟩]

theorem processes_get_their_programs_roundRobin : ∃ events account,
    Trace (Account.Step roundRobin) (.start reading) events account ∧
      (account.state.pcbs 0).state = .terminated ∧ (account.state.pcbs 1).state = .waiting ∧
      account.history 0 = [.tick 0, .tick 0, .submitted 1 3, .completed 1, .tick 2] ∧
      ∀ cpu, ∀ ticks ∈ account.slices cpu, (ticks : Int) ≤ 1 := by
  let events : List Event := [.creat, .creat, .idle 0] ++ List.replicate 6 (.cpu 0) ++
    List.replicate 4 .io ++ [.idle 0, .cpu 0, .cpu 0]
  let state := (events.foldlM (simulateEnabled roundRobin) (startSimulator reading)).get
    (by decide)
  have run : Trace (Step roundRobin) (startSimulator reading) events state :=
    (Trace.of_foldlM (Option.some_get _).symm).mono simulateEnabled_step
  obtain ⟨account, trace, isState⟩ := exists_account run
  have states : (state.pcbs 0).state = .terminated ∧ (state.pcbs 1).state = .waiting := by decide
  rw [← isState] at states
  have alternating : ∀ p < roundRobin.processCount,
      Alternating ((reading p).ops.map Op.type) := fun _ _ => .burst .last
  have ranked : (startSimulator reading).Ranked roundRobin := fun _ _ =>
    ⟨Nat.le_refl 1, Nat.le_add_left 1 9⟩
  obtain ⟨programs, slices⟩ := processes_get_their_programs alternating ranked trace
  exact ⟨events, account, trace, states.1, states.2, programs 0 (by decide) states.1,
    slices rfl (by decide)⟩

end Slices

end CS2200.Scheduling
