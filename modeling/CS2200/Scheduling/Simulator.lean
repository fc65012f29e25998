import CS2200.Scheduling.Student

/-!
# The simulator

`simulate_process`, `simulate_io` and `simulate_creat` of `os-sim.c` as events of a transition
system. The supervisor raises them in a fixed order and creates processes at fixed times; here any
order of events is a run.
-/

namespace CS2200.Scheduling

/-- The read-only data of a process. -/
structure Program where
  /-- Process identifier. -/
  pid : UInt32
  /-- Static priority. -/
  staticPriority : Nat
  /-- Operation array. -/
  ops : List Op
  deriving DecidableEq, Repr

/-- The initial process control block of a program, as in the table `processes`. -/
def Program.pcb (program : Program) : Pcb where
  pid := program.pid
  staticPriority := program.staticPriority
  state := .new
  ops := program.ops
  pc := 0
  next := none

/-- The state in which `start_simulator` starts the threads, with `current` initialised. -/
def startSimulator (programs : Nat → Program) : State where
  pcbs p := (programs p).pcb
  qHead := none
  current _ := none
  cpuData _ := { current := none, state := .idle, preemptionTimer := -1 }
  contextSwitches := 0
  processesTerminated := 0
  processesCreated := 0
  requests _ := { pcb := 0, executionTime := 0, next := none }
  allocated := 0
  ioQueueHead := none
  ioQueueTail := none
  output := []

/-- The operation at the position of a process. -/
def Pcb.op? (pcb : Pcb) : Option Op := pcb.ops[pcb.pc]?

/-- `submit_io_request`. -/
def submitIoRequest (state : State) (pcb : Nat) (executionTime : UInt32) : State :=
  let request := state.allocated
  let requests :=
    Function.update state.requests request { pcb, executionTime, next := none }
  match state.ioQueueTail with
  | some tail =>
      { state with
        requests := Function.update requests tail { requests tail with next := some request }
        allocated := request + 1
        ioQueueTail := some request }
  | none =>
      { state with
        requests
        allocated := request + 1
        ioQueueHead := some request
        ioQueueTail := some request }

/-- `simulate_process` for the process that the simulator executes on a CPU. -/
def simulateProcess (config : Config) (state : State) (cpu pcb : Nat) : Option State := do
  let op ← (state.pcbs pcb).op?
  match op.type with
  | .cpu =>
      if op.time > 0 then
        let state := state.modifyPcb pcb fun block =>
          { block with ops := block.ops.set block.pc { op with time := op.time - 1 } }
        let state := state.modifyCpu cpu fun data =>
          { data with preemptionTimer := data.preemptionTimer - 1 }
        if (state.cpuData cpu).preemptionTimer = 0 then dispatch config state cpu .preempt
        else some state
      else
        let state := state.modifyPcb pcb fun block => { block with pc := block.pc + 1 }
        let op ← (state.pcbs pcb).op?
        match op.type with
        | .io => dispatch config (submitIoRequest state pcb (.ofInt op.time)) cpu .yield
        | .terminate => dispatch config state cpu .terminate
        | .cpu => some state
  | .io =>
      some { state with
        output := state.output ++
          ["Scheduled a process that's blocked on I/0! PID: " ++ toString (state.pcbs pcb).pid] }
  | .terminate =>
      some { state with
        output := state.output ++
          ["Scheduled a terminated process! PID: " ++ toString (state.pcbs pcb).pid] }

/-- One iteration of the loop of `simulate_cpus`. -/
def simulateCpu (config : Config) (state : State) (cpu : Nat) : Option State :=
  match (state.cpuData cpu).current with
  | none => some state
  | some pcb => simulateProcess config state cpu pcb

/-- `simulate_io`. -/
def simulateIo (config : Config) (state : State) : Option State :=
  match state.ioQueueHead with
  | none => some state
  | some completed =>
      let request := state.requests completed
      let state :=
        { state with
          requests := Function.update state.requests completed
            { request with executionTime := request.executionTime - 1 } }
      if request.executionTime ≤ 0 then
        let state := state.modifyPcb request.pcb fun block => { block with pc := block.pc + 1 }
        wakeUp config
          { state with
            ioQueueHead := request.next
            ioQueueTail := if request.next = none then none else state.ioQueueTail }
          request.pcb
      else some state

/-- `simulate_creat` at a time when a process may be created. -/
def simulateCreat (config : Config) (state : State) : Option State :=
  if state.processesCreated < config.processCount then do
    let state ← wakeUp config state state.processesCreated
    some { state with processesCreated := state.processesCreated + 1 }
  else some state

/-- What can happen in the simulation. -/
inductive Event where
  /-- The supervisor simulates a CPU. -/
  | cpu (n : Nat)
  /-- The supervisor simulates the I/O device. -/
  | io
  /-- The supervisor creates the next process. -/
  | creat
  /-- An idle CPU finds the ready list not empty. -/
  | idle (n : Nat)
  deriving DecidableEq, Repr

/-- The CPUs of an event exist, and only an idle CPU leaves the loop of `idle`. -/
def Event.Enabled (config : Config) (state : State) : Event → Prop
  | .cpu n => n < config.cpuCount
  | .io | .creat => True
  | .idle n => n < config.cpuCount ∧ (state.cpuData n).state = .idle ∧ state.qHead ≠ none

instance (config : Config) (state : State) : (event : Event) →
    Decidable (event.Enabled config state)
  | .cpu _ => inferInstanceAs (Decidable (_ < _))
  | .io | .creat => inferInstanceAs (Decidable True)
  | .idle _ => inferInstanceAs (Decidable (_ ∧ _ ∧ _))

/-- Simulate one event. -/
def simulate (config : Config) (state : State) : Event → Option State
  | .cpu n => simulateCpu config state n
  | .io => simulateIo config state
  | .creat => simulateCreat config state
  | .idle n => dispatch config state n .idle

end CS2200.Scheduling
