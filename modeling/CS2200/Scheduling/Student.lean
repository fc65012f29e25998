import CS2200.Library.LinkedList

/-!
# The scheduler

The data of `os-sim.h` and `os-sim.c`, and the handlers of `student.c`. Every handler runs as one
step together with the part of the simulator's CPU thread that calls it. `none` stands for a failed
assertion, a dereference of `NULL`, a use of an uninitialised variable or a loop without end.
-/

namespace CS2200.Scheduling

open LinkedList

/-! ## Data -/

/-- `process_state_t`. -/
inductive ProcessState where
  | new
  | ready
  | running
  | waiting
  | terminated
  deriving DecidableEq, Repr

/-- `op_type`. -/
inductive OpType where
  | cpu
  | io
  | terminate
  deriving DecidableEq, Repr

/-- `op_t`. -/
structure Op where
  /-- Kind of operation. -/
  type : OpType
  /-- Remaining or requested time. -/
  time : Int
  deriving DecidableEq, Repr

/-- `pcb_t`. The pointer `pc` is kept as the operation array and a position in it. -/
structure Pcb where
  /-- Process identifier. -/
  pid : UInt32
  /-- Static priority. -/
  staticPriority : Nat
  /-- State of the process. -/
  state : ProcessState
  /-- Operation array. -/
  ops : List Op
  /-- Position of the current operation. -/
  pc : Nat
  /-- Link of the ready list. -/
  next : Option Nat
  deriving DecidableEq, Repr

/-- `simulator_cpu_state_t`. -/
inductive CpuState where
  | idle
  | running
  | preempt
  | yield
  | terminate
  deriving DecidableEq, Repr

/-- `simulator_cpu_data_t`. -/
structure CpuData where
  /-- Process that the simulator executes. -/
  current : Option Nat
  /-- State of the CPU thread. -/
  state : CpuState
  /-- Ticks until a preemption. -/
  preemptionTimer : Int
  deriving DecidableEq, Repr

/-- `io_request`. -/
structure IoRequest where
  /-- Requesting process. -/
  pcb : Nat
  /-- Remaining time. -/
  executionTime : UInt32
  /-- Next request of the queue. -/
  next : Option Nat
  deriving DecidableEq, Repr

/-- The parameters of a simulation; `-r` sets `timeslice`, `-p` sets `static_prior`. -/
structure Config where
  /-- `cpu_count`. -/
  cpuCount : Nat
  /-- `PROCESS_COUNT`. -/
  processCount : Nat
  /-- `static_prior`. -/
  staticPrior : Bool
  /-- `timeslice`. -/
  timeslice : Int
  deriving DecidableEq, Repr

/-- The globals of `student.c` and `os-sim.c`. -/
structure State where
  /-- `processes`. -/
  pcbs : Nat → Pcb
  /-- Head of the ready list. -/
  qHead : Option Nat
  /-- `current`. -/
  current : Nat → Option Nat
  /-- `simulator_cpu_data`. -/
  cpuData : Nat → CpuData
  /-- `context_switches`. -/
  contextSwitches : UInt32
  /-- `processes_terminated`. -/
  processesTerminated : UInt32
  /-- `processes_created`. -/
  processesCreated : Nat
  /-- Requests that were allocated. -/
  requests : Nat → IoRequest
  /-- Number of requests allocated so far. -/
  allocated : Nat
  /-- `io_queue_head`. -/
  ioQueueHead : Option Nat
  /-- `io_queue_tail`. -/
  ioQueueTail : Option Nat
  /-- Messages of `simulate_process`. -/
  output : List String

namespace State

/-- The links of the ready list. -/
def next (state : State) (pcb : Nat) : Option Nat := (state.pcbs pcb).next

/-- Change one process control block. -/
def modifyPcb (state : State) (pcb : Nat) (change : Pcb → Pcb) : State :=
  { state with pcbs := Function.update state.pcbs pcb (change (state.pcbs pcb)) }

/-- Set the link of a process control block. -/
def setNext (state : State) (pcb : Nat) (next : Option Nat) : State :=
  state.modifyPcb pcb fun block => { block with next }

/-- Set the state of a process. -/
def setState (state : State) (pcb : Nat) (status : ProcessState) : State :=
  state.modifyPcb pcb fun block => { block with state := status }

/-- Change the data of one CPU. -/
def modifyCpu (state : State) (cpu : Nat) (change : CpuData → CpuData) : State :=
  { state with cpuData := Function.update state.cpuData cpu (change (state.cpuData cpu)) }

end State

/-! ## The ready list -/

/-- `addqueue`. -/
def addqueue (config : Config) (state : State) (pcb : Nat) : Option State :=
  match state.qHead with
  | none => some { state.setNext pcb none with qHead := some pcb }
  | some curr => do
      let state := state.setNext pcb none
      let curr ← lastFrom state.next config.processCount curr
      some (state.setNext curr (some pcb))

/-- `get`. -/
def get (state : State) : State × Option Nat :=
  match state.qHead with
  | none => (state, none)
  | some getone => ({ state with qHead := state.next getone }, some getone)

/-- The body of the first loop of `gethighestone`, which maintains `lvl` and `highestone`. -/
def higher (state : State) (found : Nat × Option Nat) (currentone : Nat) : Nat × Option Nat :=
  if (state.pcbs currentone).staticPriority > found.1 then
    ((state.pcbs currentone).staticPriority, some currentone)
  else found

/-- `gethighestone`. -/
def gethighestone (config : Config) (state : State) : Option (State × Option Nat) :=
  match state.qHead with
  | none => some (state, none)
  | some first =>
      if state.next first = none then some ({ state with qHead := none }, some first)
      else do
        let found ← foldFrom state.next (higher state) config.processCount (some first) (0, none)
        let highestone ← found.2
        if highestone = first then
          some ({ state with qHead := state.next first }, some highestone)
        else
          let currentone ← predecessorFrom state.next highestone config.processCount first
          some (state.setNext currentone (state.next highestone), some highestone)

/-! ## Handlers -/

/-- `context_switch`. -/
def contextSwitch (config : Config) (state : State) (cpu : Nat) (pcb : Option Nat)
    (preemptionTime : Int) : Option State :=
  if cpu < config.cpuCount ∧ pcb.all (fun pcb => pcb < config.processCount) then
    some ({ state with contextSwitches := state.contextSwitches + 1 }.modifyCpu cpu fun data =>
      { data with current := pcb, preemptionTimer := preemptionTime })
  else none

/-- `schedule`. -/
def schedule (config : Config) (state : State) (cpu : Nat) : Option State := do
  let (state, pcblock) ← if config.staticPrior then gethighestone config state else some (get state)
  let state :=
    match pcblock with
    | none => state
    | some pcb => state.setState pcb .running
  let state := { state with current := Function.update state.current cpu pcblock }
  contextSwitch config state cpu pcblock config.timeslice

/-- `preempt`. -/
def preempt (config : Config) (state : State) (cpu : Nat) : Option State := do
  let pcblock ← state.current cpu
  let state ← addqueue config (state.setState pcblock .ready) pcblock
  schedule config state cpu

/-- `yield`. -/
def yield (config : Config) (state : State) (cpu : Nat) : Option State := do
  let pcblock ← state.current cpu
  schedule config (state.setState pcblock .waiting) cpu

/-- `terminate`. -/
def terminate (config : Config) (state : State) (cpu : Nat) : Option State := do
  let pcblock ← state.current cpu
  schedule config (state.setState pcblock .terminated) cpu

/-- Store an event in the state of a CPU. -/
def State.signal (state : State) (cpu : Nat) (event : CpuState) : State :=
  state.modifyCpu cpu fun data => { data with state := event }

/-- Leave a CPU idle or running. -/
def State.settle (state : State) (cpu : Nat) : State :=
  state.modifyCpu cpu fun data =>
    { data with state := if data.current = none then .idle else .running }

/-- One round of `simulator_cpu_thread`: the event is stored in the state of the CPU, its handler
runs, and the CPU is left idle or running. `idle` is called when the ready list is not empty. -/
def dispatch (config : Config) (state : State) (cpu : Nat) (event : CpuState) : Option State := do
  let state := state.signal cpu event
  let state ←
    match event with
    | .idle => schedule config state cpu
    | .preempt => preempt config state cpu
    | .yield => yield config state cpu
    | .terminate =>
        terminate config { state with processesTerminated := state.processesTerminated + 1 } cpu
    | .running => some state
  some (state.settle cpu)

/-- `force_preempt`. -/
def forcePreempt (config : Config) (state : State) (cpu : Nat) : Option State :=
  if cpu < config.cpuCount then
    if (state.cpuData cpu).state = .running then dispatch config state cpu .preempt
    else some state
  else none

/-- The loop of `wake_up` over the CPUs, which maintains `lows` and `stop`. It gives no result when
it finds an idle CPU. -/
def findLows (state : State) : List Nat → Nat × Option Nat → Option (Nat × Option Nat)
  | [], found => some found
  | i :: rest, found =>
      match state.current i with
      | none => none
      | some pcb =>
          if (state.pcbs pcb).staticPriority < found.1 then
            findLows state rest ((state.pcbs pcb).staticPriority, some i)
          else findLows state rest found

/-- `wake_up`. -/
def wakeUp (config : Config) (state : State) (process : Nat) : Option State := do
  let state ← addqueue config (state.setState process .ready) process
  if config.staticPrior then
    match findLows state (List.range config.cpuCount) (10, none) with
    | none => some state
    | some (lows, stop) =>
        if lows < (state.pcbs process).staticPriority then do
          forcePreempt config state (← stop)
        else some state
  else some state

end CS2200.Scheduling
