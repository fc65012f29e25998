import CS2200.Scheduling.Accounts
import Mathlib.Algebra.BigOperators.Group.Finset.Basic
import Mathlib.Algebra.GroupWithZero.Nat

/-!
# The work of the simulator

`simulate_process` is called once for every tick of a burst and once more to leave it, `simulate_io`
once for every tick of a request and once more to complete it. What is left of these calls is in the
operation arrays and in the queue of I/O requests, and no event adds to it.
-/

namespace CS2200.Scheduling

open LinkedList

/-! ## Calls that are left -/

/-- Calls of `simulate_process` for a burst. -/
def Op.cpuCalls (op : Op) : Nat := if op.type = .cpu then op.time.toNat + 1 else 0

/-- Calls of `simulate_io` for a request. -/
def Op.ioCalls (op : Op) : Nat :=
  if op.type = .io then (UInt32.ofInt op.time).toNat + 1 else 0

namespace Pcb

/-- Calls of `simulate_process` that a process needs from its current operation on. -/
def cpuCalls (block : Pcb) : Nat := ((block.ops.drop block.pc).map Op.cpuCalls).sum

/-- Calls of `simulate_io` for the requests that a process has not submitted. -/
def ioCalls (block : Pcb) : Nat := ((block.ops.drop (block.pc + 1)).map Op.ioCalls).sum

variable {block : Pcb} {op next : Op}

theorem cpuCalls_eq (found : block.op? = some op) :
    block.cpuCalls = op.cpuCalls + ({ block with pc := block.pc + 1 } : Pcb).cpuCalls := by
  obtain ⟨inside, rfl⟩ := List.getElem?_eq_some_iff.mp found
  rw [cpuCalls, cpuCalls, List.drop_eq_getElem_cons inside, List.map_cons, List.sum_cons]

private theorem ioCalls_eq (read : block.ops[block.pc + 1]? = some next) :
    block.ioCalls = next.ioCalls + ({ block with pc := block.pc + 1 } : Pcb).ioCalls := by
  obtain ⟨inside, rfl⟩ := List.getElem?_eq_some_iff.mp read
  rw [ioCalls, ioCalls, List.drop_eq_getElem_cons inside, List.map_cons, List.sum_cons]

private theorem cpuCalls_burn (found : block.op? = some op) (type : op.type = .cpu)
    (left : op.time > 0) : block.cpuCalls =
      ({ block with ops := block.ops.set block.pc { op with time := op.time - 1 } } : Pcb).cpuCalls
        + 1 := by
  obtain ⟨inside, -⟩ := List.getElem?_eq_some_iff.mp found
  have burnt : ({ block with
      ops := block.ops.set block.pc { op with time := op.time - 1 } } : Pcb).op? =
        some { op with time := op.time - 1 } := by simp [op?, inside]
  have rest : ({ block with
      ops := block.ops.set block.pc { op with time := op.time - 1 }, pc := block.pc + 1 } :
        Pcb).cpuCalls = ({ block with pc := block.pc + 1 } : Pcb).cpuCalls := by
    rw [cpuCalls, cpuCalls, List.drop_set_of_lt (Nat.lt_succ_self _)]
  have less : op.cpuCalls = ({ op with time := op.time - 1 } : Op).cpuCalls + 1 := by
    have positive : op.time.toNat = (op.time - 1).toNat + 1 := by omega
    rw [Op.cpuCalls, Op.cpuCalls, if_pos type, if_pos type, positive]
  rw [cpuCalls_eq found, cpuCalls_eq burnt, rest, less]
  exact Nat.add_right_comm _ _ _

private theorem ioCalls_burn (block : Pcb) (op : Op) :
    ({ block with ops := block.ops.set block.pc op } : Pcb).ioCalls = block.ioCalls := by
  rw [ioCalls, ioCalls, List.drop_set_of_lt (Nat.lt_succ_self _)]

end Pcb

/-- Calls of `simulate_process` that the processes need. -/
def State.cpuCalls (config : Config) (state : State) : Nat :=
  ∑ p ∈ Finset.range config.processCount, (state.pcbs p).cpuCalls

/-- Calls of `simulate_io` that are needed for some requests. -/
def State.queueCalls (state : State) (waiting : List Nat) : Nat :=
  (waiting.map fun request => (state.requests request).executionTime.toNat + 1).sum

/-- Calls of `simulate_io` that the processes and the requests of the queue need. -/
def State.ioCalls (config : Config) (state : State) (waiting : List Nat) : Nat :=
  ∑ p ∈ Finset.range config.processCount, (state.pcbs p).ioCalls + state.queueCalls waiting

/-- Whether an event is a call of `simulate_process`. -/
def Event.cpuCalls (state : State) : Event → Nat
  | .cpu n => if (state.cpuData n).current = none then 0 else 1
  | _ => 0

/-- Whether an event is a call of `simulate_io` with a request in the queue. -/
def Event.ioCalls (state : State) : Event → Nat
  | .io => if state.ioQueueHead = none then 0 else 1
  | _ => 0

section Work

variable {config : Config} {programs : Nat → Program} {state middle after : State} {view : View}
  {waiting : List Nat} {event : Event} {cpu p : Nat} {op : Op}

theorem sum_eq_add {bound amount : Nat} {before after : Nat → Nat} (inRange : p < bound)
    (here : before p = after p + amount) (others : ∀ q, q ≠ p → before q = after q) :
    ∑ q ∈ Finset.range bound, before q = ∑ q ∈ Finset.range bound, after q + amount := by
  have member := Finset.mem_range.mpr inRange
  have same : ∑ q ∈ (Finset.range bound).erase p, before q =
      ∑ q ∈ (Finset.range bound).erase p, after q :=
    Finset.sum_congr rfl fun q inside => others q (Finset.ne_of_mem_erase inside)
  rw [← Finset.add_sum_erase _ before member, ← Finset.add_sum_erase _ after member, same, here]
  exact Nat.add_right_comm _ _ _

namespace Kept

private theorem cpuCalls (kept : Kept state after) (config : Config) :
    after.cpuCalls config = state.cpuCalls config := by
  refine Finset.sum_congr rfl fun p _ => ?_
  rw [kept.pcbs p]
  rfl

private theorem ioCalls (kept : Kept state after) (config : Config) (waiting : List Nat) :
    after.ioCalls config waiting = state.ioCalls config waiting := by
  have requests : after.requests = state.requests := by rw [kept.rest]
  rw [State.ioCalls, State.ioCalls, State.queueCalls, requests]
  refine congrArg (· + _) (Finset.sum_congr rfl fun p _ => ?_)
  rw [kept.pcbs p]
  rfl

private theorem chained (kept : Kept state after) (chained : Chained state waiting) :
    Chained after waiting := by
  refine chained.congr ?_ ?_ ?_ ?_
  · funext request
    rw [State.nextRequest, kept.rest]
    rfl
  all_goals rw [kept.rest]

end Kept

/-- An event does some of the work that was left. -/
structure Works (config : Config) (state : State) (waiting : List Nat) (after : State)
    (cpuDone ioDone : Nat) : Prop where
  /-- Calls of `simulate_process`. -/
  cpu : state.cpuCalls config = after.cpuCalls config + cpuDone
  /-- Calls of `simulate_io`. -/
  io : ∃ rest, Chained after rest ∧
    state.ioCalls config waiting = after.ioCalls config rest + ioDone

namespace Works

variable {cpuDone ioDone : Nat}

theorem refl (chained : Chained state waiting) : Works config state waiting state 0 0 :=
  ⟨rfl, waiting, chained, rfl⟩

theorem kept (works : Works config state waiting middle cpuDone ioDone)
    (kept : Kept middle after) : Works config state waiting after cpuDone ioDone := by
  obtain ⟨cpu, rest, chained, io⟩ := works
  exact ⟨by rw [cpu, kept.cpuCalls], rest, kept.chained chained, by rw [io, kept.ioCalls]⟩

end Works

/-! ## Calls for a process -/

/-- Updates of the process and of the CPU data do not touch the queue. -/
theorem chained_advance (chained : Chained state waiting) (p : Nat) :
    Chained (state.advance p) waiting :=
  chained.congr rfl rfl rfl rfl

private theorem queueCalls_advance (state : State) (p : Nat) (waiting : List Nat) :
    (state.advance p).queueCalls waiting = state.queueCalls waiting := rfl

theorem pcbs_advance (state : State) (p q : Nat) :
    (state.advance p).pcbs q = if q = p then { state.pcbs p with pc := (state.pcbs p).pc + 1 }
      else state.pcbs q := by
  by_cases same : q = p
  · subst same
    simp [State.advance, State.modifyPcb]
  · simp [State.advance, State.modifyPcb, same]

theorem cpuCalls_advance (inRange : p < config.processCount)
    (found : (state.pcbs p).op? = some op) :
    state.cpuCalls config = (state.advance p).cpuCalls config + op.cpuCalls := by
  refine sum_eq_add inRange ?_ fun q different => ?_
  · rw [pcbs_advance, if_pos rfl, Pcb.cpuCalls_eq found, Nat.add_comm]
  · rw [pcbs_advance, if_neg different]

theorem ioCalls_advance {next : Op} (inRange : p < config.processCount)
    (read : (state.pcbs p).ops[(state.pcbs p).pc + 1]? = some next) :
    ∑ q ∈ Finset.range config.processCount, (state.pcbs q).ioCalls =
      ∑ q ∈ Finset.range config.processCount, ((state.advance p).pcbs q).ioCalls +
        next.ioCalls := by
  refine sum_eq_add inRange ?_ fun q different => ?_
  · rw [pcbs_advance, if_pos rfl, Pcb.ioCalls_eq read, Nat.add_comm]
  · rw [pcbs_advance, if_neg different]

private theorem queueCalls_submit (chained : Chained state waiting) (p : Nat) (time : UInt32) :
    (submitIoRequest state p time).queueCalls (waiting ++ [state.allocated]) =
      state.queueCalls waiting + (time.toNat + 1) := by
  have earlier : ∀ request ∈ waiting,
      ((submitIoRequest state p time).requests request).executionTime.toNat + 1 =
        (state.requests request).executionTime.toNat + 1 := by
    intro request member
    rw [executionTime_submitIoRequest, if_neg (ne_of_mem_of_not_mem member chained.fresh)]
  rw [State.queueCalls, List.map_append, List.sum_append, List.map_congr_left earlier]
  simp [State.queueCalls, executionTime_submitIoRequest]

private theorem Processed.works (processed : Processed config state cpu p op after)
    (inRange : p < config.processCount) (found : (state.pcbs p).op? = some op)
    (type : op.type = .cpu) (chained : Chained state waiting) :
    Works config state waiting after 1 0 := by
  have block : ∀ q, (state.burn cpu p op).pcbs q = if q = p then { state.pcbs p with
      ops := (state.pcbs p).ops.set (state.pcbs p).pc { op with time := op.time - 1 } }
        else state.pcbs q := by
    intro q
    by_cases same : q = p
    · subst same
      simp [State.burn, State.modifyCpu, State.modifyPcb]
    · simp [State.burn, State.modifyCpu, State.modifyPcb, same]
  have burns : op.time > 0 → Works config state waiting (state.burn cpu p op) 1 0 := by
    intro left
    refine ⟨?_, waiting, chained.congr rfl rfl rfl rfl, ?_⟩
    · refine sum_eq_add inRange ?_ fun q different => ?_
      · rw [block, if_pos rfl, ← Pcb.cpuCalls_burn found type left]
      · rw [block, if_neg different]
    · refine congrArg (· + _) (Finset.sum_congr rfl fun q _ => ?_)
      rw [block]
      split
      case isTrue same => rw [same, Pcb.ioCalls_burn]
      case isFalse => rfl
  have leaves : ¬ op.time > 0 → state.cpuCalls config = (state.advance p).cpuCalls config + 1 := by
    intro ended
    have nothing : op.time.toNat = 0 := Int.toNat_of_nonpos (Int.not_lt.mp ended)
    rw [cpuCalls_advance inRange found, Op.cpuCalls, if_pos type, nothing]
  cases processed with
  | tick left => exact burns left
  | expire left _ dispatched => exact (burns left).kept dispatched.kept
  | @request _ _ next ended following isIo dispatched =>
      refine Works.kept ?_ dispatched.kept
      have moved := chained_advance chained p
      have pcbs : (submitIoRequest (state.advance p) p (.ofInt next.time)).pcbs =
          (state.advance p).pcbs := by rw [submitIoRequest_rest]
      refine ⟨?_, waiting ++ [(state.advance p).allocated], moved.submit p _, ?_⟩
      · rw [leaves ended, State.cpuCalls, State.cpuCalls, pcbs]
      · rw [State.ioCalls, State.ioCalls, queueCalls_submit moved, pcbs,
          ioCalls_advance inRange following, Op.ioCalls, if_pos isIo, queueCalls_advance]
        omega
  | @finish _ _ next ended following isEnd dispatched =>
      refine Works.kept ⟨leaves ended, waiting, chained_advance chained p, ?_⟩ dispatched.kept
      have notIo : next.type ≠ .io := by simp [isEnd]
      rw [State.ioCalls, State.ioCalls, ioCalls_advance inRange following, Op.ioCalls,
        if_neg notIo, queueCalls_advance]
      rfl

/-! ## Calls for the queue -/

/-- Every call of `simulate_io` with a request in the queue is needed. -/
theorem Located.works_io (located : Located config programs state view waiting)
    (alternating : ∀ p < config.processCount, Alternating ((programs p).ops.map Op.type)) :
    Works config state waiting (serveHead state).1 0 (Event.ioCalls state .io) := by
  have chained := located.queued.chained
  cases waiting with
  | nil =>
      have empty : state.ioQueueHead = none := chained.queue
      rw [Event.ioCalls, if_pos empty, serveHead, empty]
      exact .refl chained
  | cons completed waiting =>
      have head : state.ioQueueHead = some completed := chained.queue.1
      have full : state.ioQueueHead ≠ none := by simp [head]
      have others : ∀ request ∈ waiting,
          ((state.tick completed).requests request).executionTime.toNat + 1 =
            (state.requests request).executionTime.toNat + 1 := by
        intro request member
        have different := ne_of_mem_of_not_mem member (List.nodup_cons.mp chained.queue.nodup).1
        rw [executionTime_tick_of_ne different]
      rw [Event.ioCalls, if_neg full]
      by_cases done : (state.requests completed).executionTime ≤ 0
      · have zero : (state.requests completed).executionTime.toNat = 0 := by
          simpa [UInt32.le_iff_toNat_le] using done
        obtain ⟨status, inRange, operation⟩ := located.afterRequest alternating head
        have position := located.positions.position _ inRange
        rw [View.role, status] at position
        obtain ⟨op, found, isIo⟩ := Option.map_eq_some_iff.mp position
        obtain ⟨next, read, isCpu⟩ := located.advanced
          (show _ = some ProcessState.ready.opType from operation) inRange
        have following : (state.pcbs (state.requests completed).pcb).ops[
            (state.pcbs (state.requests completed).pcb).pc + 1]? = some next := by
          simpa [pcbs_advance, Pcb.op?] using read
        have noBurst : op.cpuCalls = 0 :=
          if_neg (by simp [isIo, ProcessState.role, ProcessState.opType])
        have noRequest : next.ioCalls = 0 := if_neg (by simp [isCpu, ProcessState.opType])
        rw [serveHead_complete head done]
        refine ⟨?_, waiting, ?_, ?_⟩
        · rw [cpuCalls_advance inRange found, noBurst]
          rfl
        · exact chained.complete.congr (nextRequest_tick state completed) rfl rfl rfl
        · have left : (state.completeHead completed).queueCalls waiting =
              state.queueCalls waiting := congrArg List.sum (List.map_congr_left others)
          have first : state.queueCalls (completed :: waiting) =
              state.queueCalls waiting + 1 := by
            rw [State.queueCalls, List.map_cons, List.sum_cons, zero, State.queueCalls]
            exact Nat.add_comm _ _
          rw [State.ioCalls, State.ioCalls, ioCalls_advance inRange following, noRequest, first,
            left]
          rfl
      · rw [serveHead_tick head done]
        refine ⟨rfl, completed :: waiting, ?_, ?_⟩
        · exact chained.congr (nextRequest_tick state completed) rfl rfl rfl
        · have left : state.queueCalls (completed :: waiting) =
              (state.tick completed).queueCalls (completed :: waiting) + 1 := by
            rw [State.queueCalls, State.queueCalls, List.map_cons, List.map_cons, List.sum_cons,
              List.sum_cons, List.map_congr_left others, ← executionTime_tick done]
            exact Nat.add_right_comm _ _ _
          rw [State.ioCalls, left]
          rfl

/-! ## Calls in runs -/

/-- Every event does the work that it is. -/
theorem Located.works (located : Located config programs state view waiting)
    (alternating : ∀ p < config.processCount, Alternating ((programs p).ops.map Op.type))
    (step : Step config state event after) :
    Works config state waiting after (event.cpuCalls state) (event.ioCalls state) := by
  obtain ⟨-, simulates⟩ := step
  have nothing := @Works.refl config _ _ located.queued.chained
  cases event with
  | creat =>
      simp only [simulate, simulateCreat] at simulates
      split at simulates
      · obtain ⟨woken, wakes, result⟩ := Option.bind_eq_some_iff.mp simulates
        obtain rfl := Option.some.inj result
        obtain ⟨cpu, rest, chained, io⟩ := nothing.kept (Kept.of_wakeUp wakes)
        exact ⟨cpu, rest, chained.congr rfl rfl rfl rfl, io⟩
      · obtain rfl := Option.some.inj simulates
        exact nothing
  | idle n =>
      have dispatches : dispatch config state n .idle = some after := simulates
      obtain ⟨pcblock, dispatched⟩ := Dispatched.of_dispatch (by decide) dispatches
      exact nothing.kept dispatched.kept
  | io => exact (located.works_io alternating).kept (Kept.of_simulateIo simulates)
  | cpu n =>
      have runs : simulateCpu config state n = some after := simulates
      rw [simulateCpu] at runs
      cases current : (state.cpuData n).current with
      | none =>
          rw [current] at runs
          obtain rfl := Option.some.inj runs
          rw [Event.cpuCalls, if_pos current]
          exact nothing
      | some p =>
          rw [current] at runs
          have shown := (located.shows.mirror n).symm.trans current
          obtain ⟨op, found, type, processed⟩ := located.processed alternating shown runs
          have busy : (state.cpuData n).current ≠ none := by simp [current]
          rw [Event.cpuCalls, if_neg busy]
          exact processed.works (located.burst shown).1 found type located.queued.chained

/-! ## Complete runs -/

/-- A run of the simulation. -/
def Reached (config : Config) (programs : Nat → Program) (state : State) : Prop :=
  ∃ events, Trace (Step config) (startSimulator programs) events state

/-- A run of the simulation with the numbers of calls that it makes. -/
inductive Worked (config : Config) (programs : Nat → Program) : Nat → Nat → State → Prop
  | start : Worked config programs 0 0 (startSimulator programs)
  | step {cpuDone ioDone : Nat} {before after : State} {event : Event} :
      Worked config programs cpuDone ioDone before → Step config before event after →
      Worked config programs (cpuDone + event.cpuCalls before) (ioDone + event.ioCalls before) after

/-- Calls of `simulate_process` for whole programs. -/
def cpuCalls (config : Config) (programs : Nat → Program) : Nat :=
  ∑ p ∈ Finset.range config.processCount, ((programs p).ops.map Op.cpuCalls).sum

/-- Calls of `simulate_io` for whole programs. -/
def ioCalls (config : Config) (programs : Nat → Program) : Nat :=
  ∑ p ∈ Finset.range config.processCount, ((programs p).ops.map Op.ioCalls).sum

theorem Worked.reached {cpuDone ioDone : Nat} (run : Worked config programs cpuDone ioDone state) :
    Reached config programs state := by
  induction run with
  | start => exact ⟨[], .nil⟩
  | step _ last ih =>
      obtain ⟨events, trace⟩ := ih
      exact ⟨_, trace.snoc last⟩

/-- The calls of every run can be counted. -/
theorem exists_worked {events : List Event}
    (trace : Trace (Step config) (startSimulator programs) events state) :
    ∃ cpuDone ioDone, Worked config programs cpuDone ioDone state := by
  induction trace with
  | nil => exact ⟨0, 0, .start⟩
  | snoc _ last ih =>
      obtain ⟨cpuDone, ioDone, run⟩ := ih
      exact ⟨_, _, run.step last⟩

section Runs

variable
  (alternating : ∀ p < config.processCount, Alternating ((programs p).ops.map Op.type))
  (ranked : (startSimulator programs).Ranked config)

include alternating

theorem ioCalls_start :
    (startSimulator programs).ioCalls config [] = ioCalls config programs := by
  rw [State.ioCalls, State.queueCalls, List.map_nil, List.sum_nil, Nat.add_zero]
  refine Finset.sum_congr rfl fun p member => ?_
  have first := (alternating p (Finset.mem_range.mp member)).first
  rw [List.getElem?_map] at first
  obtain ⟨op, present, isCpu⟩ := Option.map_eq_some_iff.mp first
  cases ops : (programs p).ops with
  | nil => simp [ops] at present
  | cons head rest =>
      obtain rfl : head = op := by simpa [ops] using present
      simp [startSimulator, Program.pcb, Pcb.ioCalls, ops, Op.ioCalls, isCpu]

private theorem Located.finished (located : Located config programs state view waiting)
    (inRange : p < config.processCount) (ended : (state.pcbs p).state = .terminated) :
    (state.pcbs p).cpuCalls = 0 ∧ (state.pcbs p).ioCalls = 0 := by
  have position := (located.placed inRange).position
  rw [ended] at position
  obtain ⟨op, found, isEnd⟩ := Option.map_eq_some_iff.mp position
  have last : (state.pcbs p).pc + 1 = (state.pcbs p).ops.length := by
    have types := located.positions.types_at p
    rw [position] at types
    have length := (alternating p inRange).length_of_terminate types
    rwa [← located.positions.types, List.length_map] at length
  have nothing : (state.pcbs p).ops.drop ((state.pcbs p).pc + 1) = [] :=
    List.drop_of_length_le (Nat.le_of_eq last.symm)
  have noBurst : op.cpuCalls = 0 := if_neg (by simp [isEnd, ProcessState.opType])
  constructor
  · rw [Pcb.cpuCalls_eq found, noBurst, Pcb.cpuCalls, nothing]
    rfl
  · rw [Pcb.ioCalls, nothing]
    rfl

include ranked

theorem Reached.located (reached : Reached config programs state) :
    ∃ view waiting, Located config programs state view waiting := by
  obtain ⟨events, trace⟩ := reached
  exact located_of_trace alternating ranked trace

theorem Reached.works (reached : Reached config programs state) (chained : Chained state waiting)
    (step : Step config state event after) :
    Works config state waiting after (event.cpuCalls state) (event.ioCalls state) := by
  obtain ⟨view, requests, located⟩ := reached.located alternating ranked
  obtain rfl := chained.queue.unique located.queued.queue
  exact located.works alternating step

/-- What is done and what is left are the programs. -/
theorem Worked.left {cpuDone ioDone : Nat} (run : Worked config programs cpuDone ioDone state) :
    cpuDone + state.cpuCalls config = cpuCalls config programs ∧
      ∃ waiting, Chained state waiting ∧
        ioDone + state.ioCalls config waiting = ioCalls config programs := by
  induction run with
  | start =>
      refine ⟨Nat.zero_add _, [], ⟨rfl, rfl, by simp⟩, ?_⟩
      rw [Nat.zero_add, ioCalls_start alternating]
  | @step cpuDone ioDone before after event earlier last ih =>
      obtain ⟨cpu, waiting, chained, io⟩ := ih
      obtain ⟨cpuLess, rest, chainedRest, ioLess⟩ :=
        earlier.reached.works alternating ranked chained last
      exact ⟨by omega, rest, chainedRest, by omega⟩

/-- In every run `simulate_process` is called for running processes at most once for every tick of
the bursts and once for the end of each, and `simulate_io` likewise for the requests. When all
processes have terminated, these are the exact numbers. -/
theorem calls_exact {cpuDone ioDone : Nat} (run : Worked config programs cpuDone ioDone state) :
    cpuDone ≤ cpuCalls config programs ∧ ioDone ≤ ioCalls config programs ∧
      ((∀ p < config.processCount, (state.pcbs p).state = .terminated) →
        cpuDone = cpuCalls config programs ∧ ioDone = ioCalls config programs) := by
  obtain ⟨cpu, waiting, chained, io⟩ := run.left alternating ranked
  refine ⟨by omega, by omega, fun ended => ?_⟩
  obtain ⟨view, requests, located⟩ := run.reached.located alternating ranked
  obtain rfl := chained.queue.unique located.queued.queue
  have empty : waiting = [] := by
    rcases waiting with _ | ⟨request, rest⟩
    · rfl
    have waits := (located.queued.waits (state.requests request).pcb).mp List.mem_cons_self
    have status := ProcessState.role_eq_waiting.mp waits
    have inRange : (state.requests request).pcb < config.processCount :=
      located.wellFormed.processes (by simp [status])
    rw [← located.shows.status, ended _ inRange] at status
    cases status
  have noCpu : state.cpuCalls config = 0 := Finset.sum_eq_zero fun p member =>
    (located.finished alternating (Finset.mem_range.mp member)
      (ended p (Finset.mem_range.mp member))).1
  have noIo : state.ioCalls config waiting = 0 := by
    rw [State.ioCalls, empty, State.queueCalls, List.map_nil, List.sum_nil, Nat.add_zero]
    exact Finset.sum_eq_zero fun p member => (located.finished alternating
      (Finset.mem_range.mp member) (ended p (Finset.mem_range.mp member))).2
  omega

end Runs

theorem calls_exact_roundRobin : ∃ cpuDone ioDone state,
    Worked roundRobin requesting cpuDone ioDone state ∧ cpuDone = 6 ∧ ioDone = 2 := by
  let events : List Event :=
    [.creat, .idle 0, .cpu 0, .cpu 0, .io, .creat, .idle 0, .cpu 0, .cpu 0, .cpu 0, .io, .cpu 0,
      .idle 0, .cpu 0]
  let state := (events.foldlM (simulateEnabled roundRobin) (startSimulator requesting)).get
    (by decide)
  have trace : Trace (Step roundRobin) (startSimulator requesting) events state :=
    (Trace.of_foldlM (Option.some_get _).symm).mono simulateEnabled_step
  have ended : ∀ p < roundRobin.processCount, (state.pcbs p).state = .terminated := by decide
  have alternating : ∀ p < roundRobin.processCount,
      Alternating ((requesting p).ops.map Op.type) := fun _ _ => .burst .last
  have ranked : (startSimulator requesting).Ranked roundRobin := fun _ _ =>
    ⟨Nat.le_refl 1, Nat.le_add_left 1 9⟩
  obtain ⟨cpuDone, ioDone, run⟩ := exists_worked trace
  exact ⟨cpuDone, ioDone, state, run, (calls_exact alternating ranked run).2.2 ended⟩

end Work

end CS2200.Scheduling
