import CS2200.Library.Trace
import CS2200.Scheduling.Frames
import Mathlib.Data.List.Range

/-!
# The queue of I/O requests

`submit_io_request` appends a request and `simulate_io` serves the first one. A record beside the
state keeps what was submitted, how often `simulate_io` was called and since when the first request
is the first; handlers may run between the calls. Requests are served in the order of their
submission, each for one call more than its time.
-/

namespace CS2200.Scheduling

open LinkedList

/-! ## The chain of requests -/

/-- The links of the queue of I/O requests. -/
def State.nextRequest (state : State) (request : Nat) : Option Nat := (state.requests request).next

/-- Both ends of the queue belong to a list of requests that were allocated. -/
structure Chained (state : State) (waiting : List Nat) : Prop where
  /-- The links of the queue. -/
  queue : IsList state.nextRequest state.ioQueueHead waiting
  /-- The end of the queue. -/
  tail : state.ioQueueTail = waiting.getLast?
  /-- Requests of the queue were allocated. -/
  allocated : ∀ request ∈ waiting, request < state.allocated

section Submission

variable (state : State) (p : Nat) (time : UInt32)

theorem submitIoRequest_rest :
    submitIoRequest state p time =
      { state with
        requests := (submitIoRequest state p time).requests
        allocated := (submitIoRequest state p time).allocated
        ioQueueHead := (submitIoRequest state p time).ioQueueHead
        ioQueueTail := (submitIoRequest state p time).ioQueueTail } := by
  unfold submitIoRequest
  split <;> rfl

theorem allocated_submitIoRequest :
    (submitIoRequest state p time).allocated = state.allocated + 1 := by
  unfold submitIoRequest
  split <;> rfl

theorem pcb_submitIoRequest (request : Nat) :
    ((submitIoRequest state p time).requests request).pcb =
      if request = state.allocated then p else (state.requests request).pcb := by
  cases tail : state.ioQueueTail with
  | none => by_cases new : request = state.allocated <;> simp [submitIoRequest, tail, new]
  | some last =>
      by_cases atEnd : request = last <;> by_cases new : request = state.allocated <;>
        simp_all [submitIoRequest]

theorem executionTime_submitIoRequest (request : Nat) :
    ((submitIoRequest state p time).requests request).executionTime =
      if request = state.allocated then time else (state.requests request).executionTime := by
  cases tail : state.ioQueueTail with
  | none => by_cases new : request = state.allocated <;> simp [submitIoRequest, tail, new]
  | some last =>
      by_cases atEnd : request = last <;> by_cases new : request = state.allocated <;>
        simp_all [submitIoRequest]

theorem ioQueueHead_submitIoRequest :
    (submitIoRequest state p time).ioQueueHead =
      if state.ioQueueTail = none then some state.allocated else state.ioQueueHead := by
  unfold submitIoRequest
  split <;> simp_all

end Submission

namespace Chained

variable {state after : State} {waiting : List Nat} {completed : Nat}

theorem congr (chained : Chained state waiting) (links : after.nextRequest = state.nextRequest)
    (head : after.ioQueueHead = state.ioQueueHead) (tail : after.ioQueueTail = state.ioQueueTail)
    (allocated : after.allocated = state.allocated) : Chained after waiting where
  queue := by rw [links, head]; exact chained.queue
  tail := tail.trans chained.tail
  allocated := by rw [allocated]; exact chained.allocated

theorem fresh (chained : Chained state waiting) : state.allocated ∉ waiting := fun member =>
  Nat.lt_irrefl _ (chained.allocated _ member)

private theorem ends (chained : Chained state waiting) :
    state.ioQueueHead = none ↔ state.ioQueueTail = none := by
  rw [chained.tail, List.getLast?_eq_none_iff]
  exact chained.queue.head_eq_none_iff

theorem submit (chained : Chained state waiting) (p : Nat) (time : UInt32) :
    Chained (submitIoRequest state p time) (waiting ++ [state.allocated]) := by
  have tail := chained.tail
  refine ⟨?_, ?_, fun request member => ?_⟩
  · obtain rfl | ⟨earlier, last, rfl⟩ := List.eq_nil_or_concat' waiting
    · have empty : state.ioQueueTail = none := tail
      simp [submitIoRequest, empty, IsList, State.nextRequest]
    · have full : state.ioQueueTail = some last := by simpa using tail
      have ended := chained.queue.update_of_notMem chained.fresh none
      have links : (submitIoRequest state p time).nextRequest = Function.update
          (Function.update state.nextRequest state.allocated none) last (some state.allocated) := by
        funext request
        by_cases atEnd : request = last
        · simp [submitIoRequest, full, State.nextRequest, atEnd]
        · obtain rfl | new := eq_or_ne request state.allocated
          · simp [submitIoRequest, full, State.nextRequest, atEnd]
          · simp [submitIoRequest, full, State.nextRequest, atEnd, new]
      have head : (submitIoRequest state p time).ioQueueHead = state.ioQueueHead := by
        simp [submitIoRequest, full]
      rw [links, List.append_assoc, head]
      exact ended.snoc chained.fresh (Function.update_self _ _ _)
  · rw [List.getLast?_concat]
    unfold submitIoRequest
    split <;> rfl
  · rw [allocated_submitIoRequest]
    rcases List.mem_append.mp member with member | single
    · exact Nat.lt_succ_of_lt (chained.allocated request member)
    · exact List.mem_singleton.mp single ▸ Nat.lt_succ_self _

theorem complete (chained : Chained state (completed :: waiting)) :
    Chained
      { state with
        ioQueueHead := (state.requests completed).next
        ioQueueTail := if (state.requests completed).next = none then none else state.ioQueueTail }
      waiting := by
  have rest : IsList state.nextRequest (state.requests completed).next waiting := chained.queue.2
  refine ⟨rest, ?_, fun request member => chained.allocated request (List.mem_cons_of_mem _ member)⟩
  cases waiting with
  | nil => simp [rest.head_eq_none_iff.mpr]
  | cons second waiting =>
      have more : (state.requests completed).next ≠ none := by simp [rest.1]
      simpa [more] using chained.tail

end Chained

/-! ## Serving the first request -/

/-- `simulate_io` up to the call of `wake_up`, with the process that it is called with. -/
def serveHead (state : State) : State × Option Nat :=
  match state.ioQueueHead with
  | none => (state, none)
  | some completed =>
      let request := state.requests completed
      let state :=
        { state with
          requests := Function.update state.requests completed
            { request with executionTime := request.executionTime - 1 } }
      if request.executionTime ≤ 0 then
        let state := state.modifyPcb request.pcb fun block => { block with pc := block.pc + 1 }
        ({ state with
            ioQueueHead := request.next
            ioQueueTail := if request.next = none then none else state.ioQueueTail },
          some request.pcb)
      else (state, none)

section ServeHead

variable {state : State} {completed : Nat}

/-- Time passes for a request. -/
def State.tick (state : State) (completed : Nat) : State :=
  let request := state.requests completed
  { state with
    requests := Function.update state.requests completed
      { request with executionTime := request.executionTime - 1 } }

theorem serveHead_tick (head : state.ioQueueHead = some completed)
    (busy : ¬ (state.requests completed).executionTime ≤ 0) :
    serveHead state = (state.tick completed, none) := by
  simp only [serveHead, head, if_neg busy]
  rw [State.tick, head]

theorem nextRequest_tick (state : State) (completed : Nat) :
    (state.tick completed).nextRequest = state.nextRequest := by
  funext request
  by_cases same : request = completed <;> simp [State.nextRequest, State.tick, same]

theorem pcb_tick (state : State) (completed request : Nat) :
    ((state.tick completed).requests request).pcb = (state.requests request).pcb := by
  by_cases same : request = completed <;> simp [State.tick, same]

theorem executionTime_tick_of_ne {request : Nat} (other : request ≠ completed) :
    ((state.tick completed).requests request).executionTime =
      (state.requests request).executionTime := by
  simp [State.tick, other]

theorem executionTime_tick (busy : ¬ (state.requests completed).executionTime ≤ 0) :
    ((state.tick completed).requests completed).executionTime.toNat + 1 =
      (state.requests completed).executionTime.toNat := by
  have positive : 0 < (state.requests completed).executionTime.toNat := by
    simpa [UInt32.le_iff_toNat_le, Nat.pos_iff_ne_zero] using busy
  have one : (1 : UInt32) ≤ (state.requests completed).executionTime :=
    UInt32.le_iff_toNat_le.mpr positive
  have left : (state.requests completed).executionTime - 1 =
      ((state.tick completed).requests completed).executionTime := by simp [State.tick]
  rw [← left, UInt32.toNat_sub_of_le _ _ one]
  exact Nat.sub_add_cancel positive

/-- The state after the first request is completed. -/
def State.completeHead (state : State) (completed : Nat) : State :=
  let request := state.requests completed
  let state := (state.tick completed).modifyPcb request.pcb fun block =>
    { block with pc := block.pc + 1 }
  { state with
    ioQueueHead := request.next
    ioQueueTail := if request.next = none then none else state.ioQueueTail }

theorem serveHead_complete (head : state.ioQueueHead = some completed)
    (done : (state.requests completed).executionTime ≤ 0) :
    serveHead state = (state.completeHead completed, some (state.requests completed).pcb) := by
  simp only [serveHead, head, if_pos done]
  rw [State.completeHead, State.tick, head]

end ServeHead

theorem simulateIo_eq (config : Config) (state : State) : simulateIo config state =
    match serveHead state with
    | (served, none) => some served
    | (served, some pcb) => wakeUp config served pcb := by
  unfold simulateIo serveHead
  cases head : state.ioQueueHead with
  | none => rfl
  | some completed =>
      by_cases done : (state.requests completed).executionTime ≤ 0
      · simp only [if_pos done]
      · simp only [if_neg done]

/-- What `wake_up` does after the request is removed. -/
theorem Kept.of_simulateIo {config : Config} {state after : State}
    (simulates : simulateIo config state = some after) : Kept (serveHead state).1 after := by
  rw [simulateIo_eq] at simulates
  generalize serveHead state = result at simulates
  obtain ⟨served, _ | pcb⟩ := result
  · obtain rfl := Option.some.inj simulates
    exact .refl served
  · exact .of_wakeUp simulates

/-! ## The record of the requests -/

/-- What is asked of the I/O device. -/
structure Job where
  /-- Requesting process. -/
  pcb : Nat
  /-- Requested time. -/
  executionTime : UInt32
  deriving DecidableEq, Repr

/-- How a request was completed. -/
structure Completion where
  /-- The request, numbered by its submission. -/
  request : Nat
  /-- Calls of `simulate_io` when the request became the first. -/
  since : Nat
  /-- Calls of `simulate_io` when it was completed. -/
  finished : Nat
  /-- The process with which `wake_up` was called. -/
  woken : Nat
  deriving DecidableEq, Repr

/-- The globals with a record of the calls. -/
structure Service where
  /-- The globals. -/
  state : State
  /-- Calls of `simulate_io`. -/
  calls : Nat
  /-- Calls of `simulate_io` when the present head became the head. -/
  since : Nat
  /-- Requests in the order of their submission. -/
  submitted : List Job
  /-- Requests in the order of their completion. -/
  completed : List Completion

/-- The calls that change the queue. -/
inductive IoCall where
  /-- `submit_io_request`. -/
  | submit (job : Job)
  /-- `simulate_io`. -/
  | simulate
  deriving DecidableEq, Repr

namespace Service

/-- Before the first call. -/
def start (programs : Nat → Program) : Service where
  state := startSimulator programs
  calls := 0
  since := 0
  submitted := []
  completed := []

/-- One call, up to the call of `wake_up`. -/
def act (service : Service) : IoCall → Service
  | .submit job =>
      let state := submitIoRequest service.state job.pcb job.executionTime
      { service with
        state
        since :=
          if state.ioQueueHead = service.state.ioQueueHead then service.since else service.calls
        submitted := service.submitted ++ [job] }
  | .simulate =>
      let (state, woken) := serveHead service.state
      let calls := service.calls + 1
      { service with
        state
        calls
        since := if state.ioQueueHead = service.state.ioQueueHead then service.since else calls
        completed :=
          match service.state.ioQueueHead, woken with
          | some request, some woken =>
              service.completed ++ [{ request, since := service.since, finished := calls, woken }]
          | _, _ => service.completed }

/-- One call, after which handlers run until the next call. -/
def Step (before : Service) (call : IoCall) (after : Service) : Prop :=
  Kept (before.act call).state after.state ∧
    after = { before.act call with state := after.state }

/-- The whole of `simulate_io` is a call after which `wake_up` may run. -/
theorem step_of_simulateIo {config : Config} {service : Service} {after : State}
    (simulates : simulateIo config service.state = some after) :
    Step service .simulate { service.act .simulate with state := after } :=
  ⟨Kept.of_simulateIo simulates, rfl⟩

/-- Requests are served in the order of their submission. -/
structure InOrder (service : Service) (waiting : List Nat) : Prop where
  /-- The queue. -/
  chained : Chained service.state waiting
  /-- Requests are numbered by their submission. -/
  allocated : service.state.allocated = service.submitted.length
  /-- The first requests were completed, the others wait. -/
  order : service.completed.map Completion.request ++ waiting =
    List.range service.submitted.length
  /-- The process of a request that waits. -/
  pcb : ∀ request ∈ waiting, ∃ job, service.submitted[request]? = some job ∧
    (service.state.requests request).pcb = job.pcb
  /-- No time has passed for the requests behind the first. -/
  later : ∀ request ∈ waiting.tail, ∃ job, service.submitted[request]? = some job ∧
    (service.state.requests request).executionTime = job.executionTime
  /-- The first request has used up one unit of time in each call since it is the first. -/
  head : ∀ request ∈ waiting.head?, ∃ job, service.submitted[request]? = some job ∧
    (service.state.requests request).executionTime.toNat + service.calls =
      job.executionTime.toNat + service.since
  /-- Completed requests took one call more than their time. -/
  served : ∀ completion ∈ service.completed, ∃ job,
    service.submitted[completion.request]? = some job ∧ completion.woken = job.pcb ∧
      completion.finished = completion.since + (job.executionTime.toNat + 1)
  /-- A completion advances the position of its process. -/
  position : ∀ p, (service.state.pcbs p).pc =
    service.completed.countP fun completion => completion.woken = p

namespace InOrder

variable {service : Service} {waiting : List Nat}

private theorem job_append {jobs : List Job} {request : Nat} {property : Job → Prop}
    (found : ∃ job, jobs[request]? = some job ∧ property job) (later : List Job) :
    ∃ job, (jobs ++ later)[request]? = some job ∧ property job := by
  obtain ⟨job, present, holds⟩ := found
  have inside := (List.getElem?_eq_some_iff.mp present).1
  exact ⟨job, (List.getElem?_append_left inside).trans present, holds⟩

private theorem kept (inOrder : InOrder service waiting) {after : State}
    (kept : Kept service.state after) : InOrder { service with state := after } waiting := by
  have requests : after.requests = service.state.requests := by rw [kept.rest]
  have allocated : after.allocated = service.state.allocated := by rw [kept.rest]
  refine ⟨inOrder.chained.congr (funext fun request => ?_) (by rw [kept.rest]) (by rw [kept.rest])
    allocated, allocated.trans inOrder.allocated, inOrder.order, ?_, ?_, ?_, inOrder.served,
    fun p => ?_⟩
  · simp only [State.nextRequest, requests]
  · simpa only [requests] using inOrder.pcb
  · simpa only [requests] using inOrder.later
  · simpa only [requests] using inOrder.head
  · rw [kept.pcbs p]
    exact inOrder.position p

private theorem submit (inOrder : InOrder service waiting) (job : Job) :
    InOrder (service.act (.submit job)) (waiting ++ [service.submitted.length]) := by
  have fresh : service.submitted.length ∉ waiting := by
    rw [← inOrder.allocated]
    exact inOrder.chained.fresh
  have chained := inOrder.chained.submit job.pcb job.executionTime
  rw [inOrder.allocated] at chained
  have last : (service.submitted ++ [job])[service.submitted.length]? = some job := by simp
  refine ⟨chained, ?_, ?_, ?_, ?_, ?_, ?_, fun p => ?_⟩
  · simp [Service.act, allocated_submitIoRequest, inOrder.allocated]
  · rw [← List.append_assoc]
    simp [Service.act, inOrder.order, List.range_succ]
  · intro request member
    simp only [Service.act, pcb_submitIoRequest, inOrder.allocated]
    rcases List.mem_append.mp member with member | single
    · rw [if_neg (ne_of_mem_of_not_mem member fresh)]
      exact job_append (inOrder.pcb request member) [job]
    · obtain rfl := List.mem_singleton.mp single
      exact ⟨job, last, if_pos rfl⟩
  · intro request member
    simp only [Service.act, executionTime_submitIoRequest, inOrder.allocated]
    cases waiting with
    | nil => cases member
    | cons first waiting =>
        rcases List.mem_append.mp member with member | single
        · rw [if_neg (ne_of_mem_of_not_mem (List.mem_cons_of_mem first member) fresh)]
          exact job_append (inOrder.later request member) [job]
        · obtain rfl := List.mem_singleton.mp single
          exact ⟨job, last, if_pos rfl⟩
  · intro request isHead
    simp only [Service.act, executionTime_submitIoRequest, ioQueueHead_submitIoRequest,
      inOrder.allocated]
    cases waiting with
    | nil =>
        obtain rfl := Option.some.inj isHead
        have headEmpty : service.state.ioQueueHead = none := inOrder.chained.queue
        have tailEmpty : service.state.ioQueueTail = none := inOrder.chained.tail
        exact ⟨job, last, by simp [headEmpty, tailEmpty]⟩
    | cons first waiting =>
        obtain rfl := Option.some.inj isHead
        have nonempty : service.state.ioQueueTail ≠ none := by
          simp [inOrder.chained.tail]
        rw [if_neg (ne_of_mem_of_not_mem List.mem_cons_self fresh), if_neg nonempty, if_pos rfl]
        exact job_append (inOrder.head first rfl) [job]
  · intro completion member
    exact job_append (inOrder.served completion member) [job]
  · have same : (submitIoRequest service.state job.pcb job.executionTime).pcbs =
        service.state.pcbs := by rw [submitIoRequest_rest]
    simpa [Service.act, same] using inOrder.position p

private theorem tick {completed : Nat} (inOrder : InOrder service (completed :: waiting))
    (head : service.state.ioQueueHead = some completed)
    (busy : ¬ (service.state.requests completed).executionTime ≤ 0) :
    InOrder (service.act .simulate) (completed :: waiting) := by
  have act : service.act .simulate =
      { service with
        state := service.state.tick completed
        calls := service.calls + 1 } := by
    simp [Service.act, serveHead_tick head busy, State.tick]
  have distinct := (List.nodup_cons.mp inOrder.chained.queue.nodup).1
  rw [act]
  refine ⟨inOrder.chained.congr (nextRequest_tick _ _) rfl rfl rfl, inOrder.allocated,
    inOrder.order, fun request member => ?_, fun request member => ?_, fun request isHead => ?_,
    inOrder.served, inOrder.position⟩
  · simpa only [pcb_tick] using inOrder.pcb request member
  · rw [executionTime_tick_of_ne (ne_of_mem_of_not_mem member distinct)]
    exact inOrder.later request member
  · obtain rfl := Option.some.inj isHead
    obtain ⟨job, present, balance⟩ := inOrder.head completed rfl
    have less := executionTime_tick busy
    refine ⟨job, present, ?_⟩
    simp only
    omega

private theorem complete {completed : Nat} (inOrder : InOrder service (completed :: waiting))
    (head : service.state.ioQueueHead = some completed)
    (done : (service.state.requests completed).executionTime ≤ 0) :
    InOrder (service.act .simulate) waiting := by
  obtain ⟨job, present, balance⟩ := inOrder.head completed rfl
  obtain ⟨sameJob, presentAgain, owner⟩ := inOrder.pcb completed List.mem_cons_self
  obtain rfl := Option.some.inj (present.symm.trans presentAgain)
  have used : (service.state.requests completed).executionTime.toNat = 0 := by
    simpa [UInt32.le_iff_toNat_le] using done
  have nodup := inOrder.chained.queue.nodup
  have distinct := (List.nodup_cons.mp nodup).1
  have rest : IsList service.state.nextRequest (service.state.requests completed).next waiting :=
    inOrder.chained.queue.2
  have moves : (service.state.requests completed).next ≠ some completed := by
    intro same
    cases waiting with
    | nil => simp [rest.head_eq_none_iff.mpr] at same
    | cons second waiting =>
        obtain rfl := Option.some.inj (same.symm.trans rest.1)
        simp at distinct
  let completion : Completion :=
    { request := completed
      since := service.since
      finished := service.calls + 1
      woken := (service.state.requests completed).pcb }
  have act : service.act .simulate =
      { service with
        state := service.state.completeHead completed
        calls := service.calls + 1
        since := service.calls + 1
        completed := service.completed ++ [completion] } := by
    have head' : (service.state.completeHead completed).ioQueueHead ≠ some completed := moves
    simp [Service.act, serveHead_complete head done, head, head', completion]
  rw [act]
  have chained : Chained (service.state.completeHead completed) waiting :=
    inOrder.chained.complete.congr (nextRequest_tick _ _) rfl rfl rfl
  refine ⟨chained, inOrder.allocated, ?_, fun request member => ?_, fun request member => ?_,
    fun request isHead => ?_, ?_, fun p => ?_⟩
  · rw [List.map_append, List.append_assoc]
    exact inOrder.order
  · obtain ⟨other, found, owner⟩ := inOrder.pcb request (List.mem_cons_of_mem _ member)
    exact ⟨other, found, (pcb_tick _ _ _).trans owner⟩
  · have waits := List.mem_of_mem_tail member
    obtain ⟨other, found, time⟩ := inOrder.later request waits
    exact ⟨other, found,
      (executionTime_tick_of_ne (ne_of_mem_of_not_mem waits distinct)).trans time⟩
  · have waits := List.mem_of_mem_head? isHead
    obtain ⟨other, found, time⟩ := inOrder.later request waits
    refine ⟨other, found, congrArg (· + (service.calls + 1)) (congrArg UInt32.toNat ?_)⟩
    exact (executionTime_tick_of_ne (ne_of_mem_of_not_mem waits distinct)).trans time
  · intro other member
    rcases List.mem_append.mp member with earlier | last
    · exact inOrder.served other earlier
    · obtain rfl := List.mem_singleton.mp last
      refine ⟨job, present, owner, ?_⟩
      simp only [completion]
      omega
  · rw [List.countP_append, ← inOrder.position p]
    by_cases same : p = (service.state.requests completed).pcb
    · simp [State.completeHead, State.modifyPcb, State.tick, completion, same]
    · simp [State.completeHead, State.modifyPcb, State.tick, completion, same, Ne.symm same]

private theorem simulate (inOrder : InOrder service waiting) :
    ∃ waiting', InOrder (service.act .simulate) waiting' := by
  cases waiting with
  | nil =>
      have empty : service.state.ioQueueHead = none := inOrder.chained.queue
      refine ⟨[], ?_⟩
      have act : service.act .simulate = { service with calls := service.calls + 1 } := by
        simp [Service.act, serveHead, empty]
      rw [act]
      exact ⟨inOrder.chained, inOrder.allocated, inOrder.order, inOrder.pcb, inOrder.later, nofun,
        inOrder.served, inOrder.position⟩
  | cons completed waiting =>
      have head : service.state.ioQueueHead = some completed := inOrder.chained.queue.1
      by_cases done : (service.state.requests completed).executionTime ≤ 0
      · exact ⟨waiting, inOrder.complete head done⟩
      · exact ⟨completed :: waiting, inOrder.tick head done⟩

private theorem start (programs : Nat → Program) : InOrder (Service.start programs) [] where
  chained := ⟨rfl, rfl, nofun⟩
  allocated := rfl
  order := rfl
  pcb := nofun
  later := nofun
  head := nofun
  served := nofun
  position _ := rfl

/-- Every call, and what follows it, keeps the order. -/
theorem step (inOrder : InOrder service waiting) {call : IoCall} {after : Service}
    (step : Step service call after) : ∃ waiting', InOrder after waiting' := by
  obtain ⟨kept, result⟩ := step
  rw [result]
  cases call with
  | submit job => exact ⟨_, (inOrder.submit job).kept kept⟩
  | simulate =>
      obtain ⟨waiting', inOrder⟩ := inOrder.simulate
      exact ⟨waiting', inOrder.kept kept⟩

end InOrder

/-- Both ends of the queue agree, requests complete in the order of their submission, each once and
in its time, and each moves and wakes its own process only. -/
structure ServedOnce (service : Service) : Prop where
  /-- Both ends are `NULL` at the same time. -/
  ends : service.state.ioQueueHead = none ↔ service.state.ioQueueTail = none
  /-- The tail is the last request that is reached from the head. The requests that wait are those
  that were submitted after the completed ones. -/
  order : ∃ waiting, IsList service.state.nextRequest service.state.ioQueueHead waiting ∧
    service.state.ioQueueTail = waiting.getLast? ∧
    service.completed.map Completion.request ++ waiting = List.range service.submitted.length
  /-- A request is completed with one call more than its time after it became the head, and its
  process is woken. -/
  served : ∀ completion ∈ service.completed, ∃ job,
    service.submitted[completion.request]? = some job ∧ completion.woken = job.pcb ∧
      completion.finished = completion.since + (job.executionTime.toNat + 1)
  /-- No request is late. -/
  punctual : ∀ request, service.state.ioQueueHead = some request → ∃ job,
    service.submitted[request]? = some job ∧
      service.calls < service.since + (job.executionTime.toNat + 1)
  /-- A process is advanced by the completion of its requests only. -/
  position : ∀ p, (service.state.pcbs p).pc =
    service.completed.countP fun completion => completion.woken = p

private theorem InOrder.servedOnce {service : Service} {waiting : List Nat}
    (inOrder : InOrder service waiting) : ServedOnce service where
  ends := inOrder.chained.ends
  order := ⟨waiting, inOrder.chained.queue, inOrder.chained.tail, inOrder.order⟩
  served := inOrder.served
  punctual request isHead := by
    have queue := inOrder.chained.queue
    cases waiting with
    | nil =>
        have empty : service.state.ioQueueHead = none := queue
        rw [isHead] at empty
        cases empty
    | cons first waiting =>
        obtain rfl := Option.some.inj (isHead.symm.trans queue.1)
        obtain ⟨job, present, balance⟩ := inOrder.head request rfl
        exact ⟨job, present, by omega⟩
  position := inOrder.position

/-- Runs keep the order. -/
theorem inOrder_of_trace {programs : Nat → Program} {calls : List IoCall} {service : Service}
    (trace : Trace Step (.start programs) calls service) :
    ∃ waiting, InOrder service waiting := by
  induction trace with
  | nil => exact ⟨[], .start programs⟩
  | snoc _ last ih =>
      obtain ⟨waiting, inOrder⟩ := ih
      exact inOrder.step last

/-- The queue serves every request once and in order, whatever is submitted and whenever
`simulate_io` is called. -/
theorem requests_served_in_order {programs : Nat → Program} {calls : List IoCall}
    {service : Service} (trace : Trace Step (.start programs) calls service) :
    ServedOnce service := by
  obtain ⟨waiting, inOrder⟩ := inOrder_of_trace trace
  exact inOrder.servedOnce

/-- Calls between which nothing else happens. -/
theorem trace_foldl (service : Service) (calls : List IoCall) :
    Trace Step service calls (calls.foldl act service) := by
  induction calls using List.reverseRecOn with
  | nil => exact .nil
  | append_singleton calls call ih =>
      rw [List.foldl_append]
      exact ih.snoc ⟨.refl _, rfl⟩

/-- A request with time 2, and one with time 0 that waits for it. -/
theorem requests_served_in_order_two : ∃ (calls : List IoCall) (service : Service),
    Trace Step (.start fun _ => { pid := 0, staticPriority := 1, ops := [] }) calls service ∧
      service.completed = [⟨0, 0, 3, 4⟩, ⟨1, 3, 4, 7⟩] ∧ ServedOnce service := by
  let calls : List IoCall := [.submit ⟨4, 2⟩, .submit ⟨7, 0⟩, .simulate, .simulate, .simulate,
    .simulate, .simulate]
  have trace := trace_foldl (.start fun _ => { pid := 0, staticPriority := 1, ops := [] }) calls
  exact ⟨calls, _, trace, by decide, requests_served_in_order trace⟩

end Service

end CS2200.Scheduling
