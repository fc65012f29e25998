import CS2200.Library.Trace
import CS2200.Scheduling.Refinement

/-!
# The ready list as a queue

`get` leaves the link of the process that it removes as it is, and `addqueue` resets the link of the
process that it adds. Whatever links the processes start with, calls of the two functions keep a
list that ends, and processes leave it in the order in which they were added.
-/

namespace CS2200.Scheduling

open LinkedList

/-- A call of `addqueue` with its argument, or a call of `get` with its result. -/
inductive QueueCall where
  | addqueue (pcb : Nat)
  | get (result : Option Nat)
  deriving DecidableEq, Repr

/-- The processes that the calls add, in order. -/
def added (calls : List QueueCall) : List Nat :=
  calls.filterMap fun
    | .addqueue pcb => some pcb
    | .get _ => none

/-- The processes that the calls return, in order. -/
def returned (calls : List QueueCall) : List Nat :=
  calls.filterMap fun
    | .addqueue _ => none
    | .get result => result

/-- One call on the ready list. Only a process that is not in the list is added. -/
inductive QueueStep (config : Config) (before : State) : QueueCall → State → Prop
  | addqueue {pcb : Nat} {after : State} :
      pcb < config.processCount →
      ¬ Reaches before.next before.qHead pcb →
      addqueue config before pcb = some after →
      QueueStep config before (.addqueue pcb) after
  | get : QueueStep config before (.get (get before).2) (get before).1

section Calls

variable {calls : List QueueCall} {pcb : Nat} {result : Option Nat}

@[simp] theorem added_addqueue : added (calls ++ [.addqueue pcb]) = added calls ++ [pcb] := by
  simp [added]

@[simp] theorem added_get : added (calls ++ [.get result]) = added calls := by simp [added]

@[simp] theorem returned_addqueue : returned (calls ++ [.addqueue pcb]) = returned calls := by
  simp [returned]

@[simp] theorem returned_get :
    returned (calls ++ [.get result]) = returned calls ++ result.toList := by
  cases result <;> simp [returned]

end Calls

/-- The ready list holds what was added and not yet returned. -/
structure Fifo (config : Config) (calls : List QueueCall) (state : State) (ready : List Nat) :
    Prop where
  /-- The links from the head pass through these processes and end. -/
  list : IsList state.next state.qHead ready
  /-- They are entries of the table. -/
  inRange : ∀ p ∈ ready, p < config.processCount
  /-- First in, first out. -/
  order : added calls = returned calls ++ ready

namespace Fifo

variable {config : Config} {calls : List QueueCall} {state after : State} {ready : List Nat}
  {pcb : Nat} {call : QueueCall}

/-- `get` returns the first process, and the others stay. -/
theorem get_eq (list : IsList state.next state.qHead ready) :
    (get state).2 = ready.head? ∧ IsList (get state).1.next (get state).1.qHead ready.tail := by
  cases ready with
  | nil =>
      have empty : state.qHead = none := list
      simp [get, empty, IsList]
  | cons first rest =>
      rw [get_spec list]
      exact ⟨rfl, list.2⟩

private theorem start (empty : state.qHead = none) : Fifo config [] state [] where
  list := empty
  inRange := by simp
  order := rfl

private theorem addqueue (fifo : Fifo config calls state ready)
    (inTable : pcb < config.processCount)
    (outside : pcb ∉ ready) (adds : addqueue config state pcb = some after) :
    Fifo config (calls ++ [.addqueue pcb]) after (ready ++ [pcb]) := by
  obtain ⟨result, ends, list, -⟩ := addqueue_spec fifo.list fifo.inRange outside
  obtain rfl := Option.some.inj (ends.symm.trans adds)
  refine ⟨list, ?_, ?_⟩
  · intro p member
    rcases List.mem_append.mp member with member | member
    · exact fifo.inRange p member
    · rwa [List.mem_singleton.mp member]
  · simp [fifo.order]

private theorem get (fifo : Fifo config calls state ready) :
    Fifo config (calls ++ [.get (get state).2]) (get state).1 ready.tail := by
  obtain ⟨result, rest⟩ := get_eq fifo.list
  refine ⟨rest, fun p member => fifo.inRange p (List.mem_of_mem_tail member), ?_⟩
  rw [added_get, returned_get, result, fifo.order, List.append_assoc]
  cases ready <;> rfl

/-- Every call keeps the ready list a queue. -/
theorem step (fifo : Fifo config calls state ready) (takes : QueueStep config state call after) :
    ∃ rest, Fifo config (calls ++ [call]) after rest := by
  cases takes with
  | addqueue inTable outside adds =>
      exact ⟨_, fifo.addqueue inTable (mt fifo.list.reaches_iff.mpr outside) adds⟩
  | get => exact ⟨_, fifo.get⟩

private theorem of_trace {initial : State} (empty : initial.qHead = none)
    (trace : Trace (QueueStep config) initial calls state) :
    ∃ ready, Fifo config calls state ready := by
  induction trace with
  | nil => exact ⟨[], start empty⟩
  | snoc _ last ih =>
      obtain ⟨ready, fifo⟩ := ih
      exact fifo.step last

end Fifo

section Runs

variable {config : Config} {calls : List QueueCall} {initial final : State}

/-- From an empty list over any links, the ready list ends and has no process twice. It holds the
processes that were added and not yet returned, `addqueue` ends and appends its argument, and `get`
removes the first process. -/
theorem readyList_fifo (empty : initial.qHead = none)
    (trace : Trace (QueueStep config) initial calls final) :
    ∃ ready, IsList final.next final.qHead ready ∧ ready.Nodup ∧
      added calls = returned calls ++ ready ∧
      (∀ i < (returned calls).length, (returned calls)[i]? = (added calls)[i]?) ∧
      (∀ pcb < config.processCount, ¬ Reaches final.next final.qHead pcb →
        ∃ after, addqueue config final pcb = some after ∧
          IsList after.next after.qHead (ready ++ [pcb])) ∧
      (get final).2 = ready.head? ∧ IsList (get final).1.next (get final).1.qHead ready.tail := by
  obtain ⟨ready, fifo⟩ := Fifo.of_trace empty trace
  refine ⟨ready, fifo.list, fifo.list.nodup, fifo.order, ?_, ?_, Fifo.get_eq fifo.list⟩
  · intro i inside
    rw [fifo.order, List.getElem?_append_left inside]
  · intro pcb _ outside
    obtain ⟨after, ends, list, -⟩ := addqueue_spec fifo.list fifo.inRange
      (mt fifo.list.reaches_iff.mpr outside)
    exact ⟨after, ends, list⟩

/-- A table of processes with these links and an empty ready list. -/
def unqueued (links : List (Option Nat)) : State where
  pcbs p :=
    { pid := .ofNat p, staticPriority := 0, state := .new, ops := [], pc := 0
      next := (links[p]?).join }
  qHead := none
  current _ := none
  cpuData _ := { current := none, state := .idle, preemptionTimer := -1 }
  contextSwitches := 0
  processesTerminated := 0
  processesCreated := links.length
  requests _ := { pcb := 0, executionTime := 0, next := none }
  allocated := 0
  ioQueueHead := none
  ioQueueTail := none
  output := []

/-- The two processes of a table point at each other; the first one is added again after it was
returned. -/
theorem readyList_fifo_stale : ∃ final : State, ∃ ready,
    IsList final.next final.qHead ready ∧ ready.Nodup ∧
      added [.addqueue 0, .addqueue 1, .get (some 0), .addqueue 0] = [0] ++ ready := by
  let config : Config := { cpuCount := 1, processCount := 2, staticPrior := false, timeslice := -1 }
  let initial := unqueued [some 1, some 0]
  let first : State := { initial.setNext 0 none with qHead := some 0 }
  let second := (first.setNext 1 none).setNext 0 (some 1)
  let third := (get second).1
  let fourth := (third.setNext 0 none).setNext 1 (some 0)
  have nothing : IsList initial.next initial.qHead [] := rfl
  have zero : IsList first.next first.qHead [0] := ⟨rfl, rfl⟩
  have one : IsList third.next third.qHead [1] := ⟨rfl, rfl⟩
  have addsZero : QueueStep config initial (.addqueue 0) first :=
    .addqueue (by decide) (mt nothing.reaches_iff.mp (by decide)) rfl
  have addsOne : QueueStep config first (.addqueue 1) second :=
    .addqueue (by decide) (mt zero.reaches_iff.mp (by decide)) rfl
  have gets : QueueStep config second (.get (some 0)) third := .get
  have addsAgain : QueueStep config third (.addqueue 0) fourth :=
    .addqueue (by decide) (mt one.reaches_iff.mp (by decide)) rfl
  obtain ⟨ready, list, distinct, order, -⟩ :=
    @readyList_fifo config [.addqueue 0, .addqueue 1, .get (some 0), .addqueue 0] initial fourth
      rfl (Trace.nil.snoc addsZero |>.snoc addsOne |>.snoc gets |>.snoc addsAgain)
  exact ⟨fourth, ready, list, distinct, order⟩

end Runs

end CS2200.Scheduling
