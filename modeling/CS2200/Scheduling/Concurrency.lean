import CS2200.Library.Trace
import CS2200.Scheduling.Refinement

/-!
# The ready list under concurrency

CPUs run `schedule` while other threads add processes to the ready list. A section under
`ready_mutex` is one step. `gethighestone` takes no lock: it looks through the list in one step and
unlinks a process in another. A process is then removed once for each time that it is added, except
when `gethighestone` clears a list that it saw with one process and that is different by then.
-/

namespace CS2200.Scheduling

open LinkedList

/-! ## The parts of `schedule` -/

/-- What `gethighestone` has found in a list that is not empty. -/
inductive Found where
  /-- `currentone`, without a successor. -/
  | only (currentone : Nat)
  /-- `highestone` of a longer list. -/
  | several (highestone : Nat)
  deriving DecidableEq, Repr

/-- The process that `gethighestone` returns. -/
def Found.process : Found → Nat
  | .only currentone => currentone
  | .several highestone => highestone

/-- `gethighestone` before it assigns to the list. It finds nothing in an empty list. -/
def scan (config : Config) (state : State) : Option (Option Found) :=
  match state.qHead with
  | none => some none
  | some first =>
      if state.next first = none then some (some (.only first))
      else do
        let found ← foldFrom state.next (higher state) config.processCount (some first) (0, none)
        let highestone ← found.2
        some (some (.several highestone))

/-- The assignment of `gethighestone` to the list. -/
def unlink (config : Config) (state : State) : Found → Option State
  | .only _ => some { state with qHead := none }
  | .several highestone => do
      let first ← state.qHead
      if highestone = first then some { state with qHead := state.next first }
      else
        let currentone ← predecessorFrom state.next highestone config.processCount first
        some (state.setNext currentone (state.next highestone))

/-- `schedule` after a process was removed. -/
def finish (config : Config) (state : State) (cpu : Nat) (pcblock : Option Nat) : Option State :=
  let state :=
    match pcblock with
    | none => state
    | some pcb => state.setState pcb .running
  let state := { state with current := Function.update state.current cpu pcblock }
  contextSwitch config state cpu pcblock config.timeslice

/-- Without interference the two parts are `gethighestone`. -/
theorem gethighestone_eq (config : Config) (state : State) : gethighestone config state = (do
    match ← scan config state with
    | none => some (state, none)
    | some found => some (← unlink config state found, some found.process)) := by
  unfold gethighestone scan
  cases head : state.qHead with
  | none => rfl
  | some first =>
      by_cases single : state.next first = none
      · simp [single, unlink, Found.process]
      · cases search : foldFrom state.next (higher state) config.processCount (some first)
          (0, none) with
        | none => simp [single, search]
        | some found =>
            cases highest : found.2 with
            | none => simp [single, search, highest]
            | some highestone =>
                by_cases isFirst : highestone = first
                · simp [single, search, highest, unlink, head, isFirst, Found.process]
                · simp [single, search, highest, unlink, head, isFirst, Found.process,
                    Option.bind_assoc]

theorem schedule_eq (config : Config) (state : State) (cpu : Nat) : schedule config state cpu =
    (if config.staticPrior then gethighestone config state else some (get state)).bind
      fun (state, pcblock) => finish config state cpu pcblock := by
  unfold schedule
  split <;> rfl

/-! ## Steps of several threads -/

/-- Where a CPU is in `schedule`. -/
inductive Phase where
  /-- Not in `schedule`. -/
  | outside
  /-- Before the removal. -/
  | entered
  /-- In `gethighestone`, before the assignment to the list. -/
  | scanned (found : Found)
  /-- After the removal. -/
  | taken (pcblock : Option Nat)
  deriving DecidableEq, Repr

/-- The shared memory, the CPUs, and a record of what was added and returned. -/
structure System where
  /-- The globals. -/
  state : State
  /-- Where each CPU is. -/
  phase : Nat → Phase
  /-- Whether a process was ever added. -/
  added : Nat → Bool
  /-- The CPUs that a process was returned to since it was added, the last in front. -/
  takers : Nat → List Nat

namespace System

/-- A CPU proceeds to another place. -/
def setPhase (system : System) (cpu : Nat) (phase : Phase) : System :=
  { system with phase := Function.update system.phase cpu phase }

/-- A removal that leaves the globals in `state` returns its result to a CPU. -/
def take (system : System) (state : State) (cpu : Nat) (pcblock : Option Nat) : System where
  state := state
  phase := Function.update system.phase cpu (.taken pcblock)
  added := system.added
  takers :=
    match pcblock with
    | none => system.takers
    | some pcb => Function.update system.takers pcb (cpu :: system.takers pcb)

/-- The system before any step. -/
def start (programs : Nat → Program) : System where
  state := startSimulator programs
  phase _ := .outside
  added _ := false
  takers _ := []

/-- Following the links from `q_head` visits a process. -/
def Queued (system : System) (p : Nat) : Prop :=
  Reaches system.state.next system.state.qHead p

end System

/-- A step of some thread. -/
inductive Action where
  /-- Some thread runs `addqueue`. -/
  | addqueue (pcb : Nat)
  /-- A handler calls `schedule` on a CPU. -/
  | schedule (cpu : Nat)
  /-- The loop of `idle` ends on a CPU, and `idle` calls `schedule`. -/
  | idle (cpu : Nat)
  /-- A CPU runs `get`. -/
  | get (cpu : Nat)
  /-- A CPU looks through the list. -/
  | scan (cpu : Nat)
  /-- A CPU unlinks what it found. -/
  | unlink (cpu : Nat)
  /-- A CPU runs what it removed. -/
  | finish (cpu : Nat)
  deriving DecidableEq, Repr

/-- One step. -/
def act (config : Config) (system : System) : Action → Option System
  | .addqueue pcb =>
      if pcb < config.processCount then do
        let state ← addqueue config system.state pcb
        some { system with
          state
          added := Function.update system.added pcb true
          takers := Function.update system.takers pcb [] }
      else none
  | .schedule cpu =>
      if system.phase cpu = .outside then some (system.setPhase cpu .entered) else none
  | .idle cpu =>
      if system.phase cpu = .outside ∧ system.state.qHead ≠ none then
        some (system.setPhase cpu .entered)
      else none
  | .get cpu =>
      if system.phase cpu = .entered ∧ config.staticPrior = false then
        let (state, getone) := get system.state
        some (system.take state cpu getone)
      else none
  | .scan cpu =>
      if system.phase cpu = .entered ∧ config.staticPrior then do
        match ← scan config system.state with
        | none => some (system.take system.state cpu none)
        | some found => some (system.setPhase cpu (.scanned found))
      else none
  | .unlink cpu =>
      match system.phase cpu with
      | .scanned found => do
          let state ← unlink config system.state found
          some (system.take state cpu (some found.process))
      | _ => none
  | .finish cpu =>
      match system.phase cpu with
      | .taken pcblock => do
          let state ← finish config system.state cpu pcblock
          some { system.setPhase cpu .outside with state }
      | _ => none

/-- The transition relation of the system. -/
def Interleaves (config : Config) (before : System) (action : Action) (after : System) : Prop :=
  act config before action = some after

/-! ## Removing once -/

/-- Since it was added last, a process either waits in the list or was returned to exactly one
CPU. -/
def System.RemovedOnce (system : System) : Prop :=
  ∀ p, system.added p = true →
    (system.Queued p ∧ system.takers p = []) ∨
      (¬system.Queued p ∧ ∃ cpu, system.takers p = [cpu])

/-- `addqueue` is called with a process that is new or was returned since it was added. -/
def AddsReturned (before : System) : Action → Prop
  | .addqueue pcb => before.added pcb = true → before.takers pcb ≠ []
  | _ => True

/-- `gethighestone` clears a list that still consists of the process which it saw. -/
def ClearsAlone (before : System) : Action → Prop
  | .unlink cpu => ∀ p, before.phase cpu = .scanned (.only p) →
      before.state.qHead = some p ∧ before.state.next p = none
  | _ => True

/-- The list holds the processes that were added and not returned. -/
structure Keeps (config : Config) (system : System) (ready : List Nat) : Prop where
  /-- The links of the list. -/
  list : IsList system.state.next system.state.qHead ready
  /-- Its processes are entries of the table. -/
  inRange : ∀ p ∈ ready, p < config.processCount
  /-- Its processes are those that were added and not returned. -/
  waiting : ∀ {p}, p ∈ ready ↔ system.added p = true ∧ system.takers p = []
  /-- No process was returned twice. -/
  once : ∀ p, (system.takers p).length ≤ 1
  /-- A CPU has found a process that was added. -/
  found : ∀ {cpu p}, system.phase cpu = .scanned (.only p) → system.added p = true

/-- Every process was removed once for each time that it was added. -/
def Intact (config : Config) (system : System) : Prop := ∃ ready, Keeps config system ready

section Steps

variable {config : Config} {system after : System} {ready : List Nat} {cpu p : Nat}

private theorem Keeps.removedOnce (keeps : Keeps config system ready) : system.RemovedOnce := by
  intro p added
  have queued : system.Queued p ↔ p ∈ ready := keeps.list.reaches_iff
  rw [queued, keeps.waiting]
  have once := keeps.once p
  cases takers : system.takers p with
  | nil => exact .inl ⟨⟨added, rfl⟩, rfl⟩
  | cons cpu others =>
      rw [takers] at once
      obtain rfl : others = [] := List.length_eq_zero_iff.mp (by simpa using once)
      exact .inr ⟨by simp, cpu, rfl⟩

theorem Keeps.setPhase (keeps : Keeps config system ready) (cpu : Nat) {phase : Phase}
    (found : ∀ p, phase = .scanned (.only p) → system.added p = true) :
    Keeps config (system.setPhase cpu phase) ready where
  list := keeps.list
  inRange := keeps.inRange
  waiting := keeps.waiting
  once := keeps.once
  found {other p} scanned := by
    by_cases same : other = cpu
    · subst same
      exact found p (by simpa [System.setPhase] using scanned)
    · exact keeps.found (by simpa [System.setPhase, same] using scanned)

private theorem Keeps.congr (keeps : Keeps config system ready) {state : State}
    (next : state.next = system.state.next) (qHead : state.qHead = system.state.qHead) :
    Keeps config { system with state } ready where
  list := by
    rw [next, qHead]
    exact keeps.list
  inRange := keeps.inRange
  waiting := keeps.waiting
  once := keeps.once
  found := keeps.found

private theorem Keeps.take_none (keeps : Keeps config system ready) (cpu : Nat) :
    Keeps config (system.take system.state cpu none) ready :=
  keeps.setPhase cpu (by simp)

private theorem update_scanned {other : Nat} {phase : Phase} {found : Found}
    (scanned : Function.update system.phase other phase cpu = .scanned found) :
    system.phase cpu = .scanned found ∨ cpu = other ∧ phase = .scanned found := by
  by_cases same : cpu = other
  · subst same
    exact .inr ⟨rfl, by simpa using scanned⟩
  · exact .inl (by simpa [same] using scanned)

private theorem phase_scanned {action : Action} (step : Interleaves config system action after)
    {found : Found} (scanned : after.phase cpu = .scanned found) :
    system.phase cpu = .scanned found ∨ config.staticPrior := by
  cases action with
  | addqueue pcb =>
      obtain ⟨-, step⟩ := Option.ite_none_right_eq_some.mp step
      obtain ⟨state, -, result⟩ := Option.bind_eq_some_iff.mp step
      obtain rfl := Option.some.inj result
      exact .inl scanned
  | schedule other | idle other | get other =>
      obtain ⟨-, result⟩ := Option.ite_none_right_eq_some.mp step
      obtain rfl := Option.some.inj result
      exact .inl ((update_scanned scanned).resolve_right (by simp))
  | scan other =>
      obtain ⟨⟨-, static⟩, -⟩ := Option.ite_none_right_eq_some.mp step
      exact .inr static
  | unlink other =>
      cases phase : system.phase other with
      | scanned seen =>
          simp only [Interleaves, Scheduling.act, phase] at step
          obtain ⟨state, -, result⟩ := Option.bind_eq_some_iff.mp step
          obtain rfl := Option.some.inj result
          exact .inl ((update_scanned scanned).resolve_right (by simp))
      | outside | entered | taken => simp [Interleaves, Scheduling.act, phase] at step
  | finish other =>
      cases phase : system.phase other with
      | taken pcblock =>
          simp only [Interleaves, Scheduling.act, phase] at step
          obtain ⟨state, -, result⟩ := Option.bind_eq_some_iff.mp step
          obtain rfl := Option.some.inj result
          exact .inl ((update_scanned scanned).resolve_right (by simp))
      | outside | entered | scanned => simp [Interleaves, Scheduling.act, phase] at step

private theorem Keeps.take (keeps : Keeps config system ready) (cpu : Nat) (member : p ∈ ready)
    {state : State} (list : IsList state.next state.qHead (ready.erase p)) :
    Keeps config (system.take state cpu (some p)) (ready.erase p) where
  list := list
  inRange q inside := keeps.inRange q (List.mem_of_mem_erase inside)
  waiting {q} := by
    rw [keeps.list.nodup.mem_erase_iff, keeps.waiting]
    by_cases same : q = p <;> simp [System.take, same]
  once q := by
    by_cases same : q = p
    · subst same
      simp [System.take, (keeps.waiting.mp member).2]
    · simpa [System.take, same] using keeps.once q
  found {other q} scanned := by
    by_cases same : other = cpu
    · simp [System.take, same] at scanned
    · exact keeps.found (by simpa [System.take, same] using scanned)

private theorem Keeps.add (keeps : Keeps config system ready) (inRange : p < config.processCount)
    {state : State} (list : IsList state.next state.qHead (ready ++ [p])) :
    Keeps config { system with
      state
      added := Function.update system.added p true
      takers := Function.update system.takers p [] } (ready ++ [p]) where
  list := list
  inRange q inside := by
    rcases List.mem_append.mp inside with inside | same
    · exact keeps.inRange q inside
    · rwa [List.mem_singleton.mp same]
  waiting {q} := by
    rw [List.mem_append, List.mem_singleton, keeps.waiting]
    by_cases same : q = p <;> simp [same]
  once q := by
    by_cases same : q = p
    · simp [same]
    · simpa [same] using keeps.once q
  found {other q} scanned := by
    have added := keeps.found scanned
    by_cases same : q = p <;> simp [same, added]

private theorem Keeps.scan_only (keeps : Keeps config system ready)
    (finds : scan config system.state = some (some (.only p))) : ready = [p] := by
  have list := keeps.list
  unfold scan at finds
  cases head : system.state.qHead with
  | none => simp [head] at finds
  | some first =>
      by_cases single : system.state.next first = none
      · obtain rfl : first = p := by simpa [head, single] using finds
        rw [head] at list
        cases ready with
        | nil => cases list
        | cons start rest =>
            obtain rfl := Option.some.inj list.1
            rw [list.2.head_eq_none_iff.mp single]
      · simp [head, single, Option.bind_eq_some_iff] at finds

/-- A completed unlinking removes its process, unless the list has changed since it consisted of the
process alone. -/
theorem Keeps.unlink (keeps : Keeps config system ready) {found : Found}
    (alone : ∀ p, found = .only p → system.state.qHead = some p ∧ system.state.next p = none)
    {state : State} (unlinks : unlink config system.state found = some state) :
    found.process ∈ ready ∧ IsList state.next state.qHead (ready.erase found.process) := by
  have list := keeps.list
  cases found with
  | only currentone =>
      obtain ⟨head, single⟩ := alone currentone rfl
      obtain rfl := Option.some.inj unlinks
      have whole : ready = [currentone] :=
        list.unique (show IsList _ _ [currentone] from ⟨head, single⟩)
      rw [whole]
      simp [Found.process, IsList]
  | several highestone =>
      obtain ⟨first, head, unlinks⟩ := Option.bind_eq_some_iff.mp unlinks
      rw [head] at list
      by_cases isFirst : highestone = first
      · obtain rfl : { system.state with qHead := system.state.next first } = state := by
          simpa [isFirst] using unlinks
        subst isFirst
        cases ready with
        | nil => cases list
        | cons start rest =>
            obtain rfl := Option.some.inj list.1
            refine ⟨List.mem_cons_self, ?_⟩
            rw [Found.process, List.erase_cons_head]
            exact list.2
      · rw [if_neg isFirst] at unlinks
        obtain ⟨previous, walk, result⟩ := Option.bind_eq_some_iff.mp unlinks
        obtain rfl := Option.some.inj result
        obtain ⟨earlier, later, rfl⟩ := list.of_predecessorFrom walk
        refine ⟨by simp [Found.process], ?_⟩
        have unchanged : (system.state.setNext previous (system.state.next highestone)).qHead =
            some first := head
        rw [unchanged, State.next_setNext]
        exact list.unlink_erase

theorem finish_links {state final : State} {pcblock : Option Nat}
    (runs : finish config state cpu pcblock = some final) :
    final.next = state.next ∧ final.qHead = state.qHead := by
  cases pcblock with
  | none =>
      obtain ⟨-, result⟩ := Option.ite_none_right_eq_some.mp runs
      obtain rfl := Option.some.inj result
      exact ⟨rfl, rfl⟩
  | some p =>
      obtain ⟨-, result⟩ := Option.ite_none_right_eq_some.mp runs
      obtain rfl := Option.some.inj result
      exact ⟨state.next_setState p .running, rfl⟩

/-- A step keeps the list if `addqueue` is called as it should be and a list that is cleared is the
one that was seen. -/
theorem Keeps.act {action : Action} (keeps : Keeps config system ready)
    (promised : AddsReturned system action) (alone : ClearsAlone system action)
    (step : Interleaves config system action after) : Intact config after := by
  cases action with
  | addqueue pcb =>
      obtain ⟨inRange, step⟩ := Option.ite_none_right_eq_some.mp step
      obtain ⟨state, adds, result⟩ := Option.bind_eq_some_iff.mp step
      obtain rfl := Option.some.inj result
      have outside : pcb ∉ ready := fun member =>
        promised (keeps.waiting.mp member).1 (keeps.waiting.mp member).2
      obtain ⟨linked, adds', list, -⟩ := addqueue_spec keeps.list keeps.inRange outside
      obtain rfl := Option.some.inj (adds.symm.trans adds')
      exact ⟨_, keeps.add inRange list⟩
  | schedule cpu =>
      obtain ⟨-, result⟩ := Option.ite_none_right_eq_some.mp step
      obtain rfl := Option.some.inj result
      exact ⟨ready, keeps.setPhase cpu (by simp)⟩
  | idle cpu =>
      obtain ⟨-, result⟩ := Option.ite_none_right_eq_some.mp step
      obtain rfl := Option.some.inj result
      exact ⟨ready, keeps.setPhase cpu (by simp)⟩
  | get cpu =>
      obtain ⟨-, result⟩ := Option.ite_none_right_eq_some.mp step
      obtain rfl : system.take (get system.state).1 cpu (get system.state).2 = after :=
        Option.some.inj result
      have list := keeps.list
      cases ready with
      | nil =>
          have empty : system.state.qHead = none := list
          have nothing : get system.state = (system.state, none) := by simp [get, empty]
          rw [nothing]
          exact ⟨[], keeps.take_none cpu⟩
      | cons p rest =>
          rw [get_spec list]
          refine ⟨_, keeps.take cpu List.mem_cons_self ?_⟩
          rw [List.erase_cons_head]
          exact list.2
  | scan cpu =>
      obtain ⟨-, step⟩ := Option.ite_none_right_eq_some.mp step
      obtain ⟨result, scans, step⟩ := Option.bind_eq_some_iff.mp step
      cases result with
      | none =>
          obtain rfl := Option.some.inj step
          exact ⟨ready, keeps.take_none cpu⟩
      | some found =>
          obtain rfl := Option.some.inj step
          refine ⟨ready, keeps.setPhase cpu fun p only => ?_⟩
          obtain rfl : found = .only p := by simpa using only
          exact (keeps.waiting.mp (by simp [keeps.scan_only scans])).1
  | unlink cpu =>
      cases phase : system.phase cpu with
      | scanned found =>
          simp only [Interleaves, Scheduling.act, phase] at step
          obtain ⟨state, unlinks, result⟩ := Option.bind_eq_some_iff.mp step
          obtain rfl := Option.some.inj result
          obtain ⟨member, list⟩ := keeps.unlink
            (fun p only => alone p (phase.trans (congrArg _ only))) unlinks
          exact ⟨_, keeps.take cpu member list⟩
      | outside | entered | taken => simp [Interleaves, Scheduling.act, phase] at step
  | finish cpu =>
      cases phase : system.phase cpu with
      | taken pcblock =>
          simp only [Interleaves, Scheduling.act, phase] at step
          obtain ⟨state, finishes, result⟩ := Option.bind_eq_some_iff.mp step
          obtain rfl := Option.some.inj result
          obtain ⟨next, qHead⟩ := finish_links finishes
          have outside : Keeps config (system.setPhase cpu .outside) ready :=
            keeps.setPhase cpu (by simp)
          exact ⟨ready, outside.congr next qHead⟩
      | outside | entered | scanned => simp [Interleaves, Scheduling.act, phase] at step

/-- A list that is cleared and is not the one that was seen loses a process, or a process is
returned twice. -/
theorem Keeps.clearsAlone {action : Action} (keeps : Keeps config system ready)
    (step : Interleaves config system action after) (removed : after.RemovedOnce) :
    ClearsAlone system action := by
  cases action with
  | unlink cpu =>
      intro p scanned
      simp only [Interleaves, Scheduling.act, scanned] at step
      obtain rfl : system.take { system.state with qHead := none } cpu (some p) = after :=
        Option.some.inj step
      have cleared : ∀ q, ¬(system.take { system.state with qHead := none } cpu
          (some p)).Queued q := by
        rintro q ⟨first, impossible, -⟩
        cases impossible
      have waits : p ∈ ready := by
        rw [keeps.waiting]
        refine ⟨keeps.found scanned, ?_⟩
        rcases removed p (keeps.found scanned) with ⟨queued, -⟩ | ⟨-, taker, takers⟩
        · exact absurd queued (cleared p)
        · simpa [System.take] using congrArg List.tail takers
      have only : ∀ q ∈ ready, q = p := by
        intro q member
        obtain ⟨added, takers⟩ := keeps.waiting.mp member
        by_contra different
        rcases removed q added with ⟨queued, -⟩ | ⟨-, taker, single⟩
        · exact cleared q queued
        · simp [System.take, different, takers] at single
      have list := keeps.list
      cases ready with
      | nil => cases waits
      | cons first rest =>
          obtain rfl := only first List.mem_cons_self
          cases rest with
          | nil => exact list
          | cons second rest =>
              have nodup := list.nodup
              simp [only second] at nodup
  | _ => trivial

end Steps

/-! ## Runs -/

section Runs

variable {config : Config} {programs : Nat → Program}

private theorem Intact.start (config : Config) (programs : Nat → Program) :
    Intact config (.start programs) :=
  ⟨[], rfl, by simp, by simp [System.start], by simp [System.start], by simp [System.start]⟩

private theorem staticPrior_of_scanned {actions : List Action} {system : System}
    (trace : Trace (Interleaves config) (.start programs) actions system) {cpu : Nat}
    {found : Found} (scanned : system.phase cpu = .scanned found) : config.staticPrior := by
  induction trace with
  | nil => cases scanned
  | @snoc actions action before after _ step ih =>
      rcases phase_scanned step scanned with earlier | static
      · exact ih earlier
      · exact static

/-- Every process is removed once for each time that it is added if and only if `gethighestone`
clears no list that has changed since it saw one process in it. The other modes never do. -/
theorem removedOnce_iff_clearsAlone {actions : List Action}
    (callers : Respects (Interleaves config) (.start programs) actions AddsReturned) :
    (Always (Interleaves config) (.start programs) actions System.RemovedOnce ↔
      Respects (Interleaves config) (.start programs) actions ClearsAlone) ∧
    (config.staticPrior = false →
      Always (Interleaves config) (.start programs) actions System.RemovedOnce) := by
  have exact : Always (Interleaves config) (.start programs) actions System.RemovedOnce ↔
      Respects (Interleaves config) (.start programs) actions ClearsAlone :=
    always_iff_respects callers (Intact.start config programs)
      (fun ⟨_, keeps⟩ promised alone step => keeps.act promised alone step)
      (fun ⟨_, keeps⟩ => keeps.removedOnce)
      fun ⟨_, keeps⟩ _ step removed => keeps.clearsAlone step removed
  refine ⟨exact, fun dynamic => exact.mpr ?_⟩
  intro earlier action part before after trace step
  cases action with
  | unlink cpu =>
      intro p scanned
      have static := staticPrior_of_scanned trace scanned
      rw [dynamic] at static
      cases static
  | _ => trivial

/-- A CPU that no other thread interrupts runs `schedule`. -/
theorem uninterrupted {system : System} {cpu : Nat} (outside : system.phase cpu = .outside)
    {state : State} (schedules : schedule config system.state cpu = some state) :
    ∃ actions after, Trace (Interleaves config) system actions after ∧ after.state = state ∧
      after.phase cpu = .outside := by
  rw [schedule_eq] at schedules
  obtain ⟨⟨removed, pcblock⟩, removes, finishes⟩ := Option.bind_eq_some_iff.mp schedules
  have enters : Trace (Interleaves config) system ([] ++ [.schedule cpu])
      (system.setPhase cpu .entered) := .snoc .nil (by simp [Interleaves, act, outside])
  have ends : ∀ entered : System, Interleaves config (entered.take removed cpu pcblock)
      (.finish cpu) { (entered.take removed cpu pcblock).setPhase cpu .outside with state } := by
    intro entered
    simp [Interleaves, act, System.take, finishes]
  by_cases static : config.staticPrior
  · rw [if_pos static, gethighestone_eq] at removes
    obtain ⟨result, scans, removes⟩ := Option.bind_eq_some_iff.mp removes
    cases result with
    | none =>
        obtain ⟨rfl, rfl⟩ := Prod.mk.inj (Option.some.inj removes)
        have looks : Interleaves config (system.setPhase cpu .entered) (.scan cpu)
            ((system.setPhase cpu .entered).take system.state cpu none) := by
          simp [Interleaves, act, System.setPhase, static, scans]
        exact ⟨_, _, (enters.snoc looks).snoc (ends _), rfl, by simp [System.setPhase]⟩
    | some found =>
        obtain ⟨linked, unlinks, removes⟩ := Option.bind_eq_some_iff.mp removes
        obtain ⟨rfl, rfl⟩ := Prod.mk.inj (Option.some.inj removes)
        have looks : Interleaves config (system.setPhase cpu .entered) (.scan cpu)
            ((system.setPhase cpu .entered).setPhase cpu (.scanned found)) := by
          simp [Interleaves, act, System.setPhase, static, scans]
        have takes : Interleaves config
            ((system.setPhase cpu .entered).setPhase cpu (.scanned found)) (.unlink cpu)
            (((system.setPhase cpu .entered).setPhase cpu (.scanned found)).take linked cpu
              (some found.process)) := by
          simp [Interleaves, act, System.setPhase, unlinks]
        exact ⟨_, _, ((enters.snoc looks).snoc takes).snoc (ends _), rfl,
          by simp [System.setPhase]⟩
  · rw [if_neg static] at removes
    have takes : Interleaves config (system.setPhase cpu .entered) (.get cpu)
        ((system.setPhase cpu .entered).take removed cpu pcblock) := by
      simp [Interleaves, act, System.setPhase, static, Option.some.inj removes]
    exact ⟨_, _, (enters.snoc takes).snoc (ends _), rfl, by simp [System.setPhase]⟩

end Runs

/-- Two CPUs and three processes under static priorities. -/
def twoCpus : Config where
  cpuCount := 2
  processCount := 3
  staticPrior := true
  timeslice := -1

/-- Process `p` has priority `p + 1`. -/
def prioritized (p : Nat) : Program where
  pid := p.toUInt32
  staticPriority := p + 1
  ops := []

instance (before : System) : (action : Action) → Decidable (AddsReturned before action)
  | .addqueue _ => inferInstanceAs (Decidable (_ → _))
  | .schedule _ | .idle _ | .get _ | .scan _ | .unlink _ | .finish _ =>
      inferInstanceAs (Decidable True)

/-- A process is added after a CPU has found another one in a longer list, and the one which the CPU
removes is added again. -/
theorem removedOnce_iff_clearsAlone_twoCpus :
    Always (Interleaves twoCpus) (.start prioritized)
        [.addqueue 0, .addqueue 1, .idle 0, .scan 0, .addqueue 2, .unlink 0, .finish 0,
          .addqueue 1] System.RemovedOnce ↔
      Respects (Interleaves twoCpus) (.start prioritized)
        [.addqueue 0, .addqueue 1, .idle 0, .scan 0, .addqueue 2, .unlink 0, .finish 0,
          .addqueue 1] ClearsAlone :=
  (removedOnce_iff_clearsAlone (Respects.of_foldlM (by decide +kernel))).1

/-- A process that is added after a CPU has found a single one is lost. A process that two CPUs have
found alone is returned to both. -/
theorem cleared_unseen :
    (∃ system, Trace (Interleaves twoCpus) (.start prioritized)
        [.addqueue 0, .idle 0, .scan 0, .addqueue 1, .unlink 0] system ∧
      system.added 1 = true ∧ ¬system.Queued 1 ∧ system.takers 1 = []) ∧
    ∃ system, Trace (Interleaves twoCpus) (.start prioritized)
        [.addqueue 0, .idle 0, .idle 1, .scan 0, .scan 1, .unlink 0, .unlink 1] system ∧
      system.takers 0 = [1, 0] := by
  constructor
  · let actions : List Action := [.addqueue 0, .idle 0, .scan 0, .addqueue 1, .unlink 0]
    let system := (actions.foldlM (act twoCpus) (.start prioritized)).get (by decide)
    have empty : system.state.qHead = none := by decide
    refine ⟨system, .of_foldlM (Option.some_get _).symm, by decide, ?_, by decide⟩
    rintro ⟨first, head, -⟩
    rw [empty] at head
    cases head
  · let actions : List Action :=
      [.addqueue 0, .idle 0, .idle 1, .scan 0, .scan 1, .unlink 0, .unlink 1]
    let system := (actions.foldlM (act twoCpus) (.start prioritized)).get (by decide)
    exact ⟨system, .of_foldlM (Option.some_get _).symm, by decide⟩

end CS2200.Scheduling
