import CS2200.Scheduling.Policy
import CS2200.Scheduling.Simulator
import Mathlib.Data.List.Perm.Subperm
import Mathlib.Order.Basic

/-!
# The handlers refine the policy

A state shows a view when the ready list is linked in the order of the view and both arrays of
running processes agree with it. From such a state every handler ends, shows the view that the
policy prescribes, and leaves the simulator's data alone.
-/

namespace CS2200.Scheduling

open LinkedList

/-! ## Small facts about the state updates -/

namespace State

variable (state : State) (p : Nat)

@[simp] theorem next_setNext (next : Option Nat) :
    (state.setNext p next).next = Function.update state.next p next := by
  funext q
  by_cases same : q = p <;> simp [State.next, setNext, modifyPcb, same]

@[simp] theorem next_setState (status : ProcessState) :
    (state.setState p status).next = state.next := by
  funext q
  by_cases same : q = p <;> simp [State.next, setState, modifyPcb, same]

/-- The order in which `gethighestone` chooses, in the mode where it is used. -/
def rank (config : Config) : Option (Nat → Nat) :=
  if config.staticPrior then some fun p => (state.pcbs p).staticPriority else none

end State

/-- The state keeps the view: its ready list is linked, and both arrays of running processes and
the states of the processes are those of the view. -/
structure Shows (config : Config) (state : State) (view : View) : Prop where
  /-- The links of the ready list. -/
  list : IsList state.next state.qHead view.ready
  /-- Ready processes are entries of the table. -/
  inRange : ∀ p ∈ view.ready, p < config.processCount
  /-- The scheduler's array. -/
  current : state.current = view.current
  /-- The simulator's array. -/
  mirror : ∀ cpu, (state.cpuData cpu).current = view.current cpu
  /-- States of the processes. -/
  status : ∀ p, (state.pcbs p).state = view.status p

/-- Handlers change links, states of processes, the ready list and the data of CPUs only. -/
structure Kept (before after : State) : Prop where
  /-- Nothing else in the state differs. -/
  rest : after = { before with
    pcbs := after.pcbs
    qHead := after.qHead
    current := after.current
    cpuData := after.cpuData
    contextSwitches := after.contextSwitches
    processesTerminated := after.processesTerminated }
  /-- Nothing else in a process control block differs. -/
  pcbs : ∀ p, after.pcbs p =
    { before.pcbs p with state := (after.pcbs p).state, next := (after.pcbs p).next }

namespace Kept

variable {first second third : State}

theorem refl (state : State) : Kept state state := ⟨rfl, fun _ => rfl⟩

theorem trans (left : Kept first second) (right : Kept second third) : Kept first third where
  rest := by rw [right.rest, left.rest]
  pcbs p := by rw [right.pcbs p, left.pcbs p]

theorem staticPriority (kept : Kept first second) (p : Nat) :
    (second.pcbs p).staticPriority = (first.pcbs p).staticPriority := by rw [kept.pcbs p]

theorem rank (kept : Kept first second) (config : Config) :
    second.rank config = first.rank config := by
  simp only [State.rank, kept.staticPriority]

theorem setState (state : State) (p : Nat) (status : ProcessState) :
    Kept state (state.setState p status) where
  rest := rfl
  pcbs q := by by_cases same : q = p <;> simp [State.setState, State.modifyPcb, same]

theorem modifyCpu (state : State) (cpu : Nat) (change : CpuData → CpuData) :
    Kept state (state.modifyCpu cpu change) := ⟨rfl, fun _ => rfl⟩

end Kept

/-- Only the ready list and its links differ. -/
structure LinksOnly (before after : State) : Prop where
  /-- Nothing else in the state differs. -/
  rest : after = { before with pcbs := after.pcbs, qHead := after.qHead }
  /-- Nothing else in a process control block differs. -/
  pcbs : ∀ p, after.pcbs p = { before.pcbs p with next := (after.pcbs p).next }

namespace LinksOnly

variable {first second third : State}

theorem refl (state : State) : LinksOnly state state := ⟨rfl, fun _ => rfl⟩

theorem trans (left : LinksOnly first second) (right : LinksOnly second third) :
    LinksOnly first third where
  rest := by rw [right.rest, left.rest]
  pcbs p := by rw [right.pcbs p, left.pcbs p]

theorem setNext (state : State) (p : Nat) (next : Option Nat) :
    LinksOnly state (state.setNext p next) where
  rest := rfl
  pcbs q := by by_cases same : q = p <;> simp [State.setNext, State.modifyPcb, same]

theorem setHead (state : State) (head : Option Nat) : LinksOnly state { state with qHead := head } :=
  ⟨rfl, fun _ => rfl⟩

theorem kept (only : LinksOnly first second) : Kept first second where
  rest := by rw [only.rest]
  pcbs p := by rw [only.pcbs p]

theorem current (only : LinksOnly first second) : second.current = first.current := by
  rw [only.rest]

theorem cpuData (only : LinksOnly first second) : second.cpuData = first.cpuData := by
  rw [only.rest]

theorem status (only : LinksOnly first second) (p : Nat) :
    (second.pcbs p).state = (first.pcbs p).state := by rw [only.pcbs p]

end LinksOnly

/-! ## The ready list -/

section ReadyList

variable {config : Config} {state : State} {ready : List Nat} {p : Nat}

/-- The bound on the loops is no shorter than a list of processes. -/
theorem length_le_of_isList {bound : Nat} (list : IsList state.next state.qHead ready)
    (inRange : ∀ p ∈ ready, p < bound) : ready.length ≤ bound := by
  have inside : ready ⊆ List.range bound := fun q member => List.mem_range.mpr (inRange q member)
  simpa using (List.subperm_of_subset list.nodup inside).length_le

theorem addqueue_spec (list : IsList state.next state.qHead ready)
    (inRange : ∀ p ∈ ready, p < config.processCount) (outside : p ∉ ready) :
    ∃ after, addqueue config state p = some after ∧
      IsList after.next after.qHead (ready ++ [p]) ∧ LinksOnly state after := by
  cases head : state.qHead with
  | none =>
      obtain rfl := list.head_eq_none_iff.mp head
      refine ⟨{ state.setNext p none with qHead := some p }, by simp [addqueue, head], ?_,
        (LinksOnly.setNext state p none).trans (.setHead _ _)⟩
      have next : State.next { state.setNext p none with qHead := some p } =
          Function.update state.next p none := state.next_setNext p none
      rw [next]
      exact ⟨rfl, by simp [IsList]⟩
  | some first =>
      have whole := length_le_of_isList list inRange
      rw [head] at list
      obtain rfl | ⟨earlier, last, rfl⟩ := List.eq_nil_or_concat' ready
      · cases list
      · have ended := list.update_of_notMem outside none
        rw [← state.next_setNext] at ended
        have walk := ended.lastFrom_eq
          (by simp at whole; omega : earlier.length < config.processCount)
        refine ⟨(state.setNext p none).setNext last (some p), ?_, ?_,
          (LinksOnly.setNext _ _ _).trans (.setNext _ _ _)⟩
        · simp only [addqueue, head, walk, bind, Option.bind_some]
        · have unchanged : ((state.setNext p none).setNext last (some p)).qHead = some first := head
          rw [State.next_setNext _ last, List.append_assoc, unchanged]
          exact ended.snoc outside (by simp)

/-- The scan of `gethighestone` finds the first process of highest priority, if any is higher than
the bound that it starts with. -/
theorem foldl_higher (state : State) (nodes : List Nat) (found : Nat × Option Nat) :
    (nodes.foldl (higher state) found = found ∧
        ∀ q ∈ nodes, (state.pcbs q).staticPriority ≤ found.1) ∨
      ∃ earlier p later, nodes = earlier ++ p :: later ∧
        nodes.foldl (higher state) found = ((state.pcbs p).staticPriority, some p) ∧
        found.1 < (state.pcbs p).staticPriority ∧
        (∀ q ∈ earlier, (state.pcbs q).staticPriority < (state.pcbs p).staticPriority) ∧
        ∀ q ∈ later, (state.pcbs q).staticPriority ≤ (state.pcbs p).staticPriority := by
  induction nodes generalizing found with
  | nil => exact .inl ⟨rfl, by simp⟩
  | cons node nodes ih =>
      rw [List.foldl_cons]
      by_cases better : found.1 < (state.pcbs node).staticPriority
      · have next : higher state found node = ((state.pcbs node).staticPriority, some node) := by
          simp [higher, better]
        rw [next]
        rcases ih ((state.pcbs node).staticPriority, some node) with ⟨same, least⟩ |
          ⟨earlier, p, later, split, result, greater, before, behind⟩
        · exact .inr ⟨[], node, nodes, rfl, same, better, by simp, least⟩
        · refine .inr ⟨node :: earlier, p, later, by rw [split, List.cons_append], result,
            Nat.lt_trans better greater, ?_, behind⟩
          intro q inside
          rcases List.mem_cons.mp inside with rfl | inside
          · exact greater
          · exact before q inside
      · have next : higher state found node = found := by simp [higher, better]
        rw [next]
        have notBetter := Nat.not_lt.mp better
        rcases ih found with ⟨same, least⟩ |
          ⟨earlier, p, later, split, result, greater, before, behind⟩
        · refine .inl ⟨same, fun q inside => ?_⟩
          rcases List.mem_cons.mp inside with rfl | inside
          · exact notBetter
          · exact least q inside
        · refine .inr ⟨node :: earlier, p, later, by rw [split, List.cons_append], result, greater,
            ?_, behind⟩
          intro q inside
          rcases List.mem_cons.mp inside with rfl | inside
          · exact Nat.lt_of_le_of_lt notBetter greater
          · exact before q inside

theorem get_spec (list : IsList state.next state.qHead (p :: ready)) :
    get state = ({ state with qHead := state.next p }, some p) := by
  simp [get, list.1]

/-- `gethighestone` removes the first process of highest priority from a list that has only one
process or one of positive priority. -/
theorem gethighestone_spec (list : IsList state.next state.qHead ready)
    (inRange : ∀ p ∈ ready, p < config.processCount) (nonempty : ready ≠ [])
    (found : ready.length ≤ 1 ∨ ∃ p ∈ ready, 0 < (state.pcbs p).staticPriority) :
    ∃ after earlier p later, gethighestone config state = some (after, some p) ∧
      ready = earlier ++ p :: later ∧
      (∀ q ∈ earlier, (state.pcbs q).staticPriority < (state.pcbs p).staticPriority) ∧
      (∀ q ∈ later, (state.pcbs q).staticPriority ≤ (state.pcbs p).staticPriority) ∧
      IsList after.next after.qHead (earlier ++ later) ∧ LinksOnly state after := by
  obtain ⟨first, rest, rfl⟩ := List.exists_cons_of_ne_nil nonempty
  have whole := length_le_of_isList list inRange
  have head : state.qHead = some first := list.1
  by_cases single : state.next first = none
  · have empty : rest = [] := list.2.head_eq_none_iff.mp single
    subst empty
    refine ⟨{ state with qHead := none }, [], first, [], by simp [gethighestone, head, single], rfl,
      by simp, by simp, ?_, .setHead _ _⟩
    simp [IsList]
  · have several : rest ≠ [] := fun empty => single (list.2.head_eq_none_iff.mpr empty)
    obtain ⟨positive, inside, above⟩ := found.resolve_left fun short =>
      several (List.eq_nil_of_length_eq_zero (by simpa using short))
    rw [head] at list
    have scan := list.foldFrom_eq (higher state) (0, none) whole
    rcases foldl_higher state (first :: rest) (0, none) with ⟨-, least⟩ |
      ⟨earlier, highest, later, split, result, -, before, behind⟩
    · exact absurd above (Nat.not_lt.mpr (least positive inside))
    · rw [result] at scan
      obtain rfl | ⟨others, previous, rfl⟩ := List.eq_nil_or_concat' earlier
      · obtain ⟨rfl, rfl⟩ := List.cons.inj split
        refine ⟨{ state with qHead := state.next first }, [], first, rest, ?_, rfl, before, behind,
          list.2, .setHead _ _⟩
        simp [gethighestone, head, single, scan]
      · rw [split, List.append_assoc, List.singleton_append] at list
        have distinct : highest ≠ first := by
          rintro rfl
          have start : ∃ tail, others ++ [previous] = highest :: tail := by
            cases others with
            | nil => exact ⟨[], by rw [(List.cons.inj split).1]; rfl⟩
            | cons other others => exact ⟨others ++ [previous], by rw [(List.cons.inj split).1]; rfl⟩
          obtain ⟨tail, starts⟩ := start
          exact Nat.lt_irrefl _ (before highest (by rw [starts]; exact List.mem_cons_self))
        have bound : others.length < config.processCount := by
          rw [split] at whole
          simp only [List.length_append, List.length_cons] at whole
          omega
        have walk := list.predecessorFrom_eq bound
        refine ⟨state.setNext previous (state.next highest), others ++ [previous], highest, later,
          ?_, split, before, behind, ?_, .setNext _ _ _⟩
        · simp [gethighestone, head, single, scan, distinct, walk]
        · have unchanged : (state.setNext previous (state.next highest)).qHead = some first := head
          rw [unchanged, State.next_setNext, List.append_assoc]
          exact list.unlink

end ReadyList

/-! ## Filling a CPU -/

/-- Static priorities are between 1 and 10. -/
def State.Ranked (config : Config) (state : State) : Prop :=
  ∀ p < config.processCount,
    1 ≤ (state.pcbs p).staticPriority ∧ (state.pcbs p).staticPriority ≤ 10

theorem Kept.ranked {config : Config} {before after : State} (kept : Kept before after)
    (ranked : before.Ranked config) : after.Ranked config := by
  intro p inRange
  rw [kept.staticPriority]
  exact ranked p inRange

section Handlers

variable {config : Config} {state : State} {view : View} {cpu p : Nat}

/-- `schedule` takes a process that the policy allows off the ready list, if there is one. -/
theorem take_spec (shows : Shows config state view) (ranked : state.Ranked config) :
    ∃ linked chosen, (if config.staticPrior then gethighestone config state
        else some (get state)) = some (linked, chosen) ∧ LinksOnly state linked ∧
      (chosen = none ∧ view.ready = [] ∧ IsList linked.next linked.qHead [] ∨
        ∃ p, chosen = some p ∧ p ∈ view.ready ∧
          (∀ priority, state.rank config = some priority →
            ∀ q ∈ view.ready, priority q ≤ priority p) ∧
          IsList linked.next linked.qHead (view.ready.erase p)) := by
  have list := shows.list
  cases ready : view.ready with
  | nil =>
      rw [ready] at list
      have empty : state.qHead = none := list
      refine ⟨state, none, ?_, .refl _, .inl ⟨rfl, rfl, empty⟩⟩
      split
      · simp [gethighestone, empty]
      · simp [get, empty]
  | cons first rest =>
      rw [ready] at list
      have inRange := ready ▸ shows.inRange
      split
      case isTrue static =>
        obtain ⟨linked, earlier, p, later, result, split, before, behind, linkedList, only⟩ :=
          gethighestone_spec list inRange (by simp) (.inr
            ⟨first, List.mem_cons_self, (ranked first (inRange first List.mem_cons_self)).1⟩)
        have outside : p ∉ earlier := fun inside => Nat.lt_irrefl _ (before p inside)
        have erased : (first :: rest).erase p = earlier ++ later := by
          rw [split, List.erase_append_right _ outside, List.erase_cons_head]
        refine ⟨linked, some p, result, only,
          .inr ⟨p, rfl, by rw [split]; simp, ?_, erased ▸ linkedList⟩⟩
        intro priority isRank q member
        obtain rfl := Option.some.inj ((if_pos static).symm.trans isRank)
        rw [split] at member
        rcases List.mem_append.mp member with member | member
        · exact Nat.le_of_lt (before q member)
        · rcases List.mem_cons.mp member with rfl | member
          · exact Nat.le_refl _
          · exact behind q member
      case isFalse notStatic =>
        refine ⟨_, _, congrArg some (get_spec list), .setHead _ _,
          .inr ⟨first, rfl, List.mem_cons_self, ?_, ?_⟩⟩
        · intro priority isRank
          cases (if_neg notStatic).symm.trans isRank
        · rw [List.erase_cons_head]
          exact list.2

/-- A handler ends in a state that shows a view. It leaves the states of the CPU threads alone. -/
structure Handles (config : Config) (before after : State) (next : View) : Prop where
  /-- The view of the state in which the handler ends. -/
  shows : Shows config after next
  /-- The handler keeps the rest of the state. -/
  kept : Kept before after
  /-- States of the CPU threads. -/
  threads : ∀ cpu, (after.cpuData cpu).state = (before.cpuData cpu).state

private theorem schedule_of_take {linked : State} {chosen : Option Nat}
    (take : (if config.staticPrior then gethighestone config state else some (get state)) =
      some (linked, chosen)) :
    schedule config state cpu =
      contextSwitch config
        { chosen.elim linked (linked.setState · .running) with
          current := Function.update linked.current cpu chosen }
        cpu chosen config.timeslice := by
  unfold schedule
  split at take
  · cases chosen <;> simp [*, State.setState, State.modifyPcb]
  · obtain rfl := congrArg Prod.fst (Option.some.inj take)
    obtain rfl := congrArg Prod.snd (Option.some.inj take)
    cases chosen : (get state).2 <;> simp [*, State.setState, State.modifyPcb]

/-- `schedule` fills the CPU as the policy says. -/
theorem schedule_spec (shows : Shows config state view) (ranked : state.Ranked config)
    (inRange : cpu < config.cpuCount) :
    ∃ after next, schedule config state cpu = some after ∧
      view.Schedules (state.rank config) cpu next ∧ Handles config state after next := by
  obtain ⟨linked, chosen, take, only, choice⟩ := take_spec shows ranked
  have current : ∀ chosen, Function.update linked.current cpu chosen =
      Function.update view.current cpu chosen := by
    intro chosen
    rw [only.current, shows.current]
  have mirror : ∀ data other, (Function.update linked.cpuData cpu data other).current =
      Function.update view.current cpu data.current other := by
    intro data other
    by_cases here : other = cpu
    · simp [here]
    · simp [here, only.cpuData, shows.mirror]
  have cpuState : ∀ data other, data.state = (linked.cpuData cpu).state →
      (Function.update linked.cpuData cpu data other).state = (state.cpuData other).state := by
    intro data other same
    by_cases here : other = cpu
    · simp [here, same, only.cpuData]
    · simp [here, only.cpuData]
  rcases choice with ⟨rfl, empty, list⟩ | ⟨p, rfl, member, greatest, list⟩
  · have switch : schedule config state cpu = some
        ({ linked with
          current := Function.update linked.current cpu none
          contextSwitches := linked.contextSwitches + 1 }.modifyCpu cpu fun data =>
            { data with current := none, preemptionTimer := config.timeslice }) := by
      rw [schedule_of_take take]
      simp [contextSwitch, inRange]
    refine ⟨_, { view with current := Function.update view.current cpu none }, switch,
      .idle empty, ⟨?_, shows.inRange, current none, fun other => mirror _ other,
        fun q => (only.status q).trans (shows.status q)⟩,
      only.kept.trans ⟨rfl, fun _ => rfl⟩, fun other => cpuState _ other rfl⟩
    rw [← empty] at list
    exact list
  · have known := shows.inRange p member
    have switch : schedule config state cpu = some
        ({ linked.setState p .running with
          current := Function.update linked.current cpu (some p)
          contextSwitches := linked.contextSwitches + 1 }.modifyCpu cpu fun data =>
            { data with current := some p, preemptionTimer := config.timeslice }) := by
      rw [schedule_of_take take]
      simp [contextSwitch, inRange, known, State.setState, State.modifyPcb]
    refine ⟨_, view.run cpu p, switch, .run member greatest,
      ⟨?_, fun q ready => shows.inRange q (List.mem_of_mem_erase ready), current (some p),
        fun other => mirror _ other, fun q => ?_⟩,
      (only.kept.trans (.setState linked p .running)).trans ⟨rfl, fun _ => rfl⟩,
      fun other => cpuState _ other rfl⟩
    · rw [← linked.next_setState p .running] at list
      exact list
    · by_cases same : q = p
      · simp [View.run, State.modifyCpu, State.setState, State.modifyPcb, same]
      · simp [View.run, State.modifyCpu, State.setState, State.modifyPcb, same, only.status,
          shows.status]

theorem Shows.modifyCpu (shows : Shows config state view) (cpu : Nat) {change : CpuData → CpuData}
    (same : ∀ data, (change data).current = data.current) :
    Shows config (state.modifyCpu cpu change) view where
  list := shows.list
  inRange := shows.inRange
  current := shows.current
  mirror other := by
    by_cases here : other = cpu
    · simp [State.modifyCpu, here, same, shows.mirror]
    · simp [State.modifyCpu, here, shows.mirror]
  status := shows.status

theorem Shows.signal (shows : Shows config state view) (cpu : Nat) (event : CpuState) :
    Shows config (state.signal cpu event) view :=
  shows.modifyCpu cpu fun _ => rfl

theorem Shows.setState (shows : Shows config state view) (p : Nat) (status : ProcessState) :
    Shows config (state.setState p status)
      { view with status := Function.update view.status p status } where
  list := by
    rw [state.next_setState]
    exact shows.list
  inRange := shows.inRange
  current := shows.current
  mirror := shows.mirror
  status q := by
    by_cases same : q = p
    · simp [State.setState, State.modifyPcb, same]
    · simp [State.setState, State.modifyPcb, same, shows.status]

/-- Marking a process and `addqueue` make it ready. -/
theorem enqueue_spec (shows : Shows config state view) (outside : p ∉ view.ready)
    (inRange : p < config.processCount) :
    ∃ after, addqueue config (state.setState p .ready) p = some after ∧
      Handles config state after (view.enqueue p) := by
  have marked := shows.setState p .ready
  obtain ⟨after, result, list, only⟩ := addqueue_spec marked.list marked.inRange outside
  refine ⟨after, result, ⟨list, ?_, ?_, ?_, fun q => (only.status q).trans (marked.status q)⟩,
    (Kept.setState state p .ready).trans only.kept, ?_⟩
  · intro q member
    rcases List.mem_append.mp member with member | single
    · exact shows.inRange q member
    · exact List.mem_singleton.mp single ▸ inRange
  · rw [only.current]
    exact shows.current
  · rw [only.cpuData]
    exact shows.mirror
  · intro other
    rw [only.cpuData]
    rfl

/-- `preempt` lets the process of the CPU wait in the ready list and chooses again. -/
theorem preempt_spec (shows : Shows config state view) (ranked : state.Ranked config)
    (wellFormed : view.WellFormed config.cpuCount config.processCount)
    (current : view.current cpu = some p) :
    ∃ after next, preempt config state cpu = some after ∧
      view.Preempts (state.rank config) cpu next ∧ Handles config state after next := by
  have running := wellFormed.running.mpr ⟨cpu, current⟩
  obtain ⟨queued, queuing, enqueued⟩ := enqueue_spec shows (wellFormed.notMem_ready current)
    (wellFormed.processes (by simp [running]))
  obtain ⟨after, next, switch, step, handles⟩ := schedule_spec enqueued.shows
    (enqueued.kept.ranked ranked) (wellFormed.cpus current)
  have occupied : state.current cpu = some p := (congrFun shows.current cpu).trans current
  refine ⟨after, next, ?_, ⟨p, current, ?_⟩, handles.shows, enqueued.kept.trans handles.kept,
    fun other => (handles.threads other).trans (enqueued.threads other)⟩
  · simp [preempt, occupied, queuing, switch]
  · rw [enqueued.kept.rank] at step
    simpa [View.enqueue, View.release] using step.vacate

theorem leave_spec (shows : Shows config state view) (ranked : state.Ranked config)
    (wellFormed : view.WellFormed config.cpuCount config.processCount)
    (current : view.current cpu = some p) (status : ProcessState) :
    ∃ after next, schedule config (state.setState p status) cpu = some after ∧
      view.Leaves (state.rank config) cpu status next ∧ Handles config state after next := by
  have kept := Kept.setState state p status
  obtain ⟨after, next, switch, step, handles⟩ := schedule_spec (shows.setState p status)
    (kept.ranked ranked) (wellFormed.cpus current)
  refine ⟨after, next, switch, ⟨p, current, ?_⟩, handles.shows, kept.trans handles.kept,
    handles.threads⟩
  rw [kept.rank] at step
  exact step.vacate

/-! ## Events -/

/-- Every CPU thread waits, idle or running as the simulator's array says. -/
def State.Steady (state : State) : Prop :=
  ∀ cpu, (state.cpuData cpu).state =
    if (state.cpuData cpu).current = none then .idle else .running

/-- An event ends in a state that shows a view, with every CPU thread waiting. -/
structure Serves (config : Config) (before after : State) (next : View) : Prop where
  /-- The view of the state in which the event ends. -/
  shows : Shows config after next
  /-- The event keeps the rest of the state. -/
  kept : Kept before after
  /-- The CPU threads wait. -/
  steady : after.Steady

/-- Once the handler of an event has ended, the thread of the CPU waits again. -/
theorem dispatch_spec {started : State} {event : CpuState} {handled : Option State}
    {allowed : View → Prop}
    (ends : ∃ after next, handled = some after ∧ allowed next ∧ Handles config started after next)
    (starts : Kept state started) (data : started.cpuData = (state.signal cpu event).cpuData)
    (steady : state.Steady) (shows : Shows config state view)
    (others : ∀ next, allowed next → ∀ other, other ≠ cpu → next.current other = view.current other)
    (dispatches : dispatch config state cpu event = handled.bind fun after =>
      some (after.settle cpu)) :
    ∃ after next, dispatch config state cpu event = some after ∧ allowed next ∧
      Serves config state after next := by
  obtain ⟨after, next, rfl, step, handles⟩ := ends
  refine ⟨_, next, dispatches, step, handles.shows.modifyCpu cpu fun _ => rfl,
    (starts.trans handles.kept).trans (.modifyCpu _ _ _), fun other => ?_⟩
  by_cases here : other = cpu
  · simp [State.settle, State.modifyCpu, here]
  · have thread := handles.threads other
    have current : (after.cpuData other).current = (state.cpuData other).current := by
      rw [handles.shows.mirror, others next step other here, shows.mirror]
    rw [data] at thread
    simpa [State.signal, State.settle, State.modifyCpu, here, thread, current] using steady other

variable (shows : Shows config state view) (ranked : state.Ranked config) (steady : state.Steady)
  (wellFormed : view.WellFormed config.cpuCount config.processCount)
  (current : view.current cpu = some p)

include shows ranked steady

theorem dispatch_idle (inRange : cpu < config.cpuCount) :
    ∃ after next, dispatch config state cpu .idle = some after ∧
      view.Schedules (state.rank config) cpu next ∧ Serves config state after next := by
  have scheduled := schedule_spec (shows.signal cpu .idle) ranked inRange
  exact dispatch_spec scheduled (.modifyCpu _ _ _) rfl steady shows
    (fun _ step _ => step.current_of_ne) rfl

include wellFormed current

theorem dispatch_preempt :
    ∃ after next, dispatch config state cpu .preempt = some after ∧
      view.Preempts (state.rank config) cpu next ∧ Serves config state after next := by
  have preempted := preempt_spec (shows.signal cpu .preempt) ranked wellFormed current
  exact dispatch_spec preempted (.modifyCpu _ _ _) rfl steady shows
    (fun _ step _ => step.current_of_ne) rfl

theorem dispatch_yield :
    ∃ after next, dispatch config state cpu .yield = some after ∧
      view.Leaves (state.rank config) cpu .waiting next ∧ Serves config state after next := by
  have occupied : state.current cpu = some p := (congrFun shows.current cpu).trans current
  have left := leave_spec (shows.signal cpu .yield) ranked wellFormed current .waiting
  refine dispatch_spec left (.modifyCpu _ _ _) rfl steady shows
    (fun _ step _ => step.current_of_ne) ?_
  simp [dispatch, yield, State.signal, State.modifyCpu, occupied]

theorem dispatch_terminate :
    ∃ after next, dispatch config state cpu .terminate = some after ∧
      view.Leaves (state.rank config) cpu .terminated next ∧ Serves config state after next := by
  have occupied : state.current cpu = some p := (congrFun shows.current cpu).trans current
  have counted : Shows config
      { state.signal cpu .terminate with
        processesTerminated := state.processesTerminated + 1 } view :=
    ⟨shows.list, shows.inRange, shows.current, (shows.signal cpu .terminate).mirror, shows.status⟩
  have left := leave_spec counted ranked wellFormed current .terminated
  refine dispatch_spec left ⟨rfl, fun _ => rfl⟩ rfl steady shows
    (fun _ step _ => step.current_of_ne) ?_
  simp [dispatch, terminate, State.signal, State.modifyCpu, occupied]

omit shows ranked steady wellFormed current

/-! ## Waking a process -/

/-- The scan of `wake_up` gives up at an idle CPU only. -/
theorem findLows_eq_none {cpus : List Nat} {found : Nat × Option Nat}
    (gaveUp : findLows state cpus found = none) : ∃ cpu ∈ cpus, state.current cpu = none := by
  induction cpus generalizing found with
  | nil => cases gaveUp
  | cons cpu cpus ih =>
      cases current : state.current cpu with
      | none => exact ⟨cpu, List.mem_cons_self, current⟩
      | some p =>
          have tail : ∃ found, findLows state cpus found = none := by
            simp only [findLows, current] at gaveUp
            split at gaveUp
            · exact ⟨_, gaveUp⟩
            · exact ⟨_, gaveUp⟩
          obtain ⟨found, tail⟩ := tail
          obtain ⟨idle, member, none⟩ := ih tail
          exact ⟨idle, List.mem_cons_of_mem cpu member, none⟩

/-- Otherwise it finds a CPU whose process has least priority, or no priority below the first
value. -/
theorem findLows_eq_some {cpus : List Nat} {found least : Nat × Option Nat}
    (result : findLows state cpus found = some least) :
    (∀ cpu ∈ cpus, ∃ p, state.current cpu = some p ∧
        least.1 ≤ (state.pcbs p).staticPriority) ∧ least.1 ≤ found.1 ∧
      (least = found ∨ ∃ cpu ∈ cpus, ∃ p, state.current cpu = some p ∧
        least = ((state.pcbs p).staticPriority, some cpu)) := by
  induction cpus generalizing found with
  | nil =>
      obtain rfl := Option.some.inj result
      exact ⟨by simp, Nat.le_refl _, .inl rfl⟩
  | cons cpu cpus ih =>
      cases current : state.current cpu with
      | none => simp [findLows, current] at result
      | some p =>
          simp only [findLows, current] at result
          split at result
          case isTrue lower =>
            obtain ⟨all, below, found⟩ := ih result
            refine ⟨?_, Nat.le_of_lt (Nat.lt_of_le_of_lt below lower), .inr ?_⟩
            · rintro other member
              rcases List.mem_cons.mp member with rfl | member
              · exact ⟨p, current, below⟩
              · exact all other member
            · rcases found with rfl | ⟨other, member, q, occupied, equal⟩
              · exact ⟨cpu, List.mem_cons_self, p, current, rfl⟩
              · exact ⟨other, List.mem_cons_of_mem cpu member, q, occupied, equal⟩
          case isFalse notLower =>
            obtain ⟨all, below, found⟩ := ih result
            refine ⟨?_, below, found.imp_right ?_⟩
            · rintro other member
              rcases List.mem_cons.mp member with rfl | member
              · exact ⟨p, current, Nat.le_trans below (Nat.not_lt.mp notLower)⟩
              · exact all other member
            · rintro ⟨other, member, occupied⟩
              exact ⟨other, List.mem_cons_of_mem cpu member, occupied⟩

theorem wakeUp_spec (shows : Shows config state view) (ranked : state.Ranked config)
    (steady : state.Steady) (wellFormed : view.WellFormed config.cpuCount config.processCount)
    (notReady : view.status p ≠ .ready) (notRunning : view.status p ≠ .running)
    (inRange : p < config.processCount) :
    ∃ after next, wakeUp config state p = some after ∧
      view.Wakes (state.rank config) config.cpuCount p next ∧ Serves config state after next := by
  obtain ⟨queued, queuing, enqueued⟩ := enqueue_spec shows
    (fun member => notReady (wellFormed.ready.mp member)) inRange
  have waiting : queued.Steady := by
    intro cpu
    have same : (queued.cpuData cpu).current = (state.cpuData cpu).current :=
      (enqueued.shows.mirror cpu).trans (shows.mirror cpu).symm
    rw [enqueued.threads, same]
    exact steady cpu
  have quietly : Serves config state queued (view.enqueue p) :=
    ⟨enqueued.shows, enqueued.kept, waiting⟩
  have occupied : ∀ cpu, queued.current cpu = view.current cpu := congrFun enqueued.shows.current
  by_cases static : config.staticPrior
  case neg =>
    refine ⟨queued, _, by simp [wakeUp, queuing, static], .quiet fun priority isRank => ?_, quietly⟩
    cases (if_neg static).symm.trans isRank
  have rank : state.rank config = some fun p => (queued.pcbs p).staticPriority := by
    rw [← enqueued.kept.rank]
    exact if_pos static
  rw [rank]
  cases scan : findLows queued (List.range config.cpuCount) (10, none) with
  | none =>
      obtain ⟨idle, inRange, none⟩ := findLows_eq_none scan
      refine ⟨queued, _, by simp [wakeUp, queuing, static, scan], .quiet fun _ _ => ?_, quietly⟩
      exact .inl ⟨idle, List.mem_range.mp inRange, (occupied idle).symm.trans none⟩
  | some least =>
      obtain ⟨lows, stop⟩ := least
      obtain ⟨all, below, found⟩ := findLows_eq_some scan
      by_cases lower : lows < (queued.pcbs p).staticPriority
      case neg =>
        refine ⟨queued, _, by simp [wakeUp, queuing, static, scan, lower], ?_, quietly⟩
        refine .quiet fun priority isRank => .inr fun cpu inRange q current => ?_
        obtain ⟨r, runs, least⟩ := all cpu (List.mem_range.mpr inRange)
        obtain rfl := Option.some.inj (((occupied cpu).symm.trans runs).symm.trans current).symm
        obtain rfl := Option.some.inj isRank
        exact Nat.le_trans (Nat.not_lt.mp lower) least
      case pos =>
        rcases found with unchanged | ⟨cpu, inside, q, runs, least⟩
        · have bounded := (enqueued.kept.ranked ranked p inRange).2
          have ten : lows = 10 := congrArg Prod.fst unchanged
          omega
        · obtain ⟨rfl, rfl⟩ := Prod.mk.inj least
          have cpuInRange := List.mem_range.mp inside
          have current : view.current cpu = some q := (occupied cpu).symm.trans runs
          have executes : (queued.cpuData cpu).state = .running := by
            rw [waiting, enqueued.shows.mirror]
            simp [View.enqueue, current]
          obtain ⟨after, next, result, step, serves⟩ := dispatch_preempt enqueued.shows
            (enqueued.kept.ranked ranked) waiting (wellFormed.enqueue notReady notRunning inRange)
            current
          refine ⟨after, next, ?_, ?_, serves.shows, enqueued.kept.trans serves.kept,
            serves.steady⟩
          · simp [wakeUp, queuing, static, scan, lower, forcePreempt, cpuInRange, executes, result]
          · rw [enqueued.kept.rank, rank] at step
            refine .preempts rfl cpuInRange current lower (fun other inRange => ?_) step
            obtain ⟨r, runs, least⟩ := all other (List.mem_range.mpr inRange)
            exact ⟨r, (occupied other).symm.trans runs, least⟩

end Handlers

/-! ## The first state -/

/-- The view of the first state. -/
def View.start : View where
  ready := []
  current _ := none
  status _ := .new

theorem View.WellFormed.start (cpuCount processCount : Nat) :
    View.start.WellFormed cpuCount processCount := by
  constructor <;> simp [View.start]

theorem startSimulator_serves (config : Config) (programs : Nat → Program) :
    Serves config (startSimulator programs) (startSimulator programs) View.start where
  shows := ⟨rfl, by simp [View.start], rfl, fun _ => rfl, fun _ => rfl⟩
  kept := .refl _
  steady _ := rfl

end CS2200.Scheduling
