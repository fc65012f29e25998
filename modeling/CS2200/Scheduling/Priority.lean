import CS2200.Scheduling.Refinement
import CS2200.Library.Trace
import Mathlib.Logic.Relation

/-!
# Static priorities

A call of the simulator is followed by the idle CPUs filling themselves until none can. Between two
such rounds the view is ordered: no ready process has a higher priority than a running one, and no
CPU is idle while a process is ready. Within a round the view is ordered, or exactly one process is
ready and a CPU is idle.
-/

namespace CS2200.Scheduling

open LinkedList

/-! ## Ordered views -/

namespace View

/-- No ready process waits for a process of lower priority or for an idle CPU. -/
structure Ordered (priority : Nat → Nat) (cpuCount : Nat) (view : View) : Prop where
  /-- Running processes have the highest priorities. -/
  highest : ∀ p ∈ view.ready, ∀ cpu q, view.current cpu = some q → priority p ≤ priority q
  /-- CPUs are idle only if no process is ready. -/
  busy : ∀ cpu < cpuCount, view.current cpu = none → view.ready = []

/-- One process is ready and waits for an idle CPU. -/
def Pending (cpuCount : Nat) (view : View) : Prop :=
  ∃ p, view.ready = [p] ∧ ∃ cpu < cpuCount, view.current cpu = none

namespace Ordered

variable {priority : Nat → Nat} {cpuCount processCount cpu p : Nat} {view after : View}

/-- What filling one CPU needs of the others. -/
theorem run (nodup : view.ready.Nodup) (greatest : ∀ q ∈ view.ready, priority q ≤ priority p)
    (others : ∀ q ∈ view.ready, q ≠ p → ∀ other, other ≠ cpu → ∀ r, view.current other = some r →
      priority q ≤ priority r)
    (idle : ∀ other < cpuCount, other ≠ cpu → view.current other = none → view.ready = [p]) :
    Ordered priority cpuCount (view.run cpu p) where
  highest := by
    intro q member other r runs
    obtain ⟨different, ready⟩ := nodup.mem_erase_iff.mp member
    by_cases here : other = cpu
    · subst here
      have same : some p = some r := by simpa [View.run] using runs
      obtain rfl := Option.some.inj same
      exact greatest q ready
    · have keeps : view.current other = some r := by simpa [View.run, here] using runs
      exact others q ready different other here r keeps
  busy := by
    intro other inRange none
    have here : other ≠ cpu := by
      rintro rfl
      simp [View.run] at none
    have keeps : view.current other = Option.none := by simpa [View.run, here] using none
    simp [View.run, idle other inRange here keeps]

private theorem leaves (ordered : Ordered priority cpuCount view) {status : ProcessState}
    (wellFormed : view.WellFormed cpuCount processCount)
    (step : Leaves (some priority) cpu status view after) : Ordered priority cpuCount after := by
  obtain ⟨p, current, step⟩ := step
  have others : ∀ {other}, other ≠ cpu →
      (view.release cpu p status).current other = view.current other := by
    intro other different
    simp [View.release, different]
  cases step with
  | idle empty => exact ⟨by simp [empty], fun _ _ _ => empty⟩
  | @run chosen member greatest =>
      refine run wellFormed.nodup (greatest priority rfl) ?_ ?_
      · intro q ready _ other different r runs
        rw [others different] at runs
        exact ordered.highest q ready other r runs
      · intro other inRange different none
        rw [others different] at none
        have empty : view.ready = [] := ordered.busy other inRange none
        rw [show (view.release cpu p status).ready = [] from empty] at member
        simp at member

/-- The process of a CPU is preempted. When another process is chosen for the CPU, it has the same
priority. -/
theorem preempts (ordered : Ordered priority cpuCount view)
    (wellFormed : view.WellFormed cpuCount processCount)
    (step : Preempts (some priority) cpu view after) : Ordered priority cpuCount after := by
  obtain ⟨p, current, step⟩ := step
  have others : ∀ {other}, other ≠ cpu →
      ((view.release cpu p .ready).enqueue p).current other = view.current other := by
    intro other different
    simp [View.release, View.enqueue, different]
  have outside := wellFormed.notMem_ready current
  have nodup : (view.ready ++ [p]).Nodup := by
    exact List.nodup_append.mpr ⟨wellFormed.nodup, List.nodup_singleton p, fun q member r single =>
      ne_of_mem_of_not_mem member (List.mem_singleton.mp single ▸ outside)⟩
  cases step with
  | idle empty => simp [View.enqueue] at empty
  | @run chosen member greatest =>
      have greatest := greatest priority rfl
      refine run nodup greatest ?_ ?_
      · intro q ready notChosen other different r runs
        rw [others different] at runs
        rcases List.mem_append.mp ready with ready | single
        · exact ordered.highest q ready other r runs
        · obtain rfl := List.mem_singleton.mp single
          rcases List.mem_append.mp member with member | single
          · exact Nat.le_trans (greatest q (by simp [View.enqueue]))
              (ordered.highest chosen member other r runs)
          · exact absurd (List.mem_singleton.mp single).symm notChosen
      · intro other inRange different none
        rw [others different] at none
        have empty : view.ready = [] := ordered.busy other inRange none
        have single : ((view.release cpu p .ready).enqueue p).ready = [p] := by
          simp [View.enqueue, View.release, empty]
        rw [single, List.mem_singleton] at member
        rw [single, member]

/-- A process is woken. When it takes a CPU, it is the process that is chosen there. -/
theorem wakes (ordered : Ordered priority cpuCount view)
    (wellFormed : view.WellFormed cpuCount processCount) (notReady : view.status p ≠ .ready)
    (step : Wakes (some priority) cpuCount p view after) :
    Ordered priority cpuCount after ∨ Pending cpuCount after := by
  have outside : p ∉ view.ready := fun member => notReady (wellFormed.ready.mp member)
  cases step with
  | quiet reason =>
      by_cases idle : ∃ cpu < cpuCount, view.current cpu = none
      · obtain ⟨cpu, inRange, none⟩ := idle
        refine .inr ⟨p, ?_, cpu, inRange, none⟩
        simp [View.enqueue, ordered.busy cpu inRange none]
      · have least := (reason priority rfl).resolve_left idle
        refine .inl ⟨?_, fun cpu inRange none => absurd ⟨cpu, inRange, none⟩ idle⟩
        intro q member cpu r runs
        rcases List.mem_append.mp member with ready | single
        · exact ordered.highest q ready cpu r runs
        · obtain rfl := List.mem_singleton.mp single
          exact least cpu (wellFormed.cpus runs) r runs
  | @preempts _ cpu q _ isRank inRange current lower least step =>
      obtain rfl := Option.some.inj isRank
      obtain ⟨victim, runs, step⟩ := step
      obtain rfl : q = victim := Option.some.inj (current.symm.trans runs)
      have below : ∀ r ∈ view.ready, priority r ≤ priority q := fun r ready =>
        ordered.highest r ready cpu q current
      have busy : ∀ other < cpuCount, view.current other ≠ none := by
        intro other inRange none
        obtain ⟨r, runs, -⟩ := least other inRange
        cases none.symm.trans runs
      have others : ∀ {other}, other ≠ cpu →
          (((view.enqueue p).release cpu q .ready).enqueue q).current other =
            view.current other := by
        intro other different
        simp [View.release, View.enqueue, different]
      have nodup : (view.ready ++ [p] ++ [q]).Nodup := by
        have notReady := wellFormed.notMem_ready current
        have different : p ≠ q := by
          rintro rfl
          exact Nat.lt_irrefl _ lower
        rw [List.append_assoc]
        refine List.nodup_append.mpr ⟨wellFormed.nodup, by simpa using different, ?_⟩
        rintro r ready s pair rfl
        rcases List.mem_cons.mp pair with rfl | single
        · exact outside ready
        · exact notReady (List.mem_singleton.mp single ▸ ready)
      cases step with
      | idle empty => simp [View.enqueue] at empty
      | @run chosen member greatest =>
          have greatest := greatest priority rfl
          have woken : chosen = p := by
            have highest : priority p ≤ priority chosen := greatest p (by
              simp [View.enqueue, View.release])
            simp only [View.enqueue, View.release, List.mem_append, List.mem_singleton] at member
            rcases member with (ready | same) | same
            · have := below chosen ready
              omega
            · exact same
            · subst same
              omega
          subst woken
          refine .inl (run nodup greatest ?_ ?_)
          · intro r ready notChosen other different s runs
            rw [others different] at runs
            obtain ⟨t, runs', atLeast⟩ := least other (wellFormed.cpus runs)
            obtain rfl := Option.some.inj (runs'.symm.trans runs)
            simp only [View.enqueue, View.release, List.mem_append, List.mem_singleton] at ready
            rcases ready with (ready | same) | same
            · exact Nat.le_trans (below r ready) atLeast
            · exact absurd same notChosen
            · exact same ▸ atLeast
          · intro other inRange different none
            rw [others different] at none
            exact absurd none (busy other inRange)

private theorem schedules (settling : Ordered priority cpuCount view ∨ Pending cpuCount view)
    (idle : view.current cpu = none) (inRange : cpu < cpuCount)
    (step : Schedules (some priority) cpu view after) : Ordered priority cpuCount after := by
  cases step with
  | idle empty => exact ⟨by simp [empty], fun _ _ _ => empty⟩
  | @run chosen member greatest =>
      rcases settling with ordered | ⟨p, single, -⟩
      · rw [ordered.busy cpu inRange idle] at member
        simp at member
      · obtain rfl := List.mem_singleton.mp (single ▸ member)
        refine run (by simp [single]) (greatest priority rfl) ?_ fun _ _ _ _ => single
        intro q ready notChosen
        exact absurd (List.mem_singleton.mp (single ▸ ready)) notChosen

end Ordered

end View

/-! ## Rounds -/

/-- The calls that the simulator makes to the scheduler, besides `idle`. -/
inductive Call where
  /-- A process was created or its I/O request has completed. -/
  | wakeUp (process : Nat)
  /-- The process of a CPU performs an I/O request. -/
  | yield (cpu : Nat)
  /-- The process of a CPU has completed. -/
  | terminate (cpu : Nat)
  /-- The timer of a CPU has expired. -/
  | preempt (cpu : Nat)
  deriving DecidableEq, Repr

/-- New and waiting processes are woken, and only a busy CPU raises an event. -/
def Call.Legal (config : Config) (state : State) : Call → Prop
  | .wakeUp p => p < config.processCount ∧
      ((state.pcbs p).state = .new ∨ (state.pcbs p).state = .waiting)
  | .yield cpu | .terminate cpu | .preempt cpu =>
      cpu < config.cpuCount ∧ (state.cpuData cpu).current ≠ none

instance (config : Config) (state : State) : (call : Call) → Decidable (call.Legal config state)
  | .wakeUp _ => inferInstanceAs (Decidable (_ ∧ _))
  | .yield _ | .terminate _ | .preempt _ => inferInstanceAs (Decidable (_ ∧ _))

/-- Make a call. -/
def serve (config : Config) (state : State) : Call → Option State
  | .wakeUp p => wakeUp config state p
  | .yield cpu => dispatch config state cpu .yield
  | .terminate cpu => dispatch config state cpu .terminate
  | .preempt cpu => dispatch config state cpu .preempt

/-- An idle CPU runs `schedule`. -/
def Fills (config : Config) (before after : State) : Prop :=
  ∃ cpu, (Event.idle cpu).Enabled config before ∧ dispatch config before cpu .idle = some after

/-- One call, after which idle CPUs run `schedule` until none can. -/
structure Round (config : Config) (before : State) (call : Call) (after : State) : Prop where
  /-- The simulator may make the call. -/
  legal : call.Legal config before
  /-- The call, and then any idle CPUs in any order. -/
  fills : ∃ served, serve config before call = some served ∧
    Relation.ReflTransGen (Fills config) served after
  /-- No idle CPU can run `schedule`. -/
  quiet : ∀ cpu, ¬ (Event.idle cpu).Enabled config after

/-- A state that the rounds reach, with a view of a certain kind. -/
def Stands (config : Config) (programs : Nat → Program) (kind : View → Prop) (state : State) :
    Prop :=
  ∃ view, Serves config (startSimulator programs) state view ∧
    view.WellFormed config.cpuCount config.processCount ∧ kind view

section Rounds

variable {config : Config} {programs : Nat → Program} {before after state : State} {call : Call}

theorem startSimulator_rank (static : config.staticPrior) :
    (startSimulator programs).rank config = some fun p => (programs p).staticPriority :=
  if_pos static

/-- Between two rounds the view is ordered. -/
def Calm (config : Config) (programs : Nat → Program) : View → Prop :=
  View.Ordered (fun p => (programs p).staticPriority) config.cpuCount

/-- Within a round a process may be pending instead. -/
def Settling (config : Config) (programs : Nat → Program) (view : View) : Prop :=
  Calm config programs view ∨ view.Pending config.cpuCount

variable (static : config.staticPrior) (ranked : (startSimulator programs).Ranked config)

include static ranked

theorem serve_spec (stands : Stands config programs (Calm config programs) before)
    (legal : call.Legal config before) :
    ∃ after, serve config before call = some after ∧
      Stands config programs (Settling config programs) after := by
  obtain ⟨view, serves, wellFormed, calm⟩ := stands
  have ranked := serves.kept.ranked ranked
  have rank := (serves.kept.rank config).trans (startSimulator_rank static)
  have busy : ∀ cpu, (before.cpuData cpu).current ≠ none → ∃ p, view.current cpu = some p := by
    intro cpu some
    rw [serves.shows.mirror] at some
    exact Option.ne_none_iff_exists'.mp some
  cases call with
  | wakeUp p =>
      obtain ⟨inRange, created⟩ := legal
      rw [serves.shows.status] at created
      have notReady : view.status p ≠ .ready := by rcases created with same | same <;> simp [same]
      have notRunning : view.status p ≠ .running := by
        rcases created with same | same <;> simp [same]
      obtain ⟨after, next, result, step, served⟩ := wakeUp_spec serves.shows ranked serves.steady
        wellFormed notReady notRunning inRange
      rw [rank] at step
      exact ⟨after, result, next, ⟨served.shows, serves.kept.trans served.kept, served.steady⟩,
        wellFormed.wakes notReady notRunning inRange step, calm.wakes wellFormed notReady step⟩
  | yield cpu =>
      obtain ⟨p, current⟩ := busy cpu legal.2
      obtain ⟨after, next, result, step, served⟩ := dispatch_yield serves.shows ranked serves.steady
        wellFormed current
      rw [rank] at step
      exact ⟨after, result, next, ⟨served.shows, serves.kept.trans served.kept, served.steady⟩,
        wellFormed.leaves (by decide) (by decide) step, .inl (calm.leaves wellFormed step)⟩
  | terminate cpu =>
      obtain ⟨p, current⟩ := busy cpu legal.2
      obtain ⟨after, next, result, step, served⟩ := dispatch_terminate serves.shows ranked
        serves.steady wellFormed current
      rw [rank] at step
      exact ⟨after, result, next, ⟨served.shows, serves.kept.trans served.kept, served.steady⟩,
        wellFormed.leaves (by decide) (by decide) step, .inl (calm.leaves wellFormed step)⟩
  | preempt cpu =>
      obtain ⟨p, current⟩ := busy cpu legal.2
      obtain ⟨after, next, result, step, served⟩ := dispatch_preempt serves.shows ranked
        serves.steady wellFormed current
      rw [rank] at step
      exact ⟨after, result, next, ⟨served.shows, serves.kept.trans served.kept, served.steady⟩,
        wellFormed.preempts step, .inl (calm.preempts wellFormed step)⟩

theorem fills_spec (stands : Stands config programs (Settling config programs) before) {cpu : Nat}
    (enabled : (Event.idle cpu).Enabled config before) :
    ∃ after, dispatch config before cpu .idle = some after ∧
      Stands config programs (Calm config programs) after := by
  obtain ⟨view, serves, wellFormed, settling⟩ := stands
  obtain ⟨inRange, waits, -⟩ := enabled
  have idle : view.current cpu = none := by
    rw [← serves.shows.mirror]
    by_contra busy
    rw [serves.steady, if_neg busy] at waits
    cases waits
  obtain ⟨after, next, result, step, served⟩ := dispatch_idle serves.shows
    (serves.kept.ranked ranked) serves.steady inRange
  rw [(serves.kept.rank config).trans (startSimulator_rank static)] at step
  exact ⟨after, result, next, ⟨served.shows, serves.kept.trans served.kept, served.steady⟩,
    wellFormed.schedules idle inRange step, View.Ordered.schedules settling idle inRange step⟩

/-- However the idle CPUs fill themselves, the view stays ordered or pending. -/
theorem fills_run (stands : Stands config programs (Settling config programs) before)
    (fills : Relation.ReflTransGen (Fills config) before after) :
    Stands config programs (Settling config programs) after := by
  induction fills with
  | refl => exact stands
  | tail _ last ih =>
      obtain ⟨cpu, enabled, result⟩ := last
      obtain ⟨after, result', view, serves, wellFormed, calm⟩ := fills_spec static ranked ih enabled
      obtain rfl := Option.some.inj (result.symm.trans result')
      exact ⟨view, serves, wellFormed, .inl calm⟩

omit static ranked

private theorem quiet_of_calm (stands : Stands config programs (Calm config programs) state)
    (cpu : Nat) : ¬ (Event.idle cpu).Enabled config state := by
  rintro ⟨inRange, waits, nonempty⟩
  obtain ⟨view, serves, -, calm⟩ := stands
  have idle : view.current cpu = none := by
    rw [← serves.shows.mirror]
    by_contra busy
    rw [serves.steady, if_neg busy] at waits
    cases waits
  exact nonempty (serves.shows.list.head_eq_none_iff.mpr (calm.busy cpu inRange idle))

private theorem calm_of_quiet (stands : Stands config programs (Settling config programs) state)
    (quiet : ∀ cpu, ¬ (Event.idle cpu).Enabled config state) :
    Stands config programs (Calm config programs) state := by
  obtain ⟨view, serves, wellFormed, calm | ⟨p, single, cpu, inRange, idle⟩⟩ := stands
  · exact ⟨view, serves, wellFormed, calm⟩
  · refine absurd ⟨inRange, ?_, ?_⟩ (quiet cpu)
    · rw [serves.steady, serves.shows.mirror, if_pos idle]
    · rw [Ne, serves.shows.list.head_eq_none_iff]
      simp [single]

include static ranked

private theorem round_spec (stands : Stands config programs (Calm config programs) before)
    (round : Round config before call after) :
    Stands config programs (Calm config programs) after := by
  obtain ⟨served, result, fills⟩ := round.fills
  obtain ⟨served', result', settling⟩ := serve_spec static ranked stands round.legal
  obtain rfl := Option.some.inj (result.symm.trans result')
  exact calm_of_quiet (fills_run static ranked settling fills) round.quiet

/-- Every legal call starts a round that ends. -/
theorem exists_round (stands : Stands config programs (Calm config programs) before)
    (legal : call.Legal config before) : ∃ after, Round config before call after := by
  obtain ⟨served, result, settling⟩ := serve_spec static ranked stands legal
  by_cases waits : ∃ cpu, (Event.idle cpu).Enabled config served
  · obtain ⟨cpu, enabled⟩ := waits
    obtain ⟨after, filled, calm⟩ := fills_spec static ranked settling enabled
    exact ⟨after, legal, ⟨served, result, .single ⟨cpu, enabled, filled⟩⟩, quiet_of_calm calm⟩
  · exact ⟨served, legal, ⟨served, result, .refl⟩, not_exists.mp waits⟩

private theorem rounds_spec {calls : List Call}
    (trace : Trace (Round config) (startSimulator programs) calls state) :
    Stands config programs (Calm config programs) state := by
  refine trace.invariant ⟨View.start, startSimulator_serves config programs, .start _ _, ?_⟩
    fun stands round => round_spec static ranked stands round
  exact ⟨by simp [View.start], fun _ _ _ => rfl⟩

/-- After any rounds in the static-priority mode, no ready process has a higher priority than a
running process, and no CPU is idle while a process is ready; and every legal call has a round. -/
theorem no_priority_inversion {calls : List Call}
    (trace : Trace (Round config) (startSimulator programs) calls state) :
    (∃ ready, IsList state.next state.qHead ready ∧
      (∀ p ∈ ready, ∀ cpu q, state.current cpu = some q →
        (state.pcbs p).staticPriority ≤ (state.pcbs q).staticPriority) ∧
      ∀ cpu < config.cpuCount, state.current cpu = none → ready = []) ∧
    ∀ call, call.Legal config state → ∃ after, Round config state call after := by
  have stands := rounds_spec static ranked trace
  refine ⟨?_, fun call legal => exists_round static ranked stands legal⟩
  obtain ⟨view, serves, -, calm⟩ := stands
  refine ⟨view.ready, serves.shows.list, ?_, ?_⟩
  · intro p ready cpu q runs
    rw [serves.kept.staticPriority, serves.kept.staticPriority]
    rw [serves.shows.current] at runs
    exact calm.highest p ready cpu q runs
  · intro cpu inRange idle
    rw [serves.shows.current] at idle
    exact calm.busy cpu inRange idle

end Rounds

/-- One CPU and two processes, the second of higher priority. -/
def preemptive : Config where
  cpuCount := 1
  processCount := 2
  staticPrior := true
  timeslice := -1

/-- Process `p` has priority `p + 1`. -/
def rising (p : Nat) : Program where
  pid := p.toUInt32
  staticPriority := p + 1
  ops := []

theorem no_priority_inversion_preemptive : ∃ first second : State,
    Trace (Round preemptive) (startSimulator rising) [.wakeUp 0, .wakeUp 1] second ∧
      first.current 0 = some 0 ∧ second.current 0 = some 1 ∧
      ∃ ready, IsList second.next second.qHead ready ∧
        ∀ p ∈ ready, ∀ cpu q, second.current cpu = some q →
          (second.pcbs p).staticPriority ≤ (second.pcbs q).staticPriority := by
  let woken := (serve preemptive (startSimulator rising) (.wakeUp 0)).get (by decide)
  let first := (dispatch preemptive woken 0 .idle).get (by decide)
  let second := (serve preemptive first (.wakeUp 1)).get (by decide)
  have only : ∀ state, ¬ (Event.idle 0).Enabled preemptive state →
      ∀ cpu, ¬ (Event.idle cpu).Enabled preemptive state := by
    intro state quiet cpu enabled
    obtain rfl : cpu = 0 := Nat.lt_one_iff.mp enabled.1
    exact quiet enabled
  have firstRound : Round preemptive (startSimulator rising) (.wakeUp 0) first :=
    ⟨by decide, ⟨woken, (Option.some_get _).symm,
      .single ⟨0, by decide, (Option.some_get _).symm⟩⟩, only _ (by decide)⟩
  have secondRound : Round preemptive first (.wakeUp 1) second :=
    ⟨by decide, ⟨second, (Option.some_get _).symm, .refl⟩, only _ (by decide)⟩
  have trace := Trace.snoc (Trace.snoc .nil firstRound) secondRound
  have valid : (startSimulator rising).Ranked preemptive := by
    intro p inRange
    exact ⟨Nat.le_add_left 1 p, Nat.le_trans inRange (by decide)⟩
  obtain ⟨ready, list, highest, -⟩ := (no_priority_inversion rfl valid trace).1
  exact ⟨first, second, trace, by decide, by decide, ready, list, highest⟩

end CS2200.Scheduling
