import CS2200.Scheduling.Student
import Mathlib.Data.List.Nodup

/-!
# What the scheduler is for

A view of the machine keeps the ready list as a list, the running processes and the state of every
process, and forgets how the list is linked. The handlers are relations on views: `Schedules` fills
a CPU from the ready list, and the others release a CPU or wake a process first. In a well-formed
view the state of a process says where the process is.
-/

namespace CS2200.Scheduling

/-- The scheduler's data without the links. -/
structure View where
  /-- Ready processes, the first to be served in front. -/
  ready : List Nat
  /-- The process that each CPU runs. -/
  current : Nat → Option Nat
  /-- State of each process. -/
  status : Nat → ProcessState

namespace View

/-- A process becomes ready. -/
def enqueue (view : View) (p : Nat) : View :=
  { view with ready := view.ready ++ [p], status := Function.update view.status p .ready }

/-- The process of a CPU gives it up and enters another state. -/
def release (view : View) (cpu p : Nat) (status : ProcessState) : View :=
  { view with
    current := Function.update view.current cpu none
    status := Function.update view.status p status }

/-- A ready process starts to run on a CPU. -/
def run (view : View) (cpu p : Nat) : View where
  ready := view.ready.erase p
  current := Function.update view.current cpu (some p)
  status := Function.update view.status p .running

/-- A CPU is given a ready process, under static priorities one of highest priority, or is left
idle when no process is ready. -/
inductive Schedules (rank : Option (Nat → Nat)) (cpu : Nat) (before : View) : View → Prop
  | idle : before.ready = [] →
      Schedules rank cpu before { before with current := Function.update before.current cpu none }
  | run {p : Nat} : p ∈ before.ready →
      (∀ priority, rank = some priority → ∀ q ∈ before.ready, priority q ≤ priority p) →
      Schedules rank cpu before (before.run cpu p)

theorem Schedules.current_of_ne {rank : Option (Nat → Nat)} {cpu other : Nat} {before after : View}
    (step : Schedules rank cpu before after) (different : other ≠ cpu) :
    after.current other = before.current other := by
  cases step <;> simp [View.run, different]

/-- The process that a CPU gives up is not used to fill the CPU. -/
theorem Schedules.vacate {rank : Option (Nat → Nat)} {cpu : Nat} {before after : View}
    (step : Schedules rank cpu before after) :
    Schedules rank cpu { before with current := Function.update before.current cpu none } after := by
  cases step with
  | idle empty =>
      have idle : Schedules rank cpu
          { before with current := Function.update before.current cpu none } _ := .idle empty
      rwa [Function.update_idem] at idle
  | @run p member greatest =>
      have run : Schedules rank cpu
          { before with current := Function.update before.current cpu none } _ :=
        .run member greatest
      rwa [View.run, Function.update_idem] at run

/-- The process of a CPU gives it up for good or for an I/O request. -/
def Leaves (rank : Option (Nat → Nat)) (cpu : Nat) (status : ProcessState) (before after : View) :
    Prop :=
  ∃ p, before.current cpu = some p ∧ Schedules rank cpu (before.release cpu p status) after

theorem Leaves.current_of_ne {rank : Option (Nat → Nat)} {cpu other : Nat} {status : ProcessState}
    {before after : View} (step : Leaves rank cpu status before after) (different : other ≠ cpu) :
    after.current other = before.current other := by
  obtain ⟨p, -, step⟩ := step
  simpa [release, different] using step.current_of_ne different

/-- The process of a CPU is preempted. -/
def Preempts (rank : Option (Nat → Nat)) (cpu : Nat) (before after : View) : Prop :=
  ∃ p, before.current cpu = some p ∧
    Schedules rank cpu ((before.release cpu p .ready).enqueue p) after

theorem Preempts.current_of_ne {rank : Option (Nat → Nat)} {cpu other : Nat} {before after : View}
    (step : Preempts rank cpu before after) (different : other ≠ cpu) :
    after.current other = before.current other := by
  obtain ⟨p, -, step⟩ := step
  simpa [enqueue, release, different] using step.current_of_ne different

/-- A process becomes ready; under static priorities it may take the CPU of a process of least
priority when no CPU is idle. -/
inductive Wakes (rank : Option (Nat → Nat)) (cpuCount : Nat) (p : Nat) (before : View) :
    View → Prop
  | quiet : (∀ priority, rank = some priority → (∃ cpu < cpuCount, before.current cpu = none) ∨
        ∀ cpu < cpuCount, ∀ q, before.current cpu = some q → priority p ≤ priority q) →
      Wakes rank cpuCount p before (before.enqueue p)
  | preempts {priority : Nat → Nat} {cpu q : Nat} {after : View} : rank = some priority →
      cpu < cpuCount → before.current cpu = some q → priority q < priority p →
      (∀ other < cpuCount, ∃ r, before.current other = some r ∧ priority q ≤ priority r) →
      Preempts rank cpu (before.enqueue p) after →
      Wakes rank cpuCount p before after

/-! ## Well-formed views -/

/-- The state of a process says where it is, and it is there once. -/
structure WellFormed (cpuCount processCount : Nat) (view : View) : Prop where
  /-- The ready list has no repetition. -/
  nodup : view.ready.Nodup
  /-- The ready list holds the ready processes. -/
  ready : ∀ {p}, p ∈ view.ready ↔ view.status p = .ready
  /-- CPUs run the running processes. -/
  running : ∀ {p}, view.status p = .running ↔ ∃ cpu, view.current cpu = some p
  /-- A process runs on one CPU. -/
  single : ∀ {cpu other p}, view.current cpu = some p → view.current other = some p → cpu = other
  /-- Only existing CPUs run processes. -/
  cpus : ∀ {cpu p}, view.current cpu = some p → cpu < cpuCount
  /-- Only existing processes are scheduled. -/
  processes : ∀ {p}, view.status p ≠ .new → p < processCount

namespace WellFormed

variable {cpuCount processCount : Nat} {view after : View} {cpu p : Nat}
  {rank : Option (Nat → Nat)}

theorem notMem_ready (wellFormed : WellFormed cpuCount processCount view)
    (current : view.current cpu = some p) : p ∉ view.ready := by
  rw [wellFormed.ready, wellFormed.running.mpr ⟨cpu, current⟩]
  simp

theorem enqueue (wellFormed : WellFormed cpuCount processCount view)
    (notReady : view.status p ≠ .ready) (notRunning : view.status p ≠ .running)
    (inRange : p < processCount) : WellFormed cpuCount processCount (view.enqueue p) := by
  have absent : ∀ {other}, view.current other ≠ some p := fun current =>
    notRunning (wellFormed.running.mpr ⟨_, current⟩)
  refine ⟨?_, fun {q} => ?_, fun {q} => ?_, wellFormed.single, wellFormed.cpus, fun {q} => ?_⟩
  · rw [View.enqueue, List.nodup_append]
    refine ⟨wellFormed.nodup, List.nodup_singleton p, ?_⟩
    rintro q member _ single rfl
    rw [List.mem_singleton.mp single] at member
    exact notReady (wellFormed.ready.mp member)
  all_goals by_cases same : q = p
  · simp [View.enqueue, same]
  · simpa [View.enqueue, same] using wellFormed.ready
  · simp [View.enqueue, same, absent]
  · simpa [View.enqueue, same] using wellFormed.running
  · simp [same, inRange]
  · simpa [View.enqueue, same] using wellFormed.processes

theorem release (wellFormed : WellFormed cpuCount processCount view)
    (current : view.current cpu = some p) {status : ProcessState} (notReady : status ≠ .ready)
    (notRunning : status ≠ .running) :
    WellFormed cpuCount processCount (view.release cpu p status) := by
  have running := wellFormed.running.mpr ⟨cpu, current⟩
  have others : ∀ {other q}, (view.release cpu p status).current other = some q ↔
      other ≠ cpu ∧ view.current other = some q := by
    intro other q
    by_cases same : other = cpu <;> simp [View.release, same]
  refine ⟨wellFormed.nodup, fun {q} => ?_, fun {q} => ?_, fun first second => ?_, fun occupied => ?_,
    fun {q} => ?_⟩
  · by_cases same : q = p
    · simpa [View.release, same, notReady] using wellFormed.notMem_ready current
    · simpa [View.release, same] using wellFormed.ready
  · simp only [others]
    by_cases same : q = p
    · subst same
      simp only [View.release, Function.update_self, notRunning, false_iff, not_exists, not_and]
      exact fun other different occupied => different (wellFormed.single occupied current)
    · have keep : (view.release cpu p status).status q = view.status q := by
        simp [View.release, same]
      rw [keep, wellFormed.running]
      refine exists_congr fun other => (and_iff_right_of_imp ?_).symm
      rintro occupied rfl
      exact same (Option.some.inj (occupied.symm.trans current))
  · exact wellFormed.single (others.mp first).2 (others.mp second).2
  · exact wellFormed.cpus (others.mp occupied).2
  · by_cases same : q = p
    · intro _
      rw [same]
      exact wellFormed.processes (by simp [running])
    · simpa [View.release, same] using wellFormed.processes

private theorem run (wellFormed : WellFormed cpuCount processCount view)
    (idle : view.current cpu = none) (inRange : cpu < cpuCount) (member : p ∈ view.ready) :
    WellFormed cpuCount processCount (view.run cpu p) := by
  have ready := wellFormed.ready.mp member
  have absent : ∀ {other}, view.current other ≠ some p := fun current =>
    wellFormed.notMem_ready current member
  have others : ∀ {other q}, (view.run cpu p).current other = some q ↔
      (other = cpu ∧ q = p) ∨ view.current other = some q := by
    intro other q
    by_cases same : other = cpu
    · simp [View.run, same, idle, eq_comm]
    · simp [View.run, same]
  refine ⟨wellFormed.nodup.erase p, fun {q} => ?_, fun {q} => ?_, fun {first second q} => ?_,
    fun {other q} => ?_, fun {q} => ?_⟩
  · by_cases same : q = p
    · simp [View.run, same, wellFormed.nodup.mem_erase_iff]
    · simpa [View.run, same, wellFormed.nodup.mem_erase_iff] using wellFormed.ready
  · simp only [others]
    by_cases same : q = p
    · simp [View.run, same]
    · simpa [View.run, same] using wellFormed.running
  · rw [others, others]
    rintro (⟨rfl, rfl⟩ | firstRuns) (⟨rfl, equal⟩ | secondRuns)
    · rfl
    · exact absurd secondRuns absent
    · exact absurd (equal ▸ firstRuns) absent
    · exact wellFormed.single firstRuns secondRuns
  · rw [others]
    rintro (⟨rfl, -⟩ | runs)
    · exact inRange
    · exact wellFormed.cpus runs
  · by_cases same : q = p
    · intro _
      rw [same]
      exact wellFormed.processes (by simp [ready])
    · simpa [View.run, same] using wellFormed.processes

theorem schedules (wellFormed : WellFormed cpuCount processCount view)
    (idle : view.current cpu = none) (inRange : cpu < cpuCount)
    (step : Schedules rank cpu view after) : WellFormed cpuCount processCount after := by
  cases step with
  | idle =>
      rw [← idle, Function.update_eq_self]
      exact wellFormed
  | run member => exact wellFormed.run idle inRange member

theorem leaves (wellFormed : WellFormed cpuCount processCount view) {status : ProcessState}
    (notReady : status ≠ .ready) (notRunning : status ≠ .running)
    (step : Leaves rank cpu status view after) : WellFormed cpuCount processCount after := by
  obtain ⟨p, current, step⟩ := step
  exact (wellFormed.release current notReady notRunning).schedules (by simp [View.release])
    (wellFormed.cpus current) step

/-- Being ready on the way from a CPU to the ready list is not seen. -/
theorem release_enqueue (view : View) (cpu p : Nat) (first second : ProcessState) :
    (view.release cpu p first).enqueue p = (view.release cpu p second).enqueue p := by
  simp [View.release, View.enqueue]

theorem preempts (wellFormed : WellFormed cpuCount processCount view)
    (step : Preempts rank cpu view after) : WellFormed cpuCount processCount after := by
  obtain ⟨p, current, step⟩ := step
  have running := wellFormed.running.mpr ⟨cpu, current⟩
  have inRange : p < processCount := wellFormed.processes (by simp [running])
  rw [release_enqueue view cpu p .ready .waiting] at step
  have released : WellFormed cpuCount processCount (view.release cpu p .waiting) :=
    wellFormed.release current (by decide) (by decide)
  exact (released.enqueue (by simp [View.release]) (by simp [View.release]) inRange).schedules
    (by simp [View.enqueue, View.release]) (wellFormed.cpus current) step

theorem wakes (wellFormed : WellFormed cpuCount processCount view)
    (notReady : view.status p ≠ .ready) (notRunning : view.status p ≠ .running)
    (inRange : p < processCount) (step : Wakes rank cpuCount p view after) :
    WellFormed cpuCount processCount after := by
  have enqueued := wellFormed.enqueue notReady notRunning inRange
  cases step with
  | quiet => exact enqueued
  | preempts _ _ _ _ _ step => exact enqueued.preempts step

end WellFormed

end View

end CS2200.Scheduling
