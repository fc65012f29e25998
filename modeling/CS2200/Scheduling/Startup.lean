import CS2200.Scheduling.WakeUp

/-!
# The start of the simulation

`main` allocates `current` and leaves its contents as they are, until `schedule` assigns to the slot
of a CPU. The handlers of events read slots that were assigned, because the simulator raises events
on CPUs that have a process. The loop of `wake_up` also reads the slots of CPUs that may not have
been in `schedule` yet.
-/

namespace CS2200.Scheduling

open Waking (Move)

/-! ## Slots of `current` -/

/-- The slots that the loop of `wake_up` reads. -/
def slots (state : State) : List Nat → List Nat
  | [] => []
  | i :: rest => i :: if state.current i = none then [] else slots state rest

private theorem mem_slots_range' {state : State} {start count cpu : Nat} :
    cpu ∈ slots state (List.range' start count) ↔
      start ≤ cpu ∧ cpu < start + count ∧
        ∀ other, start ≤ other → other < cpu → state.current other ≠ none := by
  induction count generalizing start with
  | zero =>
      simp only [List.range'_zero, slots, List.not_mem_nil, false_iff]
      omega
  | succ count ih =>
      rw [List.range'_succ, slots, List.mem_cons]
      by_cases first : cpu = start
      · subst first
        simp only [true_or, true_iff]
        exact ⟨Nat.le_refl _, by omega, fun other _ _ => by omega⟩
      · cases current : state.current start with
        | none =>
            simp only [first, if_true, List.not_mem_nil, or_self, false_iff]
            rintro ⟨atLeast, -, occupied⟩
            exact occupied start (Nat.le_refl _) (by omega) current
        | some p =>
            simp only [first, false_or, reduceCtorEq, if_false, ih]
            constructor
            · rintro ⟨atLeast, below, occupied⟩
              refine ⟨by omega, by omega, fun other lower upper => ?_⟩
              by_cases same : other = start
              · simp [same, current]
              · exact occupied other (by omega) upper
            · rintro ⟨atLeast, below, occupied⟩
              exact ⟨by omega, by omega, fun other lower upper => occupied other (by omega) upper⟩

/-- A slot is read if no CPU before it is idle. -/
theorem mem_slots_range {state : State} {count cpu : Nat} :
    cpu ∈ slots state (List.range count) ↔
      cpu < count ∧ ∀ other < cpu, state.current other ≠ none := by
  rw [List.range_eq_range', mem_slots_range']
  simp

/-! ## Steps -/

/-- The system with a record of the slots that `schedule` has assigned. -/
structure Booting extends Waking where
  /-- Whether `schedule` has assigned the slot of a CPU. -/
  written : Nat → Bool

namespace Booting

/-- The system after `main`. `malloc` gives the contents of `current`. -/
def start (malloc : Nat → Option Nat) (programs : Nat → Program) : Booting where
  state := { startSimulator programs with current := malloc }
  phase _ := .outside
  waker := .outside
  written _ := false

/-- The slot of a CPU that runs `schedule` is written; `force_preempt` has a handler write a slot
that was written before. -/
def record (written : Nat → Bool) : Move → Nat → Bool
  | .finish cpu | .handle cpu _ => Function.update written cpu true
  | _ => written

/-- One step. -/
def move (config : Config) (booting : Booting) (taken : Move) : Option Booting := do
  let waking ← booting.toWaking.move config taken
  some { toWaking := waking, written := record booting.written taken }

/-- The transition relation of the system. -/
def Step (config : Config) (before : Booting) (taken : Move) (after : Booting) : Prop :=
  before.move config taken = some after

/-- Whatever is done next reads slots that were written, and handlers find a process there. -/
structure ReadsWritten (config : Config) (booting : Booting) : Prop where
  /-- The loop of `wake_up`. -/
  look : config.staticPrior = true → ∀ process idle, booting.waker = .queued process idle →
    ∀ cpu ∈ slots booting.state (List.range config.cpuCount), booting.written cpu = true
  /-- The handler that `force_preempt` raises. -/
  forcePreempt : ∀ process idle cpu, booting.waker = .preempting process idle (some cpu) →
    (booting.state.cpuData cpu).state = .running →
      booting.written cpu = true ∧ booting.state.current cpu ≠ none
  /-- The handlers that the simulator raises. -/
  handle : ∀ cpu, (booting.state.cpuData cpu).current ≠ none →
    booting.written cpu = true ∧ booting.state.current cpu ≠ none

/-- When `wake_up` is about to look through `current`, every CPU that has not been in `schedule`
comes after one that `schedule` left idle. -/
def LooksLate (config : Config) (booting : Booting) : Prop :=
  config.staticPrior = true → ∀ process idle, booting.waker = .queued process idle →
    ∀ cpu < config.cpuCount, booting.written cpu = false →
      ∃ other < cpu, booting.written other = true ∧ booting.state.current other = none

/-! ## What holds at any time -/

/-- Slots that were written agree with the simulator, and the other CPUs are idle there. -/
structure Booted (booting : Booting) : Prop where
  /-- A slot that was written is the process that the simulator executes. -/
  agree : ∀ cpu, booting.written cpu = true → booting.state.Agree cpu
  /-- A CPU whose slot was not written has no process. -/
  unwritten : ∀ cpu, booting.written cpu = false → (booting.state.cpuData cpu).current = none
  /-- A CPU that is running has a process. -/
  running : ∀ cpu, (booting.state.cpuData cpu).state = .running →
    (booting.state.cpuData cpu).current ≠ none

section Steps

variable {config : Config} {before after : Booting} {taken : Move} {cpu : Nat}

private theorem Booted.start (malloc : Nat → Option Nat) (programs : Nat → Program) :
    Booted (start malloc programs) where
  agree cpu written := by cases written
  unwritten _ _ := rfl
  running cpu runs := by cases runs

theorem Booted.occupied (booted : Booted before)
    (occupied : (before.state.cpuData cpu).current ≠ none) :
    before.written cpu = true ∧ before.state.current cpu ≠ none := by
  have written : before.written cpu = true := by
    by_contra unwritten
    exact occupied (booted.unwritten cpu (by simpa using unwritten))
  exact ⟨written, fun none => occupied ((booted.agree cpu written).symm.trans none)⟩

/-- The handlers read what was written, and `wake_up` does if no slot comes too early. -/
theorem Booted.readsWritten_iff (booted : Booted before) :
    ReadsWritten config before ↔ LooksLate config before := by
  constructor
  · intro reads static process idle queued cpu inRange unwritten
    have written : ∀ other, other ≤ cpu → (∀ earlier < other,
        before.state.current earlier ≠ none) → before.written other = true :=
      fun other upper occupied => reads.look static process idle queued other
        (mem_slots_range.mpr ⟨Nat.lt_of_le_of_lt upper inRange, occupied⟩)
    by_contra noneIdle
    have occupied : ∀ other < cpu, before.state.current other ≠ none := by
      intro other
      induction other using Nat.strongRecOn with
      | ind other ih =>
          intro earlier none
          have before := written other (Nat.le_of_lt earlier) fun first less =>
            ih first less (Nat.lt_trans less earlier)
          exact noneIdle ⟨other, earlier, before, none⟩
    have assigned := written cpu (Nat.le_refl cpu) occupied
    rw [unwritten] at assigned
    cases assigned
  · intro late
    refine ⟨fun static process idle queued cpu read => ?_, fun _ _ cpu _ runs => ?_, fun cpu => ?_⟩
    · obtain ⟨inRange, occupied⟩ := mem_slots_range.mp read
      by_contra unwritten
      obtain ⟨other, earlier, -, none⟩ :=
        late static process idle queued cpu inRange (by simpa using unwritten)
      exact occupied other earlier none
    · exact booted.occupied (booted.running cpu runs)
    · exact booted.occupied

end Steps

/-- What a step does to the arrays of the scheduler and of the simulator. -/
theorem arrays_of_step {config : Config} {before after : Waking} {taken : Move}
    (step : Waking.Step config before taken after) (written : Nat → Bool) :
    (record written taken = written ∧ after.state.current = before.state.current ∧
      after.state.cpuData = before.state.cpuData) ∨
    ∃ cpu pcblock, Dispatched config cpu before.state after.state pcblock ∧
      (record written taken = Function.update written cpu true ∨
        record written taken = written ∧ (before.state.cpuData cpu).state = .running) := by
  cases taken with
  | addqueue process =>
      obtain ⟨-, step⟩ := Option.ite_none_right_eq_some.mp step
      obtain ⟨state, adds, result⟩ := Option.bind_eq_some_iff.mp step
      obtain rfl := Option.some.inj result
      have only := ProcessesOnly.of_enqueue adds
      exact .inl ⟨rfl, by rw [only.rest], only.cpuData⟩
  | look =>
      obtain ⟨process, idle, -, rfl⟩ := Waking.step_look step
      exact .inl ⟨rfl, rfl, rfl⟩
  | forcePreempt =>
      obtain ⟨process, idle, cpu, state, -, preempts, rfl⟩ := Waking.step_forcePreempt step
      obtain ⟨-, preempts⟩ := Option.ite_none_right_eq_some.mp preempts
      split at preempts
      · next runs =>
          obtain ⟨pcblock, dispatched⟩ := Dispatched.of_dispatch (by decide) preempts
          exact .inr ⟨cpu, pcblock, dispatched, .inr ⟨rfl, runs⟩⟩
      · obtain rfl := Option.some.inj preempts
        exact .inl ⟨rfl, rfl, rfl⟩
  | handle cpu event =>
      obtain ⟨⟨-, -, -, -, served⟩, step⟩ := Option.ite_none_right_eq_some.mp step
      obtain ⟨state, dispatches, result⟩ := Option.bind_eq_some_iff.mp step
      obtain rfl := Option.some.inj result
      obtain ⟨pcblock, dispatched⟩ := Dispatched.of_dispatch served dispatches
      exact .inr ⟨cpu, pcblock, dispatched, .inl rfl⟩
  | idle cpu =>
      obtain ⟨-, result⟩ := Option.ite_none_right_eq_some.mp step
      obtain rfl := Option.some.inj result
      exact .inl ⟨rfl, rfl, rfl⟩
  | get cpu =>
      obtain ⟨-, result⟩ := Option.ite_none_right_eq_some.mp step
      obtain rfl := Option.some.inj result
      have only := LinksOnly.of_get before.state
      exact .inl ⟨rfl, only.current, only.cpuData⟩
  | scan cpu =>
      obtain ⟨-, step⟩ := Option.ite_none_right_eq_some.mp step
      obtain ⟨found, -, result⟩ := Option.bind_eq_some_iff.mp step
      cases found <;> obtain rfl := Option.some.inj result <;> exact .inl ⟨rfl, rfl, rfl⟩
  | unlink cpu =>
      obtain ⟨found, state, -, unlinks, rfl⟩ := Waking.step_unlink step
      have only := LinksOnly.of_unlink unlinks
      exact .inl ⟨rfl, only.current, only.cpuData⟩
  | finish cpu =>
      obtain ⟨pcblock, state, -, finishes, rfl⟩ := Waking.step_finish step
      have unsignaled : before.state.cpuData =
          (before.state.signal cpu (before.state.cpuData cpu).state).cpuData :=
        (Function.update_eq_self cpu before.state.cpuData).symm
      exact .inr ⟨cpu, pcblock, .of_scheduled (.refl _) unsignaled rfl rfl
        (.of_finish finishes), .inl rfl⟩

section Runs

variable {config : Config} {before after : Booting} {taken : Move} {cpu : Nat}

private theorem Booted.dispatched (booted : Booted before) {pcblock : Option Nat}
    (dispatched : Dispatched config cpu before.state after.state pcblock)
    (written : after.written = Function.update before.written cpu true) : Booted after where
  agree other assigned := by
    refine dispatched.agree fun different => booted.agree other ?_
    rwa [written, Function.update_of_ne different] at assigned
  unwritten other unassigned := by
    rw [written] at unassigned
    have different : other ≠ cpu := by
      rintro rfl
      simp at unassigned
    rw [Function.update_of_ne different] at unassigned
    rw [dispatched.cpuData, Function.update_of_ne different]
    exact booted.unwritten other unassigned
  running other runs := by
    rw [dispatched.cpuData] at runs ⊢
    by_cases same : other = cpu
    · subst same
      rw [Function.update_self] at runs ⊢
      cases pcblock with
      | none => cases runs
      | some p => exact Option.some_ne_none p
    · rw [Function.update_of_ne same] at runs ⊢
      exact booted.running other runs

private theorem Booted.step (booted : Booted before) (step : Step config before taken after) :
    Booted after := by
  obtain ⟨waking, moves, result⟩ := Option.bind_eq_some_iff.mp step
  obtain rfl := Option.some.inj result
  rcases arrays_of_step moves before.written with
    ⟨written, current, cpuData⟩ | ⟨cpu, pcblock, dispatched, written⟩
  · refine ⟨fun cpu assigned => ?_, fun cpu unassigned => ?_, fun cpu runs => ?_⟩
    · rw [written] at assigned
      rw [State.Agree, current, cpuData]
      exact booted.agree cpu assigned
    · rw [written] at unassigned
      rw [cpuData]
      exact booted.unwritten cpu unassigned
    · rw [cpuData] at runs ⊢
      exact booted.running cpu runs
  · refine booted.dispatched dispatched ?_
    rcases written with written | ⟨written, runs⟩
    · exact written
    · have assigned := (booted.occupied (booted.running cpu runs)).1
      rw [written, ← assigned, Function.update_eq_self]

private theorem booted_of_trace {malloc : Nat → Option Nat} {programs : Nat → Program}
    {moves : List Move} {booting : Booting}
    (trace : Trace (Step config) (start malloc programs) moves booting) : Booted booting := by
  induction trace with
  | nil => exact .start malloc programs
  | snoc _ last ih => exact ih.step last

/-- Every slot of `current` is written before it is read, and handlers find a process there, if and
only if `wake_up` looks through `current` late enough. Without static priorities it does. -/
theorem readsWritten_iff_looksLate (config : Config) (malloc : Nat → Option Nat)
    (programs : Nat → Program) (moves : List Move) :
    (Always (Step config) (start malloc programs) moves (ReadsWritten config) ↔
      Always (Step config) (start malloc programs) moves (LooksLate config)) ∧
    (config.staticPrior = false →
      Always (Step config) (start malloc programs) moves (ReadsWritten config)) := by
  have same : ∀ {earlier booting},
      Trace (Step config) (start malloc programs) earlier booting →
        (ReadsWritten config booting ↔ LooksLate config booting) := fun trace =>
    (booted_of_trace trace).readsWritten_iff
  refine ⟨forall₄_congr fun earlier _ booting trace => same trace, fun dynamic => ?_⟩
  intro earlier _ booting trace
  refine (same trace).mpr fun static => ?_
  rw [dynamic] at static
  cases static

/-- One CPU under round-robin. -/
def oneCpu : Config where
  cpuCount := 1
  processCount := 3
  staticPrior := false
  timeslice := 4

theorem readsWritten_iff_looksLate_oneCpu :
    Always (Step oneCpu) (start (fun _ => some 2) prioritized)
      [.addqueue 0, .look, .idle 0, .get 0, .finish 0, .addqueue 1, .look, .handle 0 .preempt]
      (ReadsWritten oneCpu) :=
  (readsWritten_iff_looksLate oneCpu _ prioritized _).2 rfl

/-- With static priorities the first search of `wake_up` reads slot 0 before any CPU was in
`schedule`. -/
theorem unwritten_read :
    ¬Always (Step twoCpus) (start (fun _ => some 2) prioritized) [.addqueue 0]
      (ReadsWritten twoCpus) := by
  intro always
  let booting := ([.addqueue 0].foldlM (move twoCpus)
    (start (fun _ => some 2) prioritized)).get (by decide)
  have trace : Trace (Step twoCpus) (start (fun _ => some 2) prioritized) [.addqueue 0] booting :=
    .of_foldlM (Option.some_get _).symm
  have reads := always _ (List.prefix_refl _) booting trace
  have written := reads.look rfl 0 false (by decide) 0 (by decide)
  cases written

end Runs

end Booting

end CS2200.Scheduling
