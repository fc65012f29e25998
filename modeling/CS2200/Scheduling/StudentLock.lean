import CS2200.Library.InvertedLock
import CS2200.Library.Trace
import Mathlib.Data.Fintype.Option

/-!
# The lock around the student's code

The simulator calls `preempt`, `yield`, `terminate` and `wake_up` under the writer lock of
`student_lock`, which `context_switch` and `force_preempt` release while they run, and
`print_gantt_line` reads the states of the processes under the reader lock. It calls `idle` without
the lock, but `idle` reaches `context_switch` as well, so that a lock is released which nobody took.
-/

namespace CS2200.Scheduling.StudentLock

open InvertedLock

/-! ## Operations on the lock -/

/-- Where a thread is between two operations on the lock. -/
inductive Place where
  /-- In the simulator, outside of the functions below. -/
  | simulator
  /-- In the student's code. -/
  | student
  /-- In `context_switch` or `force_preempt`. -/
  | service
  /-- In the loop of `print_gantt_line` over the processes. -/
  | counting
  deriving DecidableEq, Repr

/-- An operation and the place that it leads to. -/
abbrev Line := Operation × Place

/-- `context_switch`. -/
def contextSwitch : List Line := [(.writerUnlock, .service), (.writerLock, .student)]

/-- `force_preempt`. -/
def forcePreempt : List Line := [(.writerUnlock, .service), (.writerLock, .student)]

/-- `schedule`. -/
def schedule : List Line := contextSwitch

/-- `idle`. -/
def idle : List Line := schedule

/-- `preempt`. -/
def preempt : List Line := schedule

/-- `yield`. -/
def yield : List Line := schedule

/-- `terminate`. -/
def terminate : List Line := schedule

/-- `wake_up`, which may preempt a CPU. -/
def wakeUp (preempts : Bool) : List Line := if preempts then forcePreempt else []

/-- `print_gantt_line`. -/
def printGanttLine : List Line := [(.readerLock, .counting), (.readerUnlock, .simulator)]

/-- Student's code that is called under the writer lock. -/
def underLock (handler : List Line) : List Line :=
  (.writerLock, .student) :: handler ++ [(.writerUnlock, .simulator)]

/-- What `simulator_cpu_thread` calls on a CPU, and what the supervisor calls. -/
inductive Call where
  | idle
  | preempt
  | yield
  | terminate
  | wakeUp (preempts : Bool)
  | printGanttLine
  deriving DecidableEq, Repr

namespace Call

/-- The operations of a call with their places. -/
def lines : Call → List Line
  | idle => StudentLock.idle
  | preempt => underLock StudentLock.preempt
  | yield => underLock StudentLock.yield
  | terminate => underLock StudentLock.terminate
  | wakeUp preempts => underLock (StudentLock.wakeUp preempts)
  | printGanttLine => StudentLock.printGanttLine

/-- Where a call begins. `simulator_cpu_thread` does not lock for `idle`. -/
def entry : Call → Place
  | idle => .student
  | _ => .simulator

/-- The supervisor wakes processes and prints; the CPU threads make the other calls. -/
def supervised : Call → Bool
  | wakeUp _ | printGanttLine => true
  | _ => false

end Call

/-- A call and the number of operations that are done. -/
structure Progress where
  /-- The call. -/
  call : Call
  /-- Number of operations. -/
  done : Nat
  deriving DecidableEq, Repr

namespace Progress

/-- Where the thread is. -/
def place (progress : Progress) : Place :=
  match progress.done with
  | 0 => progress.call.entry
  | done + 1 => (progress.call.lines[done]?).elim .simulator Prod.snd

/-- The thread is in student's code that the simulator has locked for. -/
def inside (progress : Progress) : Bool := progress.call != .idle && progress.place == .student

/-- The thread is in `context_switch`, called from `idle`. -/
def switching (progress : Progress) : Bool :=
  progress.call == .idle && progress.place == .service

end Progress

/-! ## Threads -/

/-- The CPU threads, and `none` for the supervisor. -/
abbrev Thread (cpuCount : Nat) := Option (Fin cpuCount)

/-- The lock and what each thread is doing. -/
structure System (cpuCount : Nat) where
  /-- `student_lock`. -/
  lock : Lock
  /-- The calls in progress. -/
  calls : Thread cpuCount → Option Progress

namespace System

variable {cpuCount : Nat}

/-- The system after `IRWL_INIT`. -/
def start : System cpuCount := { lock := .init, calls := fun _ => none }

/-- A thread is in student's code under the writer lock. -/
def Inside (system : System cpuCount) (thread : Thread cpuCount) : Prop :=
  (system.calls thread).any Progress.inside

/-- An idle CPU is in `context_switch`. -/
def Switching (system : System cpuCount) (thread : Thread cpuCount) : Prop :=
  (system.calls thread).any Progress.switching

instance (system : System cpuCount) : DecidablePred system.Inside :=
  fun _ => inferInstanceAs (Decidable (_ = true))

instance (system : System cpuCount) : DecidablePred system.Switching :=
  fun _ => inferInstanceAs (Decidable (_ = true))

/-- The number of threads inside student's code under the writer lock. -/
def inside (system : System cpuCount) : Nat :=
  (Finset.univ.filter system.Inside).card

/-- The number of idle CPUs in `context_switch`. -/
def switching (system : System cpuCount) : Nat :=
  (Finset.univ.filter system.Switching).card

end System

/-- What a thread can do. -/
inductive Action (cpuCount : Nat) where
  /-- Begin a call. -/
  | enter (thread : Thread cpuCount) (call : Call)
  /-- Perform the next operation on the lock. -/
  | operate (thread : Thread cpuCount)
  /-- Return to the simulator. -/
  | leave (thread : Thread cpuCount)
  deriving DecidableEq, Repr

/-- One step. -/
def act {cpuCount : Nat} (system : System cpuCount) : Action cpuCount → Option (System cpuCount)
  | .enter thread call =>
      if system.calls thread = none ∧ call.supervised = thread.isNone then
        some { system with calls := Function.update system.calls thread (some ⟨call, 0⟩) }
      else none
  | .operate thread => do
      let progress ← system.calls thread
      let line ← progress.call.lines[progress.done]?
      let lock ← system.lock.apply line.1
      some {
        lock
        calls := Function.update system.calls thread
          (some { progress with done := progress.done + 1 }) }
  | .leave thread => do
      let progress ← system.calls thread
      if progress.done = progress.call.lines.length then
        some { system with calls := Function.update system.calls thread none }
      else none

/-- The transition relation of the system. -/
def Step {cpuCount : Nat} (before : System cpuCount) (action : Action cpuCount)
    (after : System cpuCount) : Prop :=
  act before action = some after

/-! ## The count of writers -/

/-- What a thread has locked and not unlocked: nothing or one lock, or one lock too few. -/
def Progress.balance (progress : Progress) : Int :=
  (if progress.inside then 1 else 0) - if progress.switching then 1 else 0

namespace Progress

private theorem balance_zero (call : Call) : balance ⟨call, 0⟩ = 0 := by
  cases call <;> rfl

private theorem balance_length (call : Call) : balance ⟨call, call.lines.length⟩ = 0 := by
  cases call with
  | wakeUp preempts => cases preempts <;> rfl
  | _ => rfl

private theorem balance_succ (call : Call) : ∀ done, (more : done < call.lines.length) →
    balance ⟨call, done + 1⟩ = balance ⟨call, done⟩ + call.lines[done].1.weight := by
  cases call with
  | wakeUp preempts => cases preempts <;> decide
  | _ => decide

end Progress

namespace System

variable {cpuCount : Nat}

/-- The balances of the threads. -/
def balance (system : System cpuCount) (thread : Thread cpuCount) : Int :=
  (system.calls thread).elim 0 Progress.balance

private theorem balance_update (system : System cpuCount) (lock : Lock) (thread : Thread cpuCount)
    (progress : Option Progress) :
    balance { lock, calls := Function.update system.calls thread progress } =
      Function.update system.balance thread (progress.elim 0 Progress.balance) := by
  funext other
  by_cases same : other = thread
  · subst same
    simp [balance]
  · simp [balance, same]

/-- The balances add up to the threads inside less the idle CPUs in `context_switch`. -/
theorem sum_balance (system : System cpuCount) :
    ∑ thread, system.balance thread = (system.inside : Int) - system.switching := by
  have parts : ∀ thread, system.balance thread =
      (if system.Inside thread then 1 else 0) - if system.Switching thread then 1 else 0 := by
    intro thread
    cases call : system.calls thread <;> simp [balance, Inside, Switching, call, Progress.balance]
  rw [Finset.sum_congr rfl fun thread _ => parts thread, Finset.sum_sub_distrib,
    Finset.sum_boole, Finset.sum_boole]
  rfl

end System

section Steps

variable {cpuCount : Nat} {system after : System cpuCount} {action : Action cpuCount}

theorem accounts_step (accounts : Accounts system.lock system.balance)
    (step : Step system action after) : Accounts after.lock after.balance := by
  cases action with
  | enter thread call =>
      obtain ⟨⟨free, -⟩, result⟩ := Option.ite_none_right_eq_some.mp step
      obtain rfl := Option.some.inj result
      have nothing : system.balance thread = 0 := by simp [System.balance, free]
      have same := system.balance_update system.lock thread (some ⟨call, 0⟩)
      rw [Option.elim_some, Progress.balance_zero, ← nothing, Function.update_eq_self] at same
      rw [same]
      exact accounts
  | operate thread =>
      obtain ⟨progress, calls, step⟩ := Option.bind_eq_some_iff.mp step
      obtain ⟨line, next, step⟩ := Option.bind_eq_some_iff.mp step
      obtain ⟨lock, applies, result⟩ := Option.bind_eq_some_iff.mp step
      obtain rfl := Option.some.inj result
      obtain ⟨more, rfl⟩ := List.getElem?_eq_some_iff.mp next
      have before : system.balance thread = progress.balance := by simp [System.balance, calls]
      rw [System.balance_update, Option.elim_some, Progress.balance_succ _ _ more, ← before]
      exact accounts.apply thread applies
  | leave thread =>
      obtain ⟨⟨call, done⟩, calls, step⟩ := Option.bind_eq_some_iff.mp step
      obtain ⟨ended, result⟩ := Option.ite_none_right_eq_some.mp step
      obtain rfl := Option.some.inj result
      obtain rfl : done = call.lines.length := ended
      have nothing : system.balance thread = 0 := by
        simp [System.balance, calls, Progress.balance_length]
      have same := system.balance_update system.lock thread none
      rw [Option.elim_none, ← nothing, Function.update_eq_self] at same
      rw [same]
      exact accounts

private theorem Progress.eq_idle_of_switching {call : Call} {done : Nat}
    (switching : Progress.switching ⟨call, done⟩ = true) : call = .idle ∧ done = 1 := by
  obtain ⟨idle, service⟩ := Bool.and_eq_true_iff.mp switching
  obtain rfl : call = .idle := by simpa using idle
  match done with
  | 0 | 2 | done + 3 => simp [Progress.place, Call.entry, Call.lines, StudentLock.idle, schedule,
      contextSwitch] at service
  | 1 => exact ⟨rfl, rfl⟩

/-- A CPU comes into `context_switch` from `idle` by the release of the lock in it. -/
theorem switching_step (step : Step system action after) {thread : Thread cpuCount}
    (switching : after.Switching thread) : system.Switching thread ∨
      action = .operate thread ∧ system.calls thread = some ⟨.idle, 0⟩ := by
  have other : ∀ {actor progress lock}, actor ≠ thread → System.Switching
      { lock, calls := Function.update system.calls actor progress } thread →
      system.Switching thread := by
    intro actor progress lock different switching
    simpa [System.Switching, different.symm] using switching
  cases action with
  | enter actor call =>
      obtain ⟨-, result⟩ := Option.ite_none_right_eq_some.mp step
      obtain rfl := Option.some.inj result
      by_cases same : actor = thread
      · subst same
        obtain ⟨-, impossible⟩ := Progress.eq_idle_of_switching
          (by simpa [System.Switching] using switching)
        cases impossible
      · exact .inl (other same switching)
  | operate actor =>
      obtain ⟨⟨call, done⟩, calls, step⟩ := Option.bind_eq_some_iff.mp step
      obtain ⟨line, -, step⟩ := Option.bind_eq_some_iff.mp step
      obtain ⟨lock, -, result⟩ := Option.bind_eq_some_iff.mp step
      obtain rfl := Option.some.inj result
      by_cases same : actor = thread
      · subst same
        obtain ⟨rfl, first⟩ := Progress.eq_idle_of_switching
          (by simpa [System.Switching] using switching)
        obtain rfl : done = 0 := Nat.succ_injective first
        exact .inr ⟨rfl, calls⟩
      · exact .inl (other same switching)
  | leave actor =>
      obtain ⟨progress, -, step⟩ := Option.bind_eq_some_iff.mp step
      obtain ⟨-, result⟩ := Option.ite_none_right_eq_some.mp step
      obtain rfl := Option.some.inj result
      by_cases same : actor = thread
      · subst same
        simp [System.Switching] at switching
      · exact .inl (other same switching)

end Steps

/-! ## Exclusion -/

/-- The count of writers is the number of threads inside student's code under the writer lock, and
none of them is there while `print_gantt_line` reads. -/
structure Excludes {cpuCount : Nat} (system : System cpuCount) : Prop where
  /-- The count is exact. -/
  counts : system.lock.writers = system.inside
  /-- The count is not negative. -/
  nonneg : 0 ≤ system.lock.writers
  /-- The reader excludes the handlers. -/
  reader : system.lock.reading = true → ∀ thread, ¬system.Inside thread

/-- No idle CPU comes to the release of the lock in `context_switch`. -/
def NotFromIdle {cpuCount : Nat} (before : System cpuCount) : Action cpuCount → Prop
  | .operate thread => before.calls thread ≠ some ⟨.idle, 0⟩
  | _ => True

/-- The count of writers is exact, and no idle CPU has released the lock. -/
structure Balanced {cpuCount : Nat} (system : System cpuCount) : Prop where
  /-- The count of writers is the sum of the balances. -/
  accounts : Accounts system.lock system.balance
  /-- No idle CPU is in `context_switch`. -/
  quiet : ∀ thread, ¬system.Switching thread

section Runs

variable {cpuCount : Nat} {system after : System cpuCount} {action : Action cpuCount}

theorem accounts_start : Accounts (.init : Lock) (System.start : System cpuCount).balance :=
  Accounts.init

private theorem Balanced.start : Balanced (.start : System cpuCount) :=
  ⟨accounts_start, fun _ => by simp [System.Switching, System.start]⟩

private theorem Balanced.step (balanced : Balanced system) (allowed : NotFromIdle system action)
    (step : Step system action after) : Balanced after where
  accounts := accounts_step balanced.accounts step
  quiet thread switching := by
    rcases switching_step step switching with already | ⟨rfl, idle⟩
    · exact balanced.quiet thread already
    · exact allowed idle

private theorem Balanced.excludes (balanced : Balanced system) : Excludes system := by
  have none : system.switching = 0 := by
    simp [System.switching, balanced.quiet]
  have counts : system.lock.writers = system.inside := by
    rw [balanced.accounts.writers, system.sum_balance, none]
    exact Int.sub_zero _
  have balance : ∀ thread, system.balance thread = if system.Inside thread then 1 else 0 := by
    intro thread
    have quiet := balanced.quiet thread
    cases call : system.calls thread <;>
      simp_all [System.balance, System.Inside, System.Switching, Progress.balance]
  refine ⟨counts, by simp [counts], fun reading thread inside => ?_⟩
  have zero := balanced.accounts.excludes (fun thread => by rw [balance]; split <;> decide) reading
    thread
  rw [balance, if_pos inside] at zero
  cases zero

/-- A release from `idle` shows in the count of writers. -/
theorem Balanced.notFromIdle (balanced : Balanced system) (step : Step system action after)
    (excludes : Excludes after) : NotFromIdle system action := by
  cases action with
  | operate thread =>
      intro idle
      have switching : after.Switching thread := by
        obtain ⟨progress, calls, step⟩ := Option.bind_eq_some_iff.mp step
        obtain ⟨line, -, step⟩ := Option.bind_eq_some_iff.mp step
        obtain ⟨lock, -, result⟩ := Option.bind_eq_some_iff.mp step
        obtain rfl := Option.some.inj result
        obtain rfl := Option.some.inj (idle.symm.trans calls)
        simp only [System.Switching, Function.update_self]
        rfl
      have accounts := (accounts_step balanced.accounts step).writers
      rw [after.sum_balance, excludes.counts] at accounts
      have some : 0 < after.switching := Finset.card_pos.mpr ⟨thread, by simpa using switching⟩
      omega
  | _ => trivial

/-- In every run the count of writers is the number of threads inside student's code under the
writer lock, less the idle CPUs in `context_switch`. It is exact and the reader excludes the
handlers throughout a run if and only if no idle CPU releases the lock in `context_switch`. -/
theorem excludes_iff_notFromIdle (actions : List (Action cpuCount)) :
    Always Step .start actions (fun system =>
      system.lock.writers = (system.inside : Int) - system.switching) ∧
    (Always Step .start actions Excludes ↔ Respects Step .start actions NotFromIdle) := by
  constructor
  · intro earlier _ system trace
    have accounts := trace.invariant accounts_start accounts_step
    rw [accounts.writers, system.sum_balance]
  · exact always_iff_respects (fun _ _ _ _ _ _ _ => trivial) Balanced.start
      (fun balanced _ allowed step => balanced.step allowed step) Balanced.excludes
      fun balanced _ step excludes => balanced.notFromIdle step excludes

end Runs

/-- The first CPU that leaves `idle` makes the count of writers negative. With two CPUs the second
one lets `print_gantt_line` read while the first is in `preempt`. -/
theorem released_by_idle :
    (∃ system : System 1, Trace Step .start [.enter (some 0) .idle, .operate (some 0)] system ∧
      system.lock.writers = -1 ∧ system.inside = 0) ∧
    ∃ system : System 2, Trace Step .start
        [.enter (some 0) .idle, .operate (some 0), .operate (some 0), .leave (some 0),
          .enter (some 0) .preempt, .operate (some 0), .enter (some 1) .idle, .operate (some 1),
          .enter none .printGanttLine, .operate none] system ∧
      system.lock.reading = true ∧ system.Inside (some 0) := by
  constructor
  · let actions : List (Action 1) := [.enter (some 0) .idle, .operate (some 0)]
    let system := (actions.foldlM act .start).get (by decide)
    exact ⟨system, .of_foldlM (Option.some_get _).symm, by decide, by decide⟩
  · let actions : List (Action 2) :=
      [.enter (some 0) .idle, .operate (some 0), .operate (some 0), .leave (some 0),
        .enter (some 0) .preempt, .operate (some 0), .enter (some 1) .idle, .operate (some 1),
        .enter none .printGanttLine, .operate none]
    let system := (actions.foldlM act .start).get (by decide)
    exact ⟨system, .of_foldlM (Option.some_get _).symm, by decide, by decide⟩

end CS2200.Scheduling.StudentLock
