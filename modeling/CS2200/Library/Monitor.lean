import Mathlib.Logic.Function.Basic

/-!
# Condition variables

Threads wait at a condition variable until a resource is ready. A waiting thread may be woken for no
reason, and looks at the resource again after it was woken. Where whoever makes the resource ready
wakes all threads, and a thread waits only for a resource that is not ready, no thread waits for a
resource that is.
-/

namespace CS2200.Monitor

/-- Where a thread stands with a condition variable. -/
inductive Waiting where
  /-- Not waiting. -/
  | away
  /-- Waiting, and not woken since it began to wait. -/
  | blocked
  /-- Woken, before it looks at the resource again. -/
  | woken
  deriving DecidableEq, Repr

/-- A waiting thread is woken. -/
def Waiting.wake : Waiting → Waiting
  | blocked => woken
  | waiting => waiting

private theorem Waiting.wake_ne_blocked (waiting : Waiting) : waiting.wake ≠ .blocked := by
  cases waiting <;> decide

section Threads

variable {σ ι : Type*}

/-- Wake all threads. -/
def broadcast (threads : ι → Waiting) (thread : ι) : Waiting := (threads thread).wake

/-- No thread waits for a resource that is ready. -/
def NoneLost (ready : σ → Prop) (resource : σ) (threads : ι → Waiting) : Prop :=
  ∀ thread, threads thread = .blocked → ¬ready resource

namespace NoneLost

variable {ready : σ → Prop} {resource after : σ} {threads : ι → Waiting}

private theorem broadcast : NoneLost ready resource (broadcast threads) := fun thread blocked =>
  absurd blocked (threads thread).wake_ne_blocked

private theorem retract (noneLost : NoneLost ready resource threads)
    (still : ready after → ready resource) : NoneLost ready after threads :=
  fun thread blocked isReady => noneLost thread blocked (still isReady)

variable [DecidableEq ι]

/-- A thread that begins to wait has seen that the resource is not ready. -/
theorem update (noneLost : NoneLost ready resource threads) (thread : ι) {waiting : Waiting}
    (unready : waiting = .blocked → ¬ready resource) :
    NoneLost ready resource (Function.update threads thread waiting) := by
  intro other blocked
  by_cases same : other = thread
  · subst same
    exact unready (by simpa using blocked)
  · exact noneLost other (by simpa [same] using blocked)

end NoneLost

/-! ## Steps of a monitor -/

variable [DecidableEq ι] (ready : σ → Prop)

/-- What threads do to a resource and a condition variable under one mutex. -/
inductive Step : σ × (ι → Waiting) → σ × (ι → Waiting) → Prop
  /-- Any change of the resource that is announced to all threads. -/
  | announce (before after : σ) (threads : ι → Waiting) :
      Step (before, threads) (after, broadcast threads)
  /-- A change that does not make the resource ready. -/
  | retract {before after : σ} (threads : ι → Waiting) (still : ready after → ready before) :
      Step (before, threads) (after, threads)
  /-- A thread begins to wait. -/
  | wait {resource : σ} (threads : ι → Waiting) (thread : ι) (unready : ¬ready resource) :
      Step (resource, threads) (resource, Function.update threads thread .blocked)
  /-- A thread is woken, or does not wait any more. -/
  | leave (resource : σ) (threads : ι → Waiting) (thread : ι) {waiting : Waiting}
      (left : waiting ≠ .blocked) :
      Step (resource, threads) (resource, Function.update threads thread waiting)

theorem Step.noneLost {ready : σ → Prop} {before after : σ × (ι → Waiting)}
    (step : Step ready before after) (noneLost : NoneLost ready before.1 before.2) :
    NoneLost ready after.1 after.2 := by
  cases step with
  | announce => exact .broadcast
  | retract _ still => exact noneLost.retract still
  | wait _ thread unready => exact noneLost.update thread fun _ => unready
  | leave _ _ thread left => exact noneLost.update thread fun blocked => absurd blocked left

end Threads

end CS2200.Monitor
