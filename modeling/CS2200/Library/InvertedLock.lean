import Mathlib.Algebra.BigOperators.Group.Finset.Piecewise
import Mathlib.Algebra.BigOperators.Ring.Finset
import Mathlib.Algebra.Order.BigOperators.Group.Finset
import Mathlib.Data.Fintype.Basic

/-!
# Many writers or one reader

A lock that any number of writers or one reader can hold, kept as a count of writers. The count is
the sum of what the threads have locked and not unlocked. It is the number of holders, and the
reader excludes them, as long as every thread unlocks only what it has locked.
-/

namespace CS2200
namespace InvertedLock

/-- The data of the lock. -/
structure Lock where
  /-- Number of writers. -/
  writers : Int
  /-- The reader holds the mutex. -/
  reading : Bool
  deriving DecidableEq, Repr

/-- The operations. -/
inductive Operation where
  | readerLock
  | readerUnlock
  | writerLock
  | writerUnlock
  deriving DecidableEq, Repr

/-- What an operation adds to the number of writers. -/
def Operation.weight : Operation → Int
  | .readerLock | .readerUnlock => 0
  | .writerLock => 1
  | .writerUnlock => -1

namespace Lock

/-- The lock that nobody holds. -/
def init : Lock := { writers := 0, reading := false }

/-- An operation, if it need not wait: the reader waits for the writers, and all operations but the
release by the reader wait for the reader. -/
def apply (lock : Lock) : Operation → Option Lock
  | .readerLock =>
      if lock.reading = false ∧ ¬lock.writers > 0 then some { lock with reading := true } else none
  | .readerUnlock => some { lock with reading := false }
  | .writerLock =>
      if lock.reading = false then some { lock with writers := lock.writers + 1 } else none
  | .writerUnlock =>
      if lock.reading = false then some { lock with writers := lock.writers - 1 } else none

end Lock

variable {ι : Type*} [Fintype ι] {lock after : Lock} {balance : ι → Int}

/-- The count of writers is the sum of what the threads hold. -/
structure Accounts (lock : Lock) (balance : ι → Int) : Prop where
  /-- The count is exact. -/
  writers : lock.writers = ∑ thread, balance thread
  /-- A reader has seen no writer. -/
  reader : lock.reading = true → lock.writers ≤ 0

namespace Accounts

theorem init : Accounts Lock.init fun _ : ι => 0 := ⟨by simp [Lock.init], by simp [Lock.init]⟩

private theorem sum_update [DecidableEq ι] (balance : ι → Int) (thread : ι) (change : Int) :
    ∑ other, Function.update balance thread (balance thread + change) other =
      ∑ other, balance other + change := by
  rw [Finset.sum_update_of_mem (Finset.mem_univ thread),
    ← Finset.add_sum_erase _ balance (Finset.mem_univ thread), Finset.sdiff_singleton_eq_erase]
  exact Int.add_right_comm _ _ _

/-- An operation is accounted to its thread. -/
theorem apply [DecidableEq ι] (accounts : Accounts lock balance) {operation : Operation} (thread : ι)
    (applies : lock.apply operation = some after) :
    Accounts after (Function.update balance thread (balance thread + operation.weight)) := by
  have sum := sum_update balance thread operation.weight
  rw [← accounts.writers] at sum
  cases operation with
  | readerLock =>
      obtain ⟨⟨-, none⟩, result⟩ := Option.ite_none_right_eq_some.mp applies
      obtain rfl := Option.some.inj result
      exact ⟨by simpa [Operation.weight] using sum.symm, fun _ => Int.not_lt.mp none⟩
  | readerUnlock =>
      obtain rfl := Option.some.inj applies
      exact ⟨by simpa [Operation.weight] using sum.symm, by simp⟩
  | writerLock =>
      obtain ⟨free, result⟩ := Option.ite_none_right_eq_some.mp applies
      obtain rfl := Option.some.inj result
      exact ⟨sum.symm, by simp [free]⟩
  | writerUnlock =>
      obtain ⟨free, result⟩ := Option.ite_none_right_eq_some.mp applies
      obtain rfl := Option.some.inj result
      exact ⟨sum.symm, by simp [free]⟩

/-- A reader excludes the holders if no thread has unlocked what it did not lock. -/
theorem excludes (accounts : Accounts lock balance) (nonneg : ∀ thread, 0 ≤ balance thread)
    (reading : lock.reading = true) (thread : ι) : balance thread = 0 := by
  have none := accounts.reader reading
  rw [accounts.writers] at none
  have zero := Int.le_antisymm none (Finset.sum_nonneg fun thread _ => nonneg thread)
  exact (Finset.sum_eq_zero_iff_of_nonneg fun thread _ => nonneg thread).mp zero thread
    (Finset.mem_univ thread)

end Accounts

end InvertedLock
end CS2200
