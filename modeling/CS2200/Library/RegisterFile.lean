import Mathlib.Logic.Function.Basic

/-!
# Register files with a wired register

A register file in which one register always reads as a constant, whatever is written to it.
-/

namespace CS2200
namespace RegisterFile

variable {ν ω : Type*} [DecidableEq ν] (wired : ν) (constant : ω) (contents : ν → ω)

/-- What is read when the register `wired` reads as `constant`. -/
def read (number : ν) : ω := if number = wired then constant else contents number

theorem read_update (number other : ν) (value : ω) :
    read wired constant (Function.update contents number value) other =
      if other = number ∧ number ≠ wired then value else read wired constant contents other := by
  unfold read
  by_cases same : other = number
  · subst same
    by_cases isWired : other = wired <;> simp [isWired]
  · rw [if_neg fun both : other = number ∧ number ≠ wired => same both.1,
      Function.update_of_ne same]

end RegisterFile
end CS2200
