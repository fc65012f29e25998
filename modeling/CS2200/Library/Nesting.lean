import Mathlib.Data.List.Basic

/-!
# Nested services

Something that is interrupted waits with its context until the interruption has been served, and
the service can be interrupted in the same way. The contexts that wait form a stack. `Nested` says
of the stack that each service is right as soon as it goes on, whatever context it resumes with;
the rules below keep this when a service is interrupted, and when the memory changes.
-/

namespace CS2200

section Nested

variable {κ μ : Type*}

/-- The current context serves the interruption of the first context of the stack, and every
context that resumes it serves the interruption of the next one. -/
def Nested (serves : κ → κ → μ → Prop) (resumes : κ → κ → Prop) : List κ → κ → μ → Prop
  | [], _, _ => True
  | origin :: outer, current, memory =>
      serves origin current memory ∧
        ∀ resumed, resumes origin resumed → Nested serves resumes outer resumed memory

namespace Nested

variable {serves : κ → κ → μ → Prop} {resumes : κ → κ → Prop} {current after : κ}
  {waiting : List κ} {memory changed : μ}

/-- What goes on is interrupted; it must not depend on what a service changes. -/
theorem interrupt (nested : Nested serves resumes waiting current memory)
    (robust : ∀ origin ∈ waiting.head?, ∀ resumed, resumes current resumed →
      serves origin current memory → serves origin resumed memory)
    (begins : serves current after memory) :
    Nested serves resumes (current :: waiting) after memory := by
  refine ⟨begins, fun resumed resumes => ?_⟩
  cases waiting with
  | nil => trivial
  | cons origin outer => exact ⟨robust origin rfl resumed resumes nested.1, nested.2⟩

/-- A change of the memory that disturbs no service. -/
theorem frame (nested : Nested serves resumes waiting current memory)
    (undisturbed : ∀ origin ∈ waiting, ∀ context, serves origin context memory →
      serves origin context changed) : Nested serves resumes waiting current changed := by
  induction waiting generalizing current with
  | nil => trivial
  | cons origin outer ih =>
      refine ⟨undisturbed origin List.mem_cons_self current nested.1, fun resumed resumes => ?_⟩
      exact ih (nested.2 resumed resumes) fun origin waits =>
        undisturbed origin (List.mem_cons_of_mem _ waits)

end Nested

end Nested

end CS2200
