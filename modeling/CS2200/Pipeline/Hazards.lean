import CS2200.Pipeline.Refinement
import Mathlib.Algebra.BigOperators.Group.Finset.Basic

/-!
# Programs without hazards

The pipeline executes every program whose operands are supplied, and a condition on a program's
instructions that does not mention the pipeline is enough for that.
-/

namespace CS2200.Pipeline

open Interrupts (Address Instruction Machine Register)

/-! ## Runs of the instruction set -/

/-- The machine after a number of instructions. -/
def run (code : Address → Word) (machine : Machine) : Nat → Option Machine
  | 0 => some machine
  | instructions + 1 => (run code machine instructions).bind (execute code)

private theorem run_of_schedule {code : Address → Word} {machine : Machine} {instructions : Nat}
    {progress : Progress} (scheduled : schedule code machine instructions = some progress) :
    run code machine instructions = some progress.machine := by
  induction instructions generalizing progress with
  | zero =>
      obtain ⟨_, -, rfl⟩ := Option.map_eq_some_iff.mp scheduled
      rfl
  | succ instructions ih =>
      obtain ⟨before, earlier, advances⟩ := Option.bind_eq_some_iff.mp scheduled
      obtain ⟨instruction, _, fetches, executes, -⟩ := advance_cases advances
      rw [run, ih earlier, Option.bind_some, execute, fetches, Option.bind_some, executes]

/-- As long as all operands are supplied, the pipeline has executed the instruction set's run, in
the cycles that the scoreboard counts. -/
theorem pipeline_refines {code : Address → Word} {machine : Machine} {instructions : Nat}
    {progress : Progress} (begins : machine.context.pc = 0)
    (scheduled : schedule code machine instructions = some progress) :
    run code machine instructions = some progress.machine ∧
      ((step code)^[progress.cycle] (start machine)).Agrees code progress.machine :=
  ⟨run_of_schedule scheduled, agrees_of_schedule begins scheduled⟩

/-- A machine with empty memories. -/
def blank : Machine :=
  { context := { pc := 0, registers := fun _ => 0, enabled := false }, memory := fun _ => 0 }

/-- A loop with a load that is used at once. -/
def loop (cell : Address) : Word :=
  ([.addi .a0 .a0 5, .sw .a0 1 .zero, .lw .a1 1 .zero, .add .s0 .a1 .zero,
    .beq .zero .zero (-5)].map Interrupts.encode).getD cell.toNat 0

theorem pipeline_refines_loop : ∃ progress, schedule loop blank 7 = some progress ∧
    run loop blank 7 = some progress.machine ∧
      ((step loop)^[progress.cycle] (start blank)).Agrees loop progress.machine := by
  obtain ⟨progress, scheduled⟩ := Option.isSome_iff_exists.mp
    (by decide : (schedule loop blank 7).isSome = true)
  exact ⟨progress, scheduled, pipeline_refines rfl scheduled⟩

/-! ## Spaced programs -/

section Spaced

variable (code : Address → Word) (machines : Nat → Machine) (instructions : Nat)

/-- The first instructions of a run; the control unit knows the one after them. -/
structure Runs : Prop where
  execute : ∀ k < instructions, execute code (machines k) = some (machines (k + 1))
  fetch : (fetch code (machines instructions)).isSome

/-- An instruction depends on the contents of a register. -/
def Uses (instruction : Instruction) (register : Register) : Prop :=
  register ≠ .zero ∧
    (register = first instruction ∨
      usesSecond instruction = true ∧ register = second instruction)
  deriving Decidable

/-- No instruction uses what the instruction before it loads, or what the second or the third
instruction before it writes. -/
def Spaced : Prop :=
  ∀ k ≤ instructions, ∀ instruction, fetch code (machines k) = some instruction →
    ∀ register, Uses instruction register →
      ∀ j older, fetch code (machines j) = some older →
        (j + 1 = k → ¬ (slot older).Loads register) ∧
          (j + 2 = k ∨ j + 3 = k → ¬ (slot older).Writes register)

/-- The cycles between an instruction and the next one. -/
def cost (machine next : Machine) : Nat :=
  match fetch code machine, fetch code next with
  | some instruction, some after =>
      if branches machine instruction then 4 else if stalls instruction after then 2 else 1
  | _, _ => 0

end Spaced

section Hazards

variable {code : Address → Word} {machines : Nat → Machine} {instructions : Nat}

/-- What the window holds before an instruction comes from the two instructions before it. -/
structure Recent (code : Address → Word) (machines : Nat → Machine) (k : Nat) (window : Window) :
    Prop where
  mem : ∀ register, window.mem.Writes register →
    ∃ j older, fetch code (machines j) = some older ∧ j + 1 = k ∧ (slot older).Writes register
  wb : ∀ register, window.wb.Writes register →
    ∃ j older, fetch code (machines j) = some older ∧
      (j + 1 = k ∧ (slot older).Loads register ∨ j + 2 = k ∧ (slot older).Writes register)

private theorem supplied_of_silent {last before third : Slot} {register other : Register}
    (noLoad : ¬ before.Writes register) (old : ¬ third.Writes register) :
    Supplied last before third register other := by
  unfold Supplied
  rw [if_neg noLoad]
  split
  case isTrue => exact fun both => noLoad both.1.writes
  case isFalse => exact old

/-- Register 0 needs no supply. -/
theorem ready_of_uses {last before third : Slot} {instruction : Instruction}
    (fresh : ∀ register, Uses instruction register →
      ¬ before.Writes register ∧ ¬ third.Writes register) :
    Ready last before third instruction := by
  constructor
  · by_cases isZero : first instruction = .zero
    · rw [isZero]
      exact supplied_zero _ _ _ _
    · have both := fresh _ ⟨isZero, .inl rfl⟩
      exact supplied_of_silent both.1 both.2
  · intro uses
    by_cases isZero : second instruction = .zero
    · rw [isZero]
      exact supplied_zero _ _ _ _
    · have both := fresh _ ⟨isZero, .inr ⟨uses, rfl⟩⟩
      exact supplied_of_silent both.1 both.2

private theorem loads_of_stalls {instruction after : Instruction} {register : Register}
    (waits : stalls instruction after = true) (writes : (slot instruction).Writes register) :
    (slot instruction).Loads register := by
  cases instruction with
  | lw rx offset ry =>
      obtain ⟨isNot, result | loads⟩ := writes
      · cases result
      · exact ⟨isNot, loads⟩
  | _ => cases waits

/-- One instruction of a spaced program. -/
theorem advance_of_spaced {k : Nat} {progress : Progress}
    (spaced : Spaced code machines (k + 1))
    (executes : execute code (machines k) = some (machines (k + 1)))
    (fetches : (fetch code (machines (k + 1))).isSome) (here : progress.machine = machines k)
    (recent : Recent code machines k progress.window) :
    ∃ next, advance code progress = some next ∧ next.machine = machines (k + 1) ∧
      next.cycle = progress.cycle + cost code (machines k) (machines (k + 1)) ∧
      Recent code machines (k + 1) next.window := by
  obtain ⟨instruction, fetch, effect⟩ := Option.bind_eq_some_iff.mp executes
  obtain ⟨after, fetchNext⟩ := Option.isSome_iff_exists.mp fetches
  have apart := spaced (k + 1) le_rfl after fetchNext
  simp only [advance, here, fetch, effect, fetchNext, Option.bind_eq_bind, Option.bind_some]
  by_cases taken : branches (machines k) instruction = true
  · rw [if_pos taken]
    refine ⟨_, rfl, rfl, ?_, ?_, ?_⟩
    · simp [cost, fetch, fetchNext, taken]
    · simp +contextual [Window.refilled, Slot.Writes, eq_comm]
    · simp [Window.refilled, Slot.Writes]
  · rw [if_neg taken]
    by_cases waits : stalls instruction after = true
    · have ready : Ready (.silent (target after)) (slot instruction) progress.window.mem after := by
        refine ready_of_uses fun register uses => ⟨fun writes => ?_, fun writes => ?_⟩
        · exact (apart register uses k instruction fetch).1 rfl (loads_of_stalls waits writes)
        · obtain ⟨j, older, fetchOlder, rfl, writesOlder⟩ := recent.mem register writes
          exact (apart register uses j older fetchOlder).2 (.inl rfl) writesOlder
      rw [if_pos waits, if_pos ready]
      refine ⟨_, rfl, rfl, ?_, ?_, ?_⟩
      · simp [cost, fetch, fetchNext, taken, waits]
      · simp [Slot.Writes]
      · intro register writes
        exact ⟨k, instruction, fetch, .inl ⟨rfl, loads_of_stalls waits writes⟩⟩
    · have ready : Ready (slot instruction) progress.window.mem progress.window.wb after := by
        refine ready_of_uses fun register uses => ⟨fun writes => ?_, fun writes => ?_⟩
        · obtain ⟨j, older, fetchOlder, rfl, writesOlder⟩ := recent.mem register writes
          exact (apart register uses j older fetchOlder).2 (.inl rfl) writesOlder
        · obtain ⟨j, older, fetchOlder, ⟨rfl, loads⟩ | ⟨rfl, writesOlder⟩⟩ :=
            recent.wb register writes
          · exact (apart register uses j older fetchOlder).2 (.inl rfl) loads.writes
          · exact (apart register uses j older fetchOlder).2 (.inr rfl) writesOlder
      rw [if_neg waits, if_pos ready]
      refine ⟨_, rfl, rfl, ?_, ?_, ?_⟩
      · simp [cost, fetch, fetchNext, taken, waits]
      · exact fun register writes => ⟨k, instruction, fetch, rfl, writes⟩
      · intro register writes
        obtain ⟨j, older, fetchOlder, rfl, writesOlder⟩ := recent.mem register writes
        exact ⟨j, older, fetchOlder, .inr ⟨rfl, writesOlder⟩⟩

private theorem schedule_of_spaced (runs : Runs code machines instructions)
    (spaced : Spaced code machines instructions) :
    ∃ progress, schedule code (machines 0) instructions = some progress ∧
      progress.machine = machines instructions ∧
      progress.cycle =
        2 + ∑ k ∈ Finset.range instructions, cost code (machines k) (machines (k + 1)) ∧
      Recent code machines instructions progress.window := by
  induction instructions with
  | zero =>
      obtain ⟨instruction, fetches⟩ := Option.isSome_iff_exists.mp runs.fetch
      refine ⟨_, by rw [schedule, fetches]; rfl, rfl, rfl, ?_, ?_⟩
      · simp +contextual [Window.refilled, Slot.Writes, eq_comm]
      · simp [Window.refilled, Slot.Writes]
  | succ instructions ih =>
      have executes := runs.execute instructions (Nat.lt_succ_self instructions)
      have fetched : (fetch code (machines instructions)).isSome := by
        obtain ⟨instruction, fetches, -⟩ := Option.bind_eq_some_iff.mp executes
        rw [fetches]
        rfl
      obtain ⟨before, scheduled, here, cycle, recent⟩ := ih
        ⟨fun k below => runs.execute k (Nat.lt_succ_of_lt below), fetched⟩
        fun k below => spaced k (Nat.le_succ_of_le below)
      obtain ⟨next, advances, there, cycleNext, recentNext⟩ :=
        advance_of_spaced spaced executes runs.fetch here recent
      refine ⟨next, by rw [schedule, scheduled]; exact advances, there, ?_, recentNext⟩
      rw [cycleNext, cycle, Finset.sum_range_succ, Nat.add_assoc]

/-- The pipeline executes a spaced program. A branch that is taken costs three cycles more than
another instruction, and a load before an instruction that names its register costs one more. -/
theorem spaced_agrees (begins : (machines 0).context.pc = 0)
    (runs : Runs code machines instructions) (spaced : Spaced code machines instructions) :
    ((step code)^[2 + ∑ k ∈ Finset.range instructions, cost code (machines k) (machines (k + 1))]
      (start (machines 0))).Agrees code (machines instructions) := by
  obtain ⟨progress, scheduled, there, cycle, -⟩ := schedule_of_spaced runs spaced
  rw [← cycle, ← there]
  exact agrees_of_schedule begins scheduled

private theorem spaced_iff : Spaced code machines instructions ↔
    ∀ k < instructions + 1, ∀ instruction ∈ fetch code (machines k),
      ∀ register ∈ Register.all, Uses instruction register →
        ∀ j < k, ∀ older ∈ fetch code (machines j),
          (j + 1 = k → ¬ (slot older).Loads register) ∧
            (j + 2 = k ∨ j + 3 = k → ¬ (slot older).Writes register) := by
  constructor
  · intro spaced k below instruction fetches register _ uses j _ older fetchesOlder
    exact spaced k (Nat.le_of_lt_succ below) instruction fetches register uses j older fetchesOlder
  · intro spaced k below instruction fetches register uses j older fetchesOlder
    have apart (before : j < k) := spaced k (Nat.lt_succ_of_le below) instruction fetches register
      (Register.mem_all register) uses j before older fetchesOlder
    exact ⟨fun next => (apart (by omega)).1 next, fun near => (apart (by omega)).2 near⟩

instance : Decidable (Spaced code machines instructions) :=
  decidable_of_iff _ spaced_iff.symm

/-- The machines of a run. -/
def follow (code : Address → Word) (machine : Machine) : Nat → Machine
  | 0 => machine
  | k + 1 => (execute code (follow code machine k)).getD (follow code machine k)

/-- A loop with a word that is loaded and used later, a result that is stored at once and two
branches that are taken. The load waits, since its successor has the register in its offset. -/
def spacedLoop (cell : Address) : Word :=
  ([.addi .a0 .zero 5, .sw .a0 1 .zero, .lw .a1 1 .zero, .addi .s0 .zero 4, .beq .zero .zero 1,
    .add .a0 .a1 .a1, .addi .a2 .zero 7, .add .a3 .a1 .a1,
    .beq .zero .zero (-9)].map Interrupts.encode).getD cell.toNat 0

theorem spaced_agrees_spacedLoop :
    ((step spacedLoop)^[17] (start blank)).Agrees spacedLoop (follow spacedLoop blank 8) := by
  have runs : Runs spacedLoop (follow spacedLoop blank) 8 := by
    refine ⟨fun k below => ?_, by decide +kernel⟩
    have goesOn : ∀ k < 8, (execute spacedLoop (follow spacedLoop blank k)).isSome := by
      decide +kernel
    obtain ⟨next, executes⟩ := Option.isSome_iff_exists.mp (goesOn k below)
    rw [follow, executes, Option.getD_some]
  have spaced : Spaced spacedLoop (follow spacedLoop blank) 8 := by decide +kernel
  have cycles : 2 + ∑ k ∈ Finset.range 8,
      cost spacedLoop (follow spacedLoop blank k) (follow spacedLoop blank (k + 1)) = 17 := by
    decide +kernel
  exact cycles ▸ spaced_agrees rfl runs spaced

end Hazards

end CS2200.Pipeline
