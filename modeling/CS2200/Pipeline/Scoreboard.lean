import CS2200.Interrupts.Machine

/-!
# A scoreboard for the pipeline

The instruction set says what a program computes. Beside its run, a scoreboard keeps what the last
two stages of the pipeline hold and counts cycles. An instruction that follows is supplied if the
forwarding unit or the register file has all of its operands.
-/

namespace CS2200.Pipeline

open Interrupts (Address Instruction Machine Register address decode)

/-! ## Instructions -/

/-- The instructions that the control unit knows. -/
def implemented : Instruction → Bool
  | .add .. | .nand .. | .addi .. | .lw .. | .sw .. | .beq .. => true
  | _ => false

/-- The field `rx`. -/
def target : Instruction → Register
  | .add rx .. | .nand rx .. | .addi rx .. | .lw rx .. | .sw rx .. | .beq rx .. => rx
  | _ => .zero

/-- The first operand, the field `ry`. -/
def first : Instruction → Register
  | .add _ ry _ | .nand _ ry _ | .addi _ ry _ | .lw _ _ ry | .sw _ _ ry | .beq _ ry _ => ry
  | _ => .zero

/-- The second operand. An instruction with an offset has its low bits in the place of `rz`. -/
def second : Instruction → Register
  | .add _ _ rz | .nand _ _ rz => rz
  | .addi _ _ offset | .lw _ offset _ => .ofNumber (offset.extractLsb' 0 4)
  | .sw rx .. | .beq rx .. => rx
  | _ => .zero

/-- The second operand has a use. -/
def usesSecond : Instruction → Bool
  | .add .. | .nand .. | .sw .. | .beq .. => true
  | _ => false

/-- The instruction is a branch that is taken. -/
def branches (machine : Machine) : Instruction → Bool
  | .beq rx ry _ => machine.context.read rx = machine.context.read ry
  | _ => false

/-- The instruction at the program counter, in a memory that holds instructions only. -/
def fetch (code : Address → Interrupts.Word) (machine : Machine) : Option Instruction :=
  (decode (code (address machine.context.pc))).filter implemented

/-- One instruction. -/
def execute (code : Address → Interrupts.Word) (machine : Machine) : Option Machine :=
  (fetch code machine).bind (Instruction.execute machine 0)

/-! ## Slots -/

/-- What an instruction, or a bubble, does to the register file after the arithmetic unit. -/
inductive Slot where
  /-- Nothing is written. -/
  | silent (rx : Register)
  /-- The output of the arithmetic unit is written. -/
  | result (rx : Register)
  /-- A word of the data memory is written. -/
  | load (rx : Register)
  deriving DecidableEq, Repr

namespace Slot

/-- The field `rx` of a slot. -/
def rx : Slot → Register
  | silent rx | result rx | load rx => rx

/-- A slot writes a register. -/
def Writes (slot : Slot) (register : Register) : Prop :=
  register ≠ .zero ∧ (slot = result register ∨ slot = load register)
  deriving Decidable

/-- A slot loads a register. -/
def Loads (slot : Slot) (register : Register) : Prop :=
  register ≠ .zero ∧ slot = load register
  deriving Decidable

theorem Loads.writes {slot : Slot} {register : Register} (loads : slot.Loads register) :
    slot.Writes register :=
  ⟨loads.1, .inr loads.2⟩

end Slot

/-- The slot that an instruction is. -/
def slot : Instruction → Slot
  | .add rx .. | .nand rx .. | .addi rx .. => .result rx
  | .lw rx .. => .load rx
  | instruction => .silent (target instruction)

/-- An operand is supplied if its newest value is that of the last slot, or a word that the slot
before loads, or in the register file since before these two and the one before them. The unit
compares the last slot with the other operand. -/
def Supplied (last before third : Slot) (register other : Register) : Prop :=
  if last.Writes register then ¬ (before.Loads register ∧ last.rx ≠ other)
  else if before.Writes register then before.Loads register ∧ last.rx ≠ other
  else ¬ third.Writes register
  deriving Decidable

/-- All operands that an instruction uses are supplied. -/
def Ready (last before third : Slot) (instruction : Instruction) : Prop :=
  Supplied last before third (first instruction) (second instruction) ∧
    (usesSecond instruction = true →
      Supplied last before third (second instruction) (first instruction))
  deriving Decidable

/-- The pipeline stalls between two instructions. -/
def stalls : Instruction → Instruction → Bool
  | .lw rx .., after => rx = first after || rx = second after
  | _, _ => false

/-! ## The scoreboard -/

/-- What is in the stages `MEM` and `WB` while an instruction is in `EX`. -/
structure Window where
  mem : Slot
  wb : Slot
  deriving DecidableEq, Repr

/-- The stages after the pipeline was filled again. The last slot is a cleared word, which reads as
an instruction that writes register 0. -/
def Window.refilled : Window := { mem := .result .zero, wb := .silent .zero }

/-- A machine before an instruction, and the cycle in which the instruction is in `EX`. -/
structure Progress where
  machine : Machine
  window : Window
  cycle : Nat

/-- The instruction in `EX` is executed. A branch that is taken costs three cycles and a stall
costs one. -/
def advance (code : Address → Interrupts.Word) (progress : Progress) : Option Progress := do
  let instruction ← fetch code progress.machine
  let machine ← instruction.execute progress.machine 0
  let after ← fetch code machine
  if branches progress.machine instruction then
    some { machine, window := .refilled, cycle := progress.cycle + 4 }
  else if stalls instruction after then
    if Ready (.silent (target after)) (slot instruction) progress.window.mem after then
      some {
        machine
        window := { mem := .silent (target after), wb := slot instruction }
        cycle := progress.cycle + 2 }
    else none
  else
    if Ready (slot instruction) progress.window.mem progress.window.wb after then
      some {
        machine
        window := { mem := slot instruction, wb := progress.window.mem }
        cycle := progress.cycle + 1 }
    else none

/-- What an instruction does to the scoreboard. -/
theorem advance_cases {code : Address → Interrupts.Word} {progress next : Progress}
    (advances : advance code progress = some next) :
    ∃ instruction after, fetch code progress.machine = some instruction ∧
      instruction.execute progress.machine 0 = some next.machine ∧
      fetch code next.machine = some after ∧
      (branches progress.machine instruction = true ∧
          next.window = .refilled ∧ next.cycle = progress.cycle + 4 ∨
        branches progress.machine instruction = false ∧ stalls instruction after = true ∧
          Ready (.silent (target after)) (slot instruction) progress.window.mem after ∧
          next.window = { mem := .silent (target after), wb := slot instruction } ∧
          next.cycle = progress.cycle + 2 ∨
        branches progress.machine instruction = false ∧ stalls instruction after = false ∧
          Ready (slot instruction) progress.window.mem progress.window.wb after ∧
          next.window = { mem := slot instruction, wb := progress.window.mem } ∧
          next.cycle = progress.cycle + 1) := by
  obtain ⟨instruction, fetches, advances⟩ := Option.bind_eq_some_iff.mp advances
  obtain ⟨machine, executes, advances⟩ := Option.bind_eq_some_iff.mp advances
  obtain ⟨after, fetchesNext, advances⟩ := Option.bind_eq_some_iff.mp advances
  refine ⟨instruction, after, fetches, ?_⟩
  split at advances
  case isTrue taken =>
    obtain rfl := Option.some.inj advances
    exact ⟨executes, fetchesNext, .inl ⟨taken, rfl, rfl⟩⟩
  case isFalse falls =>
    have falls := Bool.eq_false_iff.mpr falls
    split at advances
    case isTrue waits =>
      obtain ⟨ready, final⟩ := Option.ite_none_right_eq_some.mp advances
      obtain rfl := Option.some.inj final
      exact ⟨executes, fetchesNext, .inr (.inl ⟨falls, waits, ready, rfl, rfl⟩)⟩
    case isFalse flows =>
      obtain ⟨ready, final⟩ := Option.ite_none_right_eq_some.mp advances
      obtain rfl := Option.some.inj final
      exact ⟨executes, fetchesNext,
        .inr (.inr ⟨falls, Bool.eq_false_iff.mpr flows, ready, rfl, rfl⟩)⟩

/-- The progress after a number of instructions, as long as all operands are supplied. -/
def schedule (code : Address → Interrupts.Word) (machine : Machine) : Nat → Option Progress
  | 0 => (fetch code machine).map fun _ => { machine, window := .refilled, cycle := 2 }
  | instructions + 1 => (schedule code machine instructions).bind (advance code)

end CS2200.Pipeline
