import CS2200.Library.RegisterFile
import CS2200.Library.Trace
import Mathlib.Logic.Function.Basic

/-!
# The LC-2200-32

The instruction set with interrupts. An interrupt is taken between instructions; a program sees
nothing of it except that `$k0` changes and that the handler runs.
-/

namespace CS2200.Interrupts

/-! ## Instructions -/

/-- Contents of a register or of a memory cell. -/
abbrev Word := BitVec 32

/-- The memory has 24 address lines. -/
abbrev Address := BitVec 24

/-- General registers, in the order of their numbers. -/
inductive Register where
  | zero
  | «at»
  | v0
  | a0
  | a1
  | a2
  | a3
  | a4
  | s0
  | s1
  | s2
  | s3
  | k0
  | sp
  | fp
  | ra
  deriving DecidableEq, Repr

namespace Register

/-- All registers. -/
def all : List Register :=
  [zero, «at», v0, a0, a1, a2, a3, a4, s0, s1, s2, s3, k0, sp, fp, ra]

theorem mem_all (register : Register) : register ∈ all := by
  cases register <;> decide

/-- The number of a register. -/
def number (register : Register) : BitVec 4 := BitVec.ofNat 4 register.ctorIdx

/-- The register with a given number. -/
def ofNumber (number : BitVec 4) : Register := all.get number.toFin

@[simp] theorem ofNumber_number (register : Register) : ofNumber register.number = register := by
  cases register <;> rfl

end Register

/-- Instructions that the microprogram implements. -/
inductive Instruction where
  | add (rx ry rz : Register)
  | nand (rx ry rz : Register)
  | addi (rx ry : Register) (offset : BitVec 20)
  | lw (rx : Register) (offset : BitVec 20) (ry : Register)
  | sw (rx : Register) (offset : BitVec 20) (ry : Register)
  | beq (rx ry : Register) (offset : BitVec 20)
  | jalr (rx ry : Register)
  | halt
  | ei
  | di
  | reti
  | boni (rx ry : Register) (offset : BitVec 20)
  deriving DecidableEq, Repr

/-- The opcode and the fields of a word. -/
def fields (opcode rx ry : BitVec 4) (low : BitVec 20) : Word := opcode ++ rx ++ ry ++ low

/-- The word that the assembler makes of an instruction. -/
def encode : Instruction → Word
  | .add rx ry rz => fields 0 rx.number ry.number (rz.number.setWidth 20)
  | .nand rx ry rz => fields 1 rx.number ry.number (rz.number.setWidth 20)
  | .addi rx ry offset => fields 2 rx.number ry.number offset
  | .lw rx offset ry => fields 3 rx.number ry.number offset
  | .sw rx offset ry => fields 4 rx.number ry.number offset
  | .beq rx ry offset => fields 5 rx.number ry.number offset
  | .jalr rx ry => fields 6 rx.number ry.number 0
  | .halt => fields 7 0 0 0
  | .ei => fields 10 0 0 0
  | .di => fields 11 0 0 0
  | .reti => fields 12 0 0 0
  | .boni rx ry offset => fields 13 rx.number ry.number offset

/-- The instruction that a word stands for. -/
def decode (word : Word) : Option Instruction :=
  let rx := Register.ofNumber (word.extractLsb' 24 4)
  let ry := Register.ofNumber (word.extractLsb' 20 4)
  let rz := Register.ofNumber (word.extractLsb' 0 4)
  let offset := word.extractLsb' 0 20
  match (word.extractLsb' 28 4).toFin with
  | 0 => some (.add rx ry rz)
  | 1 => some (.nand rx ry rz)
  | 2 => some (.addi rx ry offset)
  | 3 => some (.lw rx offset ry)
  | 4 => some (.sw rx offset ry)
  | 5 => some (.beq rx ry offset)
  | 6 => some (.jalr rx ry)
  | 7 => some .halt
  | 10 => some .ei
  | 11 => some .di
  | 12 => some .reti
  | 13 => some (.boni rx ry offset)
  | _ => none

section Fields

variable (opcode rx ry : BitVec 4) (low : BitVec 20)

@[simp] theorem fields_opcode : (fields opcode rx ry low).extractLsb' 28 4 = opcode := by
  unfold fields
  rw [BitVec.extractLsb'_append_eq_of_le (by decide),
    BitVec.extractLsb'_append_eq_of_le (by decide), BitVec.extractLsb'_append_eq_left]

@[simp] theorem fields_rx : (fields opcode rx ry low).extractLsb' 24 4 = rx := by
  unfold fields
  rw [BitVec.extractLsb'_append_eq_of_le (by decide),
    BitVec.extractLsb'_append_eq_of_le (by decide), BitVec.extractLsb'_append_eq_right]

@[simp] theorem fields_ry : (fields opcode rx ry low).extractLsb' 20 4 = ry := by
  unfold fields
  rw [BitVec.extractLsb'_append_eq_of_le (by decide), BitVec.extractLsb'_append_eq_right]

@[simp] theorem fields_low : (fields opcode rx ry low).extractLsb' 0 20 = low :=
  BitVec.extractLsb'_append_eq_right

@[simp] theorem fields_rz (rz : BitVec 4) :
    (fields opcode rx ry (rz.setWidth 20)).extractLsb' 0 4 = rz := by
  unfold fields
  rw [BitVec.extractLsb'_append_eq_of_add_le (by decide)]
  ext i inside
  have narrow : i < 20 := by omega
  simp [BitVec.getLsbD_eq_getElem inside, narrow]

end Fields

/-- A word that was assembled stands for its instruction. -/
theorem decode_encode (instruction : Instruction) :
    decode (encode instruction) = some instruction := by
  cases instruction <;>
    simp only [encode, decode, fields_opcode, fields_rx, fields_ry, fields_low, fields_rz,
      Register.ofNumber_number] <;>
    rfl

/-! ## Contexts -/

/-- What the processor stores. -/
structure Context where
  /-- Program counter. -/
  pc : Word
  /-- Contents of the register file. -/
  registers : Register → Word
  /-- Interrupts are enabled. -/
  enabled : Bool

/-- Main memory. -/
abbrev Memory := Address → Word

/-- The cell that a word addresses. -/
def address (word : Word) : Address := word.setWidth 24

namespace Context

/-- The value of a register; `$zero` reads as zero. -/
def read (context : Context) (register : Register) : Word :=
  if register = .zero then 0 else context.registers register

/-- Store a value in a register. -/
def write (context : Context) (register : Register) (value : Word) : Context :=
  { context with registers := Function.update context.registers register value }

/-- Continue with the next instruction. -/
def next (context : Context) : Context := { context with pc := context.pc + 1 }

variable (context : Context)

theorem read_write (register other : Register) (value : Word) :
    (context.write register value).read other =
      if other = register ∧ register ≠ .zero then value else context.read other :=
  RegisterFile.read_update Register.zero 0 context.registers register other value

end Context

/-! ## Execution -/

/-- The processor and its memory. -/
structure Machine where
  /-- State of the processor. -/
  context : Context
  /-- State of the memory. -/
  memory : Memory

/-- Devices that interrupt. -/
inductive Source where
  | timer
  | keyboard
  deriving DecidableEq, Repr

/-- The entry of the vector table that a device puts on the bus. -/
def Source.vector : Source → Address
  | .timer => 1
  | .keyboard => 3

/-- The cell that an instruction writes. -/
def Instruction.written (context : Context) : Instruction → Option Address
  | .sw _ offset ry | .boni _ ry offset =>
      some (address (context.read ry + offset.signExtend 32))
  | _ => none

/-- The cell in which an instruction stores a word of the keyboard. -/
def Instruction.keyCell (context : Context) : Instruction → Option Address
  | .boni _ ry offset => some (address (context.read ry + offset.signExtend 32))
  | _ => none

/-- The effect of an instruction; `HALT` has no successor. The word of `BONI` comes from the
keyboard. -/
def Instruction.execute (machine : Machine) (key : Word) : Instruction → Option Machine
  | .add rx ry rz =>
      let value := machine.context.read ry + machine.context.read rz
      some { machine with context := machine.context.next.write rx value }
  | .nand rx ry rz =>
      let value := ~~~ (machine.context.read ry &&& machine.context.read rz)
      some { machine with context := machine.context.next.write rx value }
  | .addi rx ry offset =>
      let value := machine.context.read ry + offset.signExtend 32
      some { machine with context := machine.context.next.write rx value }
  | .lw rx offset ry =>
      let value := machine.memory (address (machine.context.read ry + offset.signExtend 32))
      some { machine with context := machine.context.next.write rx value }
  | .sw rx offset ry =>
      let target := address (machine.context.read ry + offset.signExtend 32)
      some { context := machine.context.next
             memory := Function.update machine.memory target (machine.context.read rx) }
  | .beq rx ry offset =>
      let next := machine.context.next
      if machine.context.read rx = machine.context.read ry then
        some { machine with context := { next with pc := next.pc + offset.signExtend 32 } }
      else some { machine with context := next }
  | .jalr rx ry =>
      let linked := machine.context.next.write ry machine.context.next.pc
      some { machine with context := { linked with pc := linked.read rx } }
  | .halt => none
  | .ei => some { machine with context := { machine.context.next with enabled := true } }
  | .di => some { machine with context := { machine.context.next with enabled := false } }
  | .reti =>
      some { machine with
        context := { machine.context with pc := machine.context.read .k0, enabled := true } }
  | .boni _ ry offset =>
      let target := address (machine.context.read ry + offset.signExtend 32)
      some { context := machine.context.next
             memory := Function.update machine.memory target key }

namespace Machine

/-- The instruction at the program counter. -/
def fetch (machine : Machine) : Option Instruction :=
  decode (machine.memory (address machine.context.pc))

/-- The cell in which the next instruction stores a word of the keyboard. -/
def keyCell (machine : Machine) : Option Address :=
  machine.fetch.bind (Instruction.keyCell machine.context)

/-- Execute the instruction at the program counter. -/
def step (machine : Machine) (key : Word) : Option Machine :=
  machine.fetch.bind (Instruction.execute machine key)

/-- Take an interrupt: save the program counter, disable interrupts and go to the handler. -/
def interrupt (machine : Machine) (source : Source) : Machine :=
  { machine with
    context :=
      { machine.context.write .k0 machine.context.pc with
        pc := machine.memory source.vector
        enabled := false } }

theorem memory_of_execute {machine after : Machine} {key : Word} {instruction : Instruction}
    (executes : instruction.execute machine key = some after) {cell : Address}
    (other : instruction.written machine.context ≠ some cell) :
    after.memory cell = machine.memory cell := by
  cases instruction <;> simp only [Instruction.execute, Option.some.injEq, reduceCtorEq] at executes
  case sw rx offset ry =>
    subst executes
    exact Function.update_of_ne (fun same => other (congrArg some same.symm)) _ _
  case boni rx ry offset =>
    subst executes
    exact Function.update_of_ne (fun same => other (congrArg some same.symm)) _ _
  case beq rx ry offset =>
    split at executes <;> obtain rfl := Option.some.inj executes <;> rfl
  all_goals
    subst executes
    rfl

theorem memory_of_reti {machine next : Machine} {key : Word}
    (isReti : machine.fetch = some .reti) (executes : machine.step key = some next) :
    next.memory = machine.memory := by
  rw [step, isReti] at executes
  obtain rfl := Option.some.inj executes
  rfl

/-- Where no word of the keyboard is stored, nothing has to be shown of its cell. -/
theorem forall_keyCell {machine : Machine} (noKey : machine.keyCell = none)
    {property : Address → Prop} : ∀ cell ∈ machine.keyCell, property cell := by
  rw [noKey]
  exact fun _ member => absurd member (Option.not_mem_none _)

theorem keyCell_of_reti {machine : Machine} (isReti : machine.fetch = some .reti) :
    machine.keyCell = none := by
  rw [keyCell, isReti]
  rfl

end Machine

/-! ## Interrupted contexts -/

/-- What happens: an instruction is executed, with the word that the keyboard has for `BONI`, or
an interrupt is taken. -/
inductive Event where
  | execute (key : Word)
  | interrupt (source : Source)
  deriving DecidableEq, Repr

/-- A machine with the contexts that were interrupted and not resumed, innermost first. -/
structure Config where
  /-- The machine. -/
  machine : Machine
  /-- Contexts that wait for the end of a handler. -/
  interrupted : List Context

/-- One event. The end of a handler takes the innermost context off the stack, whatever context
the machine resumes. -/
def Config.step (config : Config) : Event → Option Config
  | .execute key =>
      (config.machine.step key).map fun machine =>
        { machine
          interrupted :=
            if config.machine.fetch = some .reti then config.interrupted.tail
            else config.interrupted }
  | .interrupt source =>
      if config.machine.context.enabled then
        some { machine := config.machine.interrupt source
               interrupted := config.machine.context :: config.interrupted }
      else none

theorem Config.step_execute {config : Config} {key : Word} {next : Machine}
    (goesOn : config.machine.fetch ≠ some .reti) (executes : config.machine.step key = some next) :
    config.step (.execute key) = some { machine := next, interrupted := config.interrupted } := by
  rw [Config.step, executes, Option.map_some, if_neg goesOn]

/-- An instruction that takes a context off the stack ends a handler. -/
theorem Config.reti_of_step {config : Config} {key : Word} {next : Machine} {origin : Context}
    {outer : List Context} (waits : config.interrupted = origin :: outer)
    (ends : config.step (.execute key) = some { machine := next, interrupted := outer }) :
    config.machine.fetch = some .reti ∧ config.machine.step key = some next := by
  obtain ⟨_, executes, final⟩ := Option.map_eq_some_iff.mp ends
  obtain ⟨rfl, pops⟩ := Config.mk.inj final
  refine ⟨?_, executes⟩
  by_contra goesOn
  rw [if_neg goesOn, waits] at pops
  exact List.cons_ne_self _ _ pops

/-- Runs from a machine where nothing is interrupted, with a condition on every event. -/
def Run (allowed : Config → Event → Prop) (start : Machine) : List Event → Config → Prop :=
  Trace (fun before event after => before.step event = some after ∧ allowed before event)
    { machine := start, interrupted := [] }

theorem Run.nil {allowed : Config → Event → Prop} (start : Machine) :
    Run allowed start [] { machine := start, interrupted := [] } :=
  Trace.nil

theorem Run.interrupt {allowed : Config → Event → Prop} {start : Machine} {events : List Event}
    {before : Config} (run : Run allowed start events before) {source : Source}
    (enabled : before.machine.context.enabled = true)
    (permitted : allowed before (.interrupt source)) :
    Run allowed start (events ++ [.interrupt source])
      { machine := before.machine.interrupt source
        interrupted := before.machine.context :: before.interrupted } :=
  run.snoc ⟨if_pos enabled, permitted⟩

/-- A context goes on where another context was interrupted, with its registers but `$k0`. -/
def Resumes (interrupted resumed : Context) : Prop :=
  resumed.pc = interrupted.pc ∧ resumed.enabled = true ∧
    ∀ register, register ≠ .k0 → resumed.read register = interrupted.read register

end CS2200.Interrupts
