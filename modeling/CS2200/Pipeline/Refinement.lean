import CS2200.Pipeline.Circuit
import CS2200.Pipeline.Scoreboard
import CS2200.Processor32.Refinement
import Mathlib.Logic.Function.Iterate

/-!
# The pipeline executes the instruction set

An instruction is executed in the cycle in which it is in `EX`. What a program sees there is the
register file after the two instructions in `MEM` and `WB`. As long as the scoreboard finds all
operands supplied, the pipeline follows the instruction set, in the cycles that the scoreboard
counts.
-/

namespace CS2200.Pipeline

open Interrupts (Address Context Instruction Machine Register address decode)

/-- The signals of an instruction. -/
def signals : Instruction → Control
  | .add .. => { Control.zero with regWrite := true }
  | .nand .. => { Control.zero with func := 1, regWrite := true }
  | .addi .. => { Control.zero with aluSrc := true, regWrite := true }
  | .lw .. =>
      { Control.zero with aluSrc := true, memRead := true, memToReg := true, regWrite := true }
  | .sw .. => { Control.zero with aluSrc := true, memWrite := true }
  | .beq .. => { Control.zero with func := 2, branch := true }
  | _ => .zero

/-- A word is the offset of an instruction, if the instruction has one. -/
def Fits (word : Word) : Instruction → Prop
  | .addi _ _ offset | .lw _ offset _ | .sw _ offset _ | .beq _ _ offset =>
      word = offset.signExtend 32
  | _ => True

structure Decodes (buffer : IfId) (instruction : Instruction) : Prop where
  control : control buffer.opcode = some (signals instruction)
  rx : buffer.rx = (target instruction).number
  ry : buffer.ry = (first instruction).number
  rz : buffer.rz = some (second instruction).number
  offset : Fits buffer.signExtend instruction

private theorem rz_of_rzOrRx {buffer : IfId} {select : Bool}
    (selects : rzOrRx buffer.opcode = some select) :
    buffer.rz = some (if select then buffer.rx else buffer.instruction.extractLsb' 0 4) := by
  rw [IfId.rz, selects, Option.map_some]

theorem decodes {buffer : IfId} {instruction : Instruction}
    (stands : decode buffer.instruction = some instruction) (known : implemented instruction) :
    Decodes buffer instruction := by
  have number := Processor32.number_ofNumber
  unfold decode at stands
  split at stands
  case h_1 opcode | h_2 opcode | h_3 opcode | h_4 opcode | h_5 opcode | h_6 opcode =>
    obtain rfl := Option.some.inj stands
    have same : buffer.opcode = _ := congrArg BitVec.ofFin opcode
    exact {
      control := by rw [same]; rfl
      rx := (number _).symm
      ry := (number _).symm
      rz := by
        rw [rz_of_rzOrRx (by rw [same]; rfl)]
        simp [second, number, IfId.rx]
      offset := by trivial }
  all_goals
    cases stands
    try cases known

/-- The output of the arithmetic unit for an instruction. -/
def result (machine : Machine) (offset : Word) : Instruction → Word
  | .nand _ ry rz => ~~~ (machine.context.read ry &&& machine.context.read rz)
  | .addi _ ry _ | .lw _ _ ry | .sw _ _ ry => machine.context.read ry + offset
  | .beq rx ry _ => machine.context.read ry - machine.context.read rx
  | instruction => machine.context.read (first instruction) +
      machine.context.read (second instruction)

/-- The word that an instruction writes to the register file. -/
def writeBack (machine : Machine) (offset : Word) (instruction : Instruction) : Word :=
  if (signals instruction).memToReg then
    machine.memory (address (result machine offset instruction))
  else result machine offset instruction

/-- The effect of an instruction, as its signals say it. -/
def outcome (machine : Machine) (offset : Word) (instruction : Instruction) : Machine :=
  { context :=
      { machine.context.next with
        pc :=
          if branches machine instruction then machine.context.next.pc + offset
          else machine.context.next.pc
        registers :=
          if (signals instruction).regWrite then
            Function.update machine.context.registers (target instruction)
              (writeBack machine offset instruction)
          else machine.context.registers }
    memory :=
      if (signals instruction).memWrite then
        Function.update machine.memory (address (result machine offset instruction))
          (machine.context.read (second instruction))
      else machine.memory }

theorem read_outcome (machine : Machine) (offset : Word) (instruction : Instruction)
    (register : Register) : (outcome machine offset instruction).context.read register =
      if register ≠ .zero ∧ (signals instruction).regWrite = true ∧
          target instruction = register then writeBack machine offset instruction
      else machine.context.read register := by
  unfold outcome
  cases (signals instruction).regWrite
  · simp [Context.read]
  · refine (RegisterFile.read_update Register.zero 0 machine.context.registers
      (target instruction) register _).trans (if_congr ⟨?_, ?_⟩ rfl rfl)
    · rintro ⟨rfl, isNot⟩
      exact ⟨isNot, rfl, rfl⟩
    · rintro ⟨isNot, -, rfl⟩
      exact ⟨rfl, isNot⟩

theorem execute_eq {instruction : Instruction} {offset : Word} (known : implemented instruction)
    (fits : Fits offset instruction) (machine : Machine) :
    instruction.execute machine 0 = some (outcome machine offset instruction) := by
  cases instruction with
  | add | nand => rfl
  | addi | lw | sw =>
      cases fits
      rfl
  | beq rx ry low =>
      cases fits
      simp only [Instruction.execute, outcome, branches, decide_eq_true_eq]
      by_cases same : machine.context.read rx = machine.context.read ry
      · rw [if_pos same, if_pos same]
        rfl
      · rw [if_neg same, if_neg same]
        rfl
  | _ => cases known

private theorem branches_eq (instruction : Instruction) (machine : Machine) (offset : Word) :
    ((signals instruction).branch && decide (result machine offset instruction = 0)) =
      branches machine instruction := by
  cases instruction with
  | beq rx ry offset =>
      have same : machine.context.read ry - machine.context.read rx = 0#32 ↔
          machine.context.read rx = machine.context.read ry := by
        rw [BitVec.sub_eq_iff_eq_add, BitVec.zero_add, eq_comm]
      simp [branches, signals, result, same]
  | _ => rfl

private theorem alu_eq {instruction : Instruction} (known : implemented instruction)
    (machine : Machine) (offset : Word) (b : Option Word)
    (supplied : usesSecond instruction → b = some (machine.context.read (second instruction))) :
    alu (signals instruction).func (some (machine.context.read (first instruction)))
      (if (signals instruction).aluSrc then some offset else b) =
        some (result machine offset instruction) := by
  cases instruction with
  | add | nand | beq =>
      rw [supplied rfl]
      rfl
  | addi | lw | sw => rfl
  | _ => cases known


namespace Slot

/-- A slot writes the register file. -/
def regWrite : Slot → Bool
  | silent _ => false
  | result _ | load _ => true

/-- A slot writes a word of the data memory to the register file. -/
def memToReg : Slot → Bool
  | silent _ | result _ => false
  | load _ => true

/-- The buffer `EX/MEM` holds a slot. -/
structure InMem (slot : Slot) (buffer : ExMem) : Prop where
  regWrite : buffer.regWrite = slot.regWrite
  memToReg : buffer.memToReg = slot.memToReg
  memRead : buffer.memRead = slot.memToReg
  rx : buffer.rx = slot.rx.number

/-- The buffer `MEM/WB` holds a slot. -/
structure InWb (slot : Slot) (buffer : MemWb) : Prop where
  regWrite : buffer.regWrite = slot.regWrite
  memToReg : buffer.memToReg = slot.memToReg
  rx : buffer.writeRegister = slot.rx.number

variable (slot : Slot) (register : Register)

theorem writes_iff : slot.Writes register ↔
    register ≠ .zero ∧ slot.regWrite = true ∧ slot.rx = register := by
  cases slot <;> simp [Writes, regWrite, rx]

private theorem loads_iff : slot.Loads register ↔
    register ≠ .zero ∧ slot.memToReg = true ∧ slot.rx = register := by
  cases slot <;> simp [Loads, memToReg, rx]

end Slot

theorem number_eq_zero_iff (register : Register) : register.number = 0 ↔ register = .zero := by
  cases register <;> decide

theorem number_inj {register other : Register} :
    register.number = other.number ↔ register = other := by
  constructor
  · intro same
    rw [← Register.ofNumber_number register, same, Register.ofNumber_number]
  · exact congrArg Register.number

namespace State

variable (state : State)

/-- The register file after the instruction in `WB`. -/
def writtenBack : BitVec 4 → Word :=
  if state.memWb.regWrite then
    Function.update state.registers state.memWb.writeRegister state.written
  else state.registers

/-- The word that the instruction in `MEM` writes to the register file. -/
def value : Word :=
  if state.exMem.memToReg then state.memory (address state.exMem.result) else state.exMem.result

/-- The register file after the instructions in `MEM` and `WB`. -/
def committed : BitVec 4 → Word :=
  if state.exMem.regWrite then Function.update state.writtenBack state.exMem.rx state.value
  else state.writtenBack

/-- The data memory after the instruction in `MEM`. -/
def stored : Address → Word :=
  if state.exMem.memWrite then
    Function.update state.memory (address state.exMem.result) state.exMem.rz
  else state.memory

/-- What a program sees of a register before the instruction in `EX`. -/
def visible (register : Register) : Word :=
  RegisterFile.read 0 0 state.committed register.number

/-- A program sees a machine. -/
structure Represents (machine : Machine) : Prop where
  registers : ∀ register, state.visible register = machine.context.read register
  memory : state.stored = machine.memory

end State

private theorem exMem_settled (state : State) : state.settled.exMem = state.exMem := by
  unfold State.settled
  split <;> rfl

private theorem State.Represents.settled {state : State} {machine : Machine}
    (represents : state.Represents machine) : state.settled.Represents machine := by
  unfold State.settled
  split
  · exact ⟨represents.registers, represents.memory⟩
  · exact represents

theorem read_written (writes : Bool) (registers : BitVec 4 → Word) (register other : Register)
    (value : Word) :
    RegisterFile.read 0 0
        (if writes then Function.update registers register.number value else registers)
        other.number =
      if other ≠ .zero ∧ writes = true ∧ register = other then value
      else RegisterFile.read 0 0 registers other.number := by
  cases writes
  · simp
  · rw [if_pos rfl, RegisterFile.read_update]
    simp only [number_inj, ne_eq, number_eq_zero_iff]
    refine if_congr ⟨?_, ?_⟩ rfl rfl
    · rintro ⟨rfl, isNot⟩
      exact ⟨isNot, trivial, rfl⟩
    · rintro ⟨isNot, -, rfl⟩
      exact ⟨rfl, isNot⟩

private theorem visible_eq {state : State} {last : Slot} (holds : last.InMem state.exMem)
    (register : Register) : state.visible register =
      if last.Writes register then state.value
      else RegisterFile.read 0 0 state.writtenBack register.number := by
  rw [State.visible, State.committed, holds.rx, read_written, holds.regWrite]
  exact if_congr (Slot.writes_iff ..).symm rfl rfl

private theorem writtenBack_eq {state : State} {slot : Slot} (holds : slot.InWb state.memWb)
    (register : Register) : RegisterFile.read 0 0 state.writtenBack register.number =
      if slot.Writes register then state.written else state.read register.number := by
  rw [State.writtenBack, holds.rx, read_written, holds.regWrite]
  exact if_congr (Slot.writes_iff ..).symm rfl rfl

/-! ## Operands -/

section Operands

variable {state : State} {last before : Slot} {ry rz : Register}

private theorem forward_newest {buffer : ExMem} (holds : last.InMem buffer) (register : Register) :
    (buffer.regWrite && decide (buffer.rx ≠ 0) && decide (buffer.rx = register.number)) =
      decide (last.Writes register) := by
  rw [holds.regWrite, holds.rx, Bool.eq_iff_iff]
  simp only [Bool.and_eq_true, decide_eq_true_eq, number_inj, ne_eq, number_eq_zero_iff,
    Slot.writes_iff]
  constructor
  · rintro ⟨⟨writes, isNot⟩, rfl⟩
    exact ⟨isNot, writes, rfl⟩
  · rintro ⟨isNot, writes, rfl⟩
    exact ⟨⟨writes, isNot⟩, rfl⟩

private theorem forward_loaded {buffer : ExMem} {older : MemWb} (holds : last.InMem buffer)
    (holdsOlder : before.InWb older) (register other : Register) :
    (decide (buffer.rx ≠ other.number) && decide (older.writeRegister ≠ 0) &&
        decide (older.writeRegister = register.number) && older.memToReg) =
      decide (before.Loads register ∧ last.rx ≠ other) := by
  rw [holds.rx, holdsOlder.rx, holdsOlder.memToReg, Bool.eq_iff_iff]
  simp only [Bool.and_eq_true, decide_eq_true_eq, number_inj, ne_eq, number_eq_zero_iff,
    Slot.loads_iff]
  constructor
  · rintro ⟨⟨⟨different, isNot⟩, rfl⟩, loads⟩
    exact ⟨⟨isNot, loads, rfl⟩, different⟩
  · rintro ⟨⟨isNot, loads, rfl⟩, different⟩
    exact ⟨⟨⟨different, isNot⟩, rfl⟩, loads⟩

/-- The multiplexer selects the newest value of an operand that is supplied. -/
theorem select_of_supplied {third : Slot} {register other : Register}
    (supplied : Supplied last before third register other) (data written newest : Word) :
    select (decide (last.Writes register), decide (before.Loads register ∧ last.rx ≠ other))
        data written newest =
      some (if last.Writes register then newest
        else if before.Writes register then written else data) := by
  unfold Supplied at supplied
  split at supplied
  case isTrue writes => simp [select, writes, supplied]
  case isFalse silent =>
    split at supplied
    case isTrue writes => simp [select, silent, writes, supplied]
    case isFalse passes =>
      have loadsNot : ¬ before.Loads register := fun loads => passes loads.writes
      simp [select, silent, passes, loadsNot]

/-- The operands of an instruction that comes from `ID`, if the slots before it are as given. -/
theorem operand_eq {state next : State} {machine : Machine} {third : Slot}
    {register other : Register} {data : Word} (represents : next.Represents machine)
    (mem : last.InMem next.exMem) (wb : before.InWb next.memWb) (done : third.InWb state.memWb)
    (latched : next.registers = state.writtenBack) (readsData : data = state.read register.number)
    (supplied : Supplied last before third register other) (loadsNot : ¬ last.Loads register) :
    select
        (next.exMem.regWrite && decide (next.exMem.rx ≠ 0) &&
            decide (next.exMem.rx = register.number),
          decide (next.exMem.rx ≠ other.number) && decide (next.memWb.writeRegister ≠ 0) &&
            decide (next.memWb.writeRegister = register.number) && next.memWb.memToReg)
        data next.written next.exMem.result =
      some (machine.context.read register) := by
  rw [forward_newest mem, forward_loaded mem wb, select_of_supplied supplied,
    ← represents.registers, visible_eq mem, writtenBack_eq wb]
  congr 1
  by_cases writes : last.Writes register
  · have isResult : next.exMem.memToReg = false := by
      rw [mem.memToReg]
      obtain ⟨isNot, rfl | loads⟩ := writes
      · rfl
      · exact absurd ⟨isNot, loads⟩ loadsNot
    rw [if_pos writes, if_pos writes, State.value, isResult, if_neg Bool.false_ne_true]
  · rw [if_neg writes, if_neg writes]
    by_cases passes : before.Writes register
    · rw [if_pos passes, if_pos passes]
    · have old : ¬ third.Writes register := by simpa [Supplied, writes, passes] using supplied
      have reads : next.read register.number =
          RegisterFile.read 0 0 state.writtenBack register.number := by
        rw [← latched]
        rfl
      rw [if_neg passes, if_neg passes, reads, writtenBack_eq done, if_neg old, readsData]

end Operands

/-! ## Cycles -/

section Cycles

variable {code : Address → Word} {state : State} {machine : Machine} {instruction : Instruction}

theorem step_of_not_taken (runs : state.taken = false) : step code state = latch code state := by
  rw [step, State.settled, if_neg (by simp [runs])]

theorem idEx_pc_latch (goesOn : state.taken = false) :
    (latch code state).idEx.pc = state.ifId.pc := by
  simp [latch, goesOn]

theorem ifId_latch (goesOn : state.taken = false) (noStall : state.stall = some false) :
    (latch code state).ifId =
      { pc := state.pc + 1, instruction := code (address state.pc) } := by
  simp [latch, goesOn, noStall, address]

theorem pc_latch (goesOn : state.taken = false) (noStall : state.stall = some false) :
    (latch code state).pc = state.pc + 1 := by
  simp [latch, goesOn, noStall]

/-- A branch that is taken drops the word that is fetched and the one that is decoded. -/
theorem ifId_latch_of_taken (jumps : state.taken = true) :
    (latch code state).ifId = .cleared := by
  simp [latch, jumps]

private theorem idEx_latch_of_taken (jumps : state.taken = true) :
    (latch code state).idEx = .cleared state.ifId.pc := by
  simp [latch, jumps]

private theorem pc_latch_of_taken (jumps : state.taken = true)
    (noStall : state.stall = some false) : (latch code state).pc = state.exMem.target := by
  simp [latch, jumps, noStall]

theorem writtenBack_latch {last : Slot} (mem : last.InMem state.exMem) :
    (latch code state).writtenBack = state.committed := by
  have written : (latch code state).written = state.value := by
    simp only [State.written, State.value, latch, mem.memToReg, mem.memRead]
    cases last.memToReg <;> rfl
  unfold State.writtenBack State.committed
  rw [written]
  rfl

/-- The instruction in `EX`, with its operands. -/
structure InEx (machine : Machine) (instruction : Instruction) (window : Window) (state : State) :
    Prop where
  represents : state.Represents machine
  control : state.idEx.control = signals instruction
  offset : Fits state.idEx.signExtend instruction
  rx : state.idEx.rx = (target instruction).number
  operandA : state.operandA = some (machine.context.read (first instruction))
  operandB : usesSecond instruction →
    state.operandB = some (machine.context.read (second instruction))
  mem : window.mem.InMem state.exMem
  wb : window.wb.InWb state.memWb

theorem wb_latch {last : Slot} (mem : last.InMem state.exMem) :
    last.InWb (latch code state).memWb where
  regWrite := mem.regWrite
  memToReg := mem.memToReg
  rx := mem.rx

section Execution

variable {window : Window} (holds : InEx machine instruction window state)

include holds

theorem InEx.mem_latch : (slot instruction).InMem (latch code state).exMem where
  regWrite := by
    simp only [latch, holds.control]
    cases instruction <;> rfl
  memToReg := by
    simp only [latch, holds.control]
    cases instruction <;> rfl
  memRead := by
    simp only [latch, holds.control]
    cases instruction <;> rfl
  rx := by
    simp only [latch, holds.rx]
    cases instruction <;> rfl

variable (known : implemented instruction)

include known

theorem InEx.out : state.out = some (result machine state.idEx.signExtend instruction) := by
  rw [State.out, holds.control, holds.operandA]
  exact alu_eq known machine _ _ holds.operandB

theorem InEx.taken_latch : (latch code state).taken = branches machine instruction := by
  rw [← branches_eq instruction machine state.idEx.signExtend]
  simp [State.taken, latch, holds.control, holds.out known]

/-- What a program sees after the instruction. -/
theorem InEx.represents_latch :
    (latch code state).Represents (outcome machine state.idEx.signExtend instruction) := by
  have out := holds.out known
  have stored : (latch code state).memory = machine.memory := holds.represents.memory
  have value : (latch code state).value =
      writeBack machine state.idEx.signExtend instruction := by
    rw [State.value, stored]
    simp [writeBack, latch, out, holds.control]
  constructor
  · intro register
    have before := holds.represents.registers register
    have writes : (latch code state).exMem.regWrite = (signals instruction).regWrite := by
      simp [latch, holds.control]
    have rx : (latch code state).exMem.rx = (target instruction).number := holds.rx
    rw [State.visible, State.committed, writtenBack_latch holds.mem, value, writes, rx,
      read_written, read_outcome, ← before, State.visible]
  · have writes : (latch code state).exMem.memWrite = (signals instruction).memWrite := by
      simp [latch, holds.control]
    have cell : (latch code state).exMem.result =
        result machine state.idEx.signExtend instruction := by
      simp [latch, out]
    rw [State.stored, stored, writes, cell]
    by_cases stores : (signals instruction).memWrite = true
    · have uses : usesSecond instruction = true := by
        cases instruction <;> first | rfl | cases stores
      have word : (latch code state).exMem.rz =
          machine.context.read (second instruction) := by
        simp [latch, holds.operandB uses]
      simp [outcome, stores, word]
    · simp [outcome, stores]

end Execution

/-- A bubble in `EX` changes nothing. -/
theorem represents_bubble {last : Slot} (mem : last.InMem state.exMem)
    (bubble : state.idEx.control = .zero) (represents : state.Represents machine) :
    (latch code state).Represents machine := by
  constructor
  · intro register
    rw [← represents.registers register, State.visible, State.committed, writtenBack_latch mem]
    simp [latch, bubble, Control.zero, State.visible]
  · rw [← represents.memory]
    simp only [State.stored, latch, bubble, Control.zero]
    rfl

theorem bubble_latch {register : Register} (bubble : state.idEx.control = .zero)
    (rx : state.idEx.rx = register.number) :
    (Slot.silent register).InMem (latch code state).exMem where
  regWrite := by simp [latch, bubble, Control.zero, Slot.regWrite]
  memToReg := by simp [latch, bubble, Control.zero, Slot.memToReg]
  memRead := by simp [latch, bubble, Control.zero, Slot.memToReg]
  rx := by simp [latch, rx, Slot.rx]

theorem taken_bubble (bubble : state.idEx.control = .zero) :
    (latch code state).taken = false := by
  simp [State.taken, latch, bubble, Control.zero]

theorem stall_bubble (bubble : state.idEx.control = .zero) : state.stall = some false := by
  simp [State.stall, dected, bubble, Control.zero]

/-- The pipeline stalls where the scoreboard says it. -/
theorem InEx.stall_eq {window : Window} {after : Instruction}
    (holds : InEx machine instruction window state) (decoded : Decodes state.ifId after) :
    state.stall = some (stalls instruction after) := by
  rw [State.stall, dected, holds.control, holds.rx, decoded.ry, decoded.rz]
  cases instruction with
  | lw rx offset ry =>
      simp only [signals, if_true, number_inj, target, stalls, Option.map_some]
      by_cases same : rx = first after
      · simp [same]
      · simp [same]
  | _ => rfl

/-- An instruction that leaves `ID` finds its operands, if they are supplied. -/
theorem inEx_latch {after : Instruction} {last before third : Slot}
    (goesOn : state.taken = false) (noStall : state.stall = some false)
    (decoded : Decodes state.ifId after) (represents : (latch code state).Represents machine)
    (mem : last.InMem (latch code state).exMem) (wb : before.InWb (latch code state).memWb)
    (done : third.InWb state.memWb) (ready : Ready last before third after)
    (loadsFirst : ¬ last.Loads (first after)) (loadsSecond : ¬ last.Loads (second after)) :
    InEx machine after { mem := last, wb := before } (latch code state) := by
  have latched : (latch code state).idEx =
      { control := signals after
        pc := state.ifId.pc
        data1 := state.read (first after).number
        data2 := state.read (second after).number
        signExtend := state.ifId.signExtend
        rx := (target after).number
        ry := (first after).number
        rz := (second after).number } := by
    simp [latch, goesOn, noStall, decoded.control, decoded.rx, decoded.ry, decoded.rz]
  exact {
    represents
    control := by rw [latched]
    offset := by rw [latched]; exact decoded.offset
    rx := by rw [latched]
    operandA := by
      rw [State.operandA, State.forwardA, latched]
      exact operand_eq represents mem wb done rfl rfl ready.1 loadsFirst
    operandB := by
      intro uses
      rw [State.operandB, State.forwardB, latched]
      exact operand_eq represents mem wb done rfl rfl (ready.2 uses) loadsSecond
    mem
    wb }

end Cycles

/-! ## Instructions -/

/-- An instruction is executed in this cycle, and the pipeline fetches what comes after it. -/
structure Executing (code : Address → Word) (machine : Machine) (instruction : Instruction)
    (window : Window) (state : State) : Prop extends InEx machine instruction window state where
  goesOn : state.taken = false
  nextPc : state.idEx.pc = machine.context.pc + 1
  ifId : state.ifId = {
    pc := machine.context.pc + 2
    instruction := code (address (machine.context.pc + 1)) }
  pc : state.pc = machine.context.pc + 2

section Instructions

variable {code : Address → Word} {state : State} {machine next : Machine}
  {instruction after : Instruction} {window : Window}

theorem decode_of_fetch (fetches : fetch code machine = some instruction) :
    decode (code (address machine.context.pc)) = some instruction ∧ implemented instruction :=
  Option.filter_eq_some_iff.mp fetches

private theorem loadsNot_of_stalls (flows : stalls instruction after = false) :
    ¬ (slot instruction).Loads (first after) ∧ ¬ (slot instruction).Loads (second after) := by
  cases instruction with
  | lw rx offset ry =>
      simp only [stalls, Bool.or_eq_false_iff, decide_eq_false_iff_not] at flows
      simp only [Slot.Loads, slot, Slot.load.injEq]
      exact ⟨fun loads => flows.1 loads.2, fun loads => flows.2 loads.2⟩
  | _ => simp [Slot.Loads, slot]

theorem pc_outcome (offset : Word) (falls : branches machine instruction = false) :
    (outcome machine offset instruction).context.pc = machine.context.pc + 1 := by
  simp [outcome, falls, Context.next]

theorem add_two_add_one (pc : Word) : pc + 2 + 1 = pc + 1 + 2 := by
  rw [BitVec.add_assoc, BitVec.add_assoc]
  rfl

theorem add_one_add_one (pc : Word) : pc + 1 + 1 = pc + 2 := by
  rw [BitVec.add_assoc]
  rfl

/-- The next instruction is executed in the next cycle. -/
theorem Executing.flow (executing : Executing code machine instruction window state)
    (known : implemented instruction)
    (executes : instruction.execute machine 0 = some next) (fetches : fetch code next = some after)
    (falls : branches machine instruction = false) (flows : stalls instruction after = false)
    (ready : Ready (slot instruction) window.mem window.wb after) :
    Executing code next after { mem := slot instruction, wb := window.mem } (step code state) := by
  have goesOn := executing.goesOn
  obtain rfl := Option.some.inj
    ((execute_eq known executing.offset machine).symm.trans executes)
  have pc := pc_outcome state.idEx.signExtend falls
  have fetched := decode_of_fetch fetches
  rw [pc] at fetched
  have decoded : Decodes state.ifId after :=
    decodes (by rw [executing.ifId]; exact fetched.1) fetched.2
  have noStall : state.stall = some false := by
    rw [executing.stall_eq decoded, flows]
  have loadsNot := loadsNot_of_stalls flows
  rw [step_of_not_taken goesOn]
  exact {
    toInEx := inEx_latch goesOn noStall decoded (executing.represents_latch known)
      executing.mem_latch (wb_latch executing.mem) executing.wb ready loadsNot.1 loadsNot.2
    goesOn := (executing.taken_latch known).trans falls
    nextPc := by rw [pc, add_one_add_one, idEx_pc_latch goesOn, executing.ifId]
    ifId := by
      rw [pc, add_one_add_one, ← add_two_add_one, ifId_latch goesOn noStall, executing.pc]
    pc := by rw [pc, ← add_two_add_one, pc_latch goesOn noStall, executing.pc] }

/-- An instruction waits for one cycle for the word that the instruction before it loads. -/
theorem Executing.stall (executing : Executing code machine instruction window state)
    (known : implemented instruction)
    (executes : instruction.execute machine 0 = some next) (fetches : fetch code next = some after)
    (waits : stalls instruction after = true)
    (ready : Ready (.silent (target after)) (slot instruction) window.mem after) :
    Executing code next after { mem := .silent (target after), wb := slot instruction }
      (step code (step code state)) := by
  have goesOn := executing.goesOn
  have falls : branches machine instruction = false := by
    cases instruction <;> first | rfl | cases waits
  obtain rfl := Option.some.inj
    ((execute_eq known executing.offset machine).symm.trans executes)
  have pc := pc_outcome state.idEx.signExtend falls
  have fetched := decode_of_fetch fetches
  rw [pc] at fetched
  have decoded : Decodes state.ifId after :=
    decodes (by rw [executing.ifId]; exact fetched.1) fetched.2
  have isStall : state.stall = some true := by
    rw [executing.stall_eq decoded, waits]
  -- the cycle in which the loading instruction is in `MEM`
  have kept : (latch code state).ifId = state.ifId := by simp [latch, goesOn, isStall]
  have keptPc : (latch code state).pc = state.pc := by simp [latch, isStall]
  have bubble : (latch code state).idEx.control = .zero := by simp [latch, goesOn, isStall]
  have rx : (latch code state).idEx.rx = (target after).number := by
    simp [latch, goesOn, decoded.rx]
  have goesOnAgain : (latch code state).taken = false := (executing.taken_latch known).trans falls
  have represents : (latch code (latch code state)).Represents _ :=
    represents_bubble executing.mem_latch bubble (executing.represents_latch known)
  rw [step_of_not_taken goesOn, step_of_not_taken goesOnAgain]
  have noLoad (register : Register) : ¬ (Slot.silent (target after)).Loads register := by
    simp [Slot.Loads]
  exact {
    toInEx := inEx_latch goesOnAgain (stall_bubble bubble) (kept ▸ decoded) represents
      (bubble_latch bubble rx) (wb_latch executing.mem_latch) (wb_latch executing.mem) ready
      (noLoad _) (noLoad _)
    goesOn := taken_bubble bubble
    nextPc := by rw [pc, add_one_add_one, idEx_pc_latch goesOnAgain, kept, executing.ifId]
    ifId := by
      rw [pc, add_one_add_one, ← add_two_add_one, ifId_latch goesOnAgain (stall_bubble bubble),
        keptPc, executing.pc]
    pc := by
      rw [pc, ← add_two_add_one, pc_latch goesOnAgain (stall_bubble bubble), keptPc,
        executing.pc] }

/-- No instruction is in the pipeline, and the next one is fetched. -/
structure Drained (machine : Machine) (state : State) : Prop where
  represents : state.Represents machine
  ifId : state.ifId = .cleared
  idEx : ∃ pc, state.idEx = .cleared pc
  goesOn : state.taken = false
  pc : state.pc = machine.context.pc
  mem : (Slot.silent .zero).InMem state.exMem
  wb : ∃ slot : Slot, slot.InWb state.memWb

/-- What a cleared word stands for. -/
def nop : Instruction := .add .zero .zero .zero

private theorem decodes_cleared : Decodes .cleared nop := decodes (by decide) rfl

private theorem represents_nop {offset : Word}
    (represents : state.Represents (outcome machine offset nop)) :
    state.Represents machine where
  registers register := by
    rw [represents.registers, read_outcome]
    refine if_neg ?_
    rintro ⟨isNot, -, same⟩
    exact isNot same.symm
  memory := represents.memory

theorem supplied_zero (last before third : Slot) (other : Register) :
    Supplied last before third .zero other := by
  simp [Supplied, Slot.Writes]

private theorem supplied_of_refilled (register other : Register) :
    Supplied (.result .zero) (.silent .zero) (.silent .zero) register other := by
  simp +contextual [Supplied, Slot.Writes, eq_comm]

/-- An instruction that was fetched is executed two cycles later. -/
theorem Drained.executing (drained : Drained machine state)
    (fetches : fetch code machine = some instruction) :
    Executing code machine instruction .refilled (step code (step code state)) := by
  obtain ⟨oldPc, cleared⟩ := drained.idEx
  obtain ⟨third, done⟩ := drained.wb
  obtain ⟨stands, known⟩ := decode_of_fetch fetches
  have goesOn := drained.goesOn
  have bubble : state.idEx.control = .zero := by rw [cleared]; rfl
  have noStall := stall_bubble bubble
  -- the cycle in which the cleared word is in `EX`
  have nopEx : InEx machine nop { mem := .silent .zero, wb := .silent .zero } (latch code state) :=
    inEx_latch goesOn noStall (drained.ifId ▸ decodes_cleared)
      (represents_bubble drained.mem bubble drained.represents)
      (bubble_latch bubble (by rw [cleared]; rfl)) (wb_latch drained.mem) done
      ⟨supplied_zero _ _ _ _, fun _ => supplied_zero _ _ _ _⟩
      (by simp [Slot.Loads]) (by simp [Slot.Loads])
  have goesOnAgain : (latch code state).taken = false := taken_bubble bubble
  have fetched : (latch code state).ifId =
      { pc := machine.context.pc + 1, instruction := code (address machine.context.pc) } := by
    rw [ifId_latch goesOn noStall, drained.pc]
  have pc : (latch code state).pc = machine.context.pc + 1 := by
    rw [pc_latch goesOn noStall, drained.pc]
  have decoded : Decodes (latch code state).ifId instruction :=
    decodes (by rw [fetched]; exact stands) known
  have noStallAgain : (latch code state).stall = some false := nopEx.stall_eq decoded
  rw [step_of_not_taken goesOn, step_of_not_taken goesOnAgain]
  exact {
    toInEx := inEx_latch goesOnAgain noStallAgain decoded
      (represents_nop (nopEx.represents_latch rfl)) nopEx.mem_latch (wb_latch nopEx.mem) nopEx.wb
      ⟨supplied_of_refilled _ _, fun _ => supplied_of_refilled _ _⟩
      (by simp [Slot.Loads]) (by simp [Slot.Loads])
    goesOn := nopEx.taken_latch rfl
    nextPc := by rw [idEx_pc_latch goesOnAgain, fetched]
    ifId := by rw [ifId_latch goesOnAgain noStallAgain, pc, add_one_add_one]
    pc := by rw [pc_latch goesOnAgain noStallAgain, pc, add_one_add_one] }

/-- A branch that is taken drains the pipeline. -/
theorem Executing.drained (executing : Executing code machine instruction window state)
    (known : implemented instruction) (executes : instruction.execute machine 0 = some next)
    (taken : branches machine instruction = true) :
    Drained next (step code (step code state)) := by
  obtain rfl := Option.some.inj
    ((execute_eq known executing.offset machine).symm.trans executes)
  have jumps : (latch code state).taken = true := (executing.taken_latch known).trans taken
  have target : (latch code state).exMem.target =
      (outcome machine state.idEx.signExtend instruction).context.pc := by
    simp [latch, outcome, taken, executing.nextPc, Context.next]
  -- the cycle in which the branch is in `MEM`
  have exMem := exMem_settled (latch code state)
  have bubble : (latch code state).settled.idEx.control = .zero := by
    rw [State.settled, if_pos jumps]
    rfl
  have rx : (latch code state).settled.idEx.rx = Register.zero.number := by
    rw [State.settled, if_pos jumps]
    rfl
  have clears : (latch code state).settled.taken = true := by rw [State.taken, exMem, ← jumps]; rfl
  have mem : (slot instruction).InMem (latch code state).settled.exMem :=
    exMem ▸ executing.mem_latch
  rw [step_of_not_taken executing.goesOn, step]
  exact {
    represents := represents_bubble mem bubble (executing.represents_latch known).settled
    ifId := ifId_latch_of_taken clears
    idEx := ⟨_, idEx_latch_of_taken clears⟩
    goesOn := taken_bubble bubble
    pc := by rw [pc_latch_of_taken clears (stall_bubble bubble), exMem, target]
    mem := bubble_latch bubble rx
    wb := ⟨_, wb_latch mem⟩ }

/-- The circuit after `Clear`, with the registers and the data memory of a machine. -/
def start (machine : Machine) : State :=
  .reset (fun number => machine.context.registers (.ofNumber number)) machine.memory

private theorem drained_start (begins : machine.context.pc = 0) :
    Drained machine (start machine) where
  represents := by
    constructor
    · intro register
      have reads : (start machine).visible register =
          if register.number = 0 then 0 else machine.context.registers register := by
        simp [State.visible, State.committed, State.writtenBack, start, State.reset,
          RegisterFile.read]
      simp only [reads, number_eq_zero_iff, Context.read]
    · simp [State.stored, start, State.reset]
  ifId := rfl
  idEx := ⟨0, rfl⟩
  goesOn := rfl
  pc := begins.symm
  mem := ⟨rfl, rfl, rfl, rfl⟩
  wb := ⟨.silent .zero, rfl, rfl, rfl⟩

/-- The pipeline follows the scoreboard. -/
theorem executing_of_schedule {instructions : Nat} {progress : Progress}
    (begins : machine.context.pc = 0)
    (scheduled : schedule code machine instructions = some progress) :
    ∃ instruction, fetch code progress.machine = some instruction ∧
      Executing code progress.machine instruction progress.window
        ((step code)^[progress.cycle] (start machine)) := by
  induction instructions generalizing progress with
  | zero =>
      obtain ⟨instruction, fetches, rfl⟩ := Option.map_eq_some_iff.mp scheduled
      exact ⟨instruction, fetches, (drained_start begins).executing fetches⟩
  | succ instructions ih =>
      obtain ⟨before, earlier, advances⟩ := Option.bind_eq_some_iff.mp scheduled
      obtain ⟨instruction, fetches, executing⟩ := ih earlier
      have known := (decode_of_fetch fetches).2
      obtain ⟨same, after, fetchesSame, executes, fetchesNext, cases⟩ := advance_cases advances
      obtain rfl := Option.some.inj (fetches.symm.trans fetchesSame)
      refine ⟨after, fetchesNext, ?_⟩
      obtain ⟨taken, window, cycle⟩ | ⟨-, waits, ready, window, cycle⟩ |
        ⟨falls, flows, ready, window, cycle⟩ := cases
      · rw [window, cycle, Function.iterate_succ_apply', Function.iterate_succ_apply',
          Function.iterate_succ_apply', Function.iterate_succ_apply']
        exact (executing.drained known executes taken).executing fetchesNext
      · rw [window, cycle, Function.iterate_succ_apply', Function.iterate_succ_apply']
        exact executing.stall known executes fetchesNext waits ready
      · rw [window, cycle, Function.iterate_succ_apply']
        exact executing.flow known executes fetchesNext falls flows ready

/-- The instruction at the program counter of a machine is in `EX` with its operands, the program
sees this machine, and what comes after the instruction is fetched. -/
def State.Agrees (state : State) (code : Address → Word) (machine : Machine) : Prop :=
  ∃ instruction window, fetch code machine = some instruction ∧
    Executing code machine instruction window state

theorem agrees_of_schedule {instructions : Nat} {progress : Progress}
    (begins : machine.context.pc = 0)
    (scheduled : schedule code machine instructions = some progress) :
    ((step code)^[progress.cycle] (start machine)).Agrees code progress.machine := by
  obtain ⟨instruction, fetches, executing⟩ := executing_of_schedule begins scheduled
  exact ⟨instruction, progress.window, fetches, executing⟩

end Instructions

end CS2200.Pipeline
