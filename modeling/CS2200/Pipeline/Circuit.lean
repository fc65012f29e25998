import Mathlib.Logic.Function.Basic

/-!
# The pipelined LC-2200-32

The circuit `p3.circ`: five stages with a buffer between each stage and the next. Instructions and
data have memories of their own. A register that is clocked while its input is not driven keeps its
contents, so a wire that may be undriven carries an `Option` here.
-/

namespace CS2200.Pipeline

/-! ## Buffers -/

/-- Contents of a register or of a memory cell. -/
abbrev Word := BitVec 32

/-- The outputs of the control unit that go down the pipeline. -/
structure Control where
  /-- Function of the arithmetic unit. -/
  func : BitVec 2
  /-- The second operand is the sign-extended offset. -/
  aluSrc : Bool
  /-- The data memory is written. -/
  memWrite : Bool
  /-- The data memory is read. -/
  memRead : Bool
  /-- The instruction branches when the result is zero. -/
  branch : Bool
  /-- The word that was read is written back, not the result. -/
  memToReg : Bool
  /-- The register file is written. -/
  regWrite : Bool
  deriving DecidableEq, Repr

/-- The constant that replaces the control signals while the pipeline stalls. -/
def Control.zero : Control :=
  { func := 0
    aluSrc := false
    memWrite := false
    memRead := false
    branch := false
    memToReg := false
    regWrite := false }

/-- The buffer `IF/ID`. -/
structure IfId where
  /-- The address after the instruction. -/
  pc : Word
  /-- The word that was fetched. -/
  instruction : Word
  deriving DecidableEq, Repr

/-- The buffer `ID/EX`. -/
structure IdEx where
  /-- The signals of the registers `WB`, `M` and `EX`. -/
  control : Control
  /-- The address after the instruction. -/
  pc : Word
  /-- The register `ry`. -/
  data1 : Word
  /-- The register `rz`, or `rx` for a store or a branch. -/
  data2 : Word
  /-- The offset. -/
  signExtend : Word
  /-- The number of the register that the instruction may write. -/
  rx : BitVec 4
  /-- The number of the first operand. -/
  ry : BitVec 4
  /-- The number of the second operand. -/
  rz : BitVec 4
  deriving DecidableEq, Repr

/-- The buffer `EX/MEM`. -/
structure ExMem where
  /-- The word that was read is written back, not the result. -/
  memToReg : Bool
  /-- The register file is written. -/
  regWrite : Bool
  /-- The instruction branches when the result is zero. -/
  branch : Bool
  /-- The data memory is read. -/
  memRead : Bool
  /-- The data memory is written. -/
  memWrite : Bool
  /-- Where the branch goes. -/
  target : Word
  /-- The output of the arithmetic unit. -/
  result : Word
  /-- The output of the arithmetic unit is zero. -/
  branchOrNot : Bool
  /-- The number of the register that the instruction may write. -/
  rx : BitVec 4
  /-- The second operand, which a store writes. -/
  rz : Word
  deriving DecidableEq, Repr

/-- The buffer `MEM/WB`. -/
structure MemWb where
  /-- The word that was read is written back, not the result. -/
  memToReg : Bool
  /-- The register file is written. -/
  regWrite : Bool
  /-- The word that was read from the data memory. -/
  readData : Word
  /-- The output of the arithmetic unit. -/
  address : Word
  /-- The number of the register that is written. -/
  writeRegister : BitVec 4
  deriving DecidableEq, Repr

/-- Everything that the circuit stores, but for the instruction memory. -/
structure State where
  /-- Program counter. -/
  pc : Word
  ifId : IfId
  idEx : IdEx
  exMem : ExMem
  memWb : MemWb
  /-- Register file. -/
  registers : BitVec 4 → Word
  /-- Data memory. -/
  memory : BitVec 24 → Word

/-- `IF/ID` while it is cleared. -/
def IfId.cleared : IfId := { pc := 0, instruction := 0 }

/-- `ID/EX` while it is cleared; the clear input of its program counter is not connected. -/
def IdEx.cleared (pc : Word) : IdEx :=
  { control := .zero, pc, data1 := 0, data2 := 0, signExtend := 0, rx := 0, ry := 0, rz := 0 }

/-- The circuit after `Clear`, for the contents of the register file and of the data memory. -/
def State.reset (registers : BitVec 4 → Word) (memory : BitVec 24 → Word) : State :=
  { pc := 0
    ifId := .cleared
    idEx := .cleared 0
    exMem := {
      memToReg := false, regWrite := false, branch := false, memRead := false, memWrite := false
      target := 0, result := 0, branchOrNot := false, rx := 0, rz := 0 }
    memWb := {
      memToReg := false, regWrite := false, readData := 0, address := 0, writeRegister := 0 }
    registers
    memory }

/-! ## Decoding -/

/-- A multiplexer of which only the first inputs are connected. -/
def mux {α : Type*} (inputs : List α) (select : BitVec 4) : Option α := inputs[select.toNat]?

/-- The control unit, without the output `rz or rx`. -/
def control (opcode : BitVec 4) : Option Control := do
  let func ← mux [0, 1, 0, 0, 0, 2] opcode
  let aluSrc ← mux [false, false, true, true, true, false] opcode
  let memWrite ← mux [false, false, false, false, true, false] opcode
  let memRead ← mux [false, false, false, true, false, false] opcode
  let branch ← mux [false, false, false, false, false, true] opcode
  let memToReg ← mux [false, false, false, true, false, false] opcode
  let regWrite ← mux [true, true, true, true, false, false] opcode
  return { func, aluSrc, memWrite, memRead, branch, memToReg, regWrite }

/-- The output `rz or rx` of the control unit. -/
def rzOrRx (opcode : BitVec 4) : Option Bool :=
  mux [false, false, false, false, true, true] opcode

namespace IfId

variable (buffer : IfId)

def opcode : BitVec 4 := buffer.instruction.extractLsb' 28 4

def rx : BitVec 4 := buffer.instruction.extractLsb' 24 4

def ry : BitVec 4 := buffer.instruction.extractLsb' 20 4

/-- The number of the second operand. -/
def rz : Option (BitVec 4) :=
  (rzOrRx buffer.opcode).map fun select =>
    if select then buffer.rx else buffer.instruction.extractLsb' 0 4

/-- The output of the bit extender. -/
def signExtend : Word := (buffer.instruction.extractLsb' 0 20).signExtend 32

end IfId

/-- The unit `dected`: the instruction that is decoded reads what the one before it loads. -/
def dected (memRead : Bool) (rx ry : BitVec 4) (rz : Option (BitVec 4)) : Option Bool :=
  if memRead then
    if rx = ry then some true else rz.map fun rz => decide (rx = rz)
  else some false

/-! ## Executing -/

/-- The multiplexer in front of an input of the arithmetic unit; its last input is not connected.
The bits of the selection are given from the high one. -/
def select (forward : Bool × Bool) (data written result : Word) : Option Word :=
  match forward with
  | (false, false) => some data
  | (false, true) => some written
  | (true, false) => some result
  | (true, true) => none

/-- The arithmetic unit. A gate has an output if one of its inputs decides it. -/
def alu (func : BitVec 2) (a b : Option Word) : Option Word :=
  match func.toFin, a, b with
  | 0, some a, some b => some (a + b)
  | 1, some a, some b => some (~~~ (a &&& b))
  | 1, some a, none => if a = 0 then some (~~~ 0) else none
  | 1, none, some b => if b = 0 then some (~~~ 0) else none
  | 2, some a, some b => some (a - b)
  | 3, some a, some b => some (a + b + 1)
  | _, _, _ => none

namespace State

variable (state : State)

/-- A branch is taken in the stage `MEM`. -/
def taken : Bool := state.exMem.branch && state.exMem.branchOrNot

/-- The outputs of the buffers in a cycle: a branch that is taken clears the first two. -/
def settled : State :=
  if state.taken then { state with ifId := .cleared, idEx := .cleared state.idEx.pc } else state

/-- The output of a register; register 0 is never written. -/
def read (number : BitVec 4) : Word := if number = 0 then 0 else state.registers number

/-- The value that is written back. -/
def written : Word :=
  if state.memWb.memToReg then state.memWb.readData else state.memWb.address

def stall : Option Bool :=
  dected state.idEx.control.memRead state.idEx.rx state.ifId.ry state.ifId.rz

/-- The unit `forward` for the first operand. Its input `MEM/WB.RegWrite` is connected to
`MemToReg`, and its gate against a newer value compares with the other operand. -/
def forwardA : Bool × Bool :=
  (state.exMem.regWrite && decide (state.exMem.rx ≠ 0) && decide (state.exMem.rx = state.idEx.ry),
    decide (state.exMem.rx ≠ state.idEx.rz) && decide (state.memWb.writeRegister ≠ 0) &&
      decide (state.memWb.writeRegister = state.idEx.ry) && state.memWb.memToReg)

/-- The unit `forward` for the second operand, with the same connections. -/
def forwardB : Bool × Bool :=
  (state.exMem.regWrite && decide (state.exMem.rx ≠ 0) && decide (state.exMem.rx = state.idEx.rz),
    decide (state.exMem.rx ≠ state.idEx.ry) && decide (state.memWb.writeRegister ≠ 0) &&
      decide (state.memWb.writeRegister = state.idEx.rz) && state.memWb.memToReg)

def operandA : Option Word :=
  select state.forwardA state.idEx.data1 state.written state.exMem.result

def operandB : Option Word :=
  select state.forwardB state.idEx.data2 state.written state.exMem.result

/-- The output of the arithmetic unit. -/
def out : Option Word :=
  alu state.idEx.control.func state.operandA
    (if state.idEx.control.aluSrc then some state.idEx.signExtend else state.operandB)

end State

/-! ## Cycles -/

/-- All registers latch at once from the outputs in a cycle. `code` is the instruction memory. -/
def latch (code : BitVec 24 → Word) (state : State) : State :=
  { pc :=
      if state.stall = some false then
        if state.taken then state.exMem.target else state.pc + 1
      else state.pc
    ifId :=
      if state.taken then .cleared
      else if state.stall = some true then state.ifId
      else { pc := state.pc + 1, instruction := code (state.pc.setWidth 24) }
    idEx :=
      if state.taken then .cleared state.ifId.pc
      else
        { control :=
            if state.stall = some true then .zero
            else (control state.ifId.opcode).getD state.idEx.control
          pc := state.ifId.pc
          data1 := state.read state.ifId.ry
          data2 := (state.ifId.rz.map state.read).getD state.idEx.data2
          signExtend := state.ifId.signExtend
          rx := state.ifId.rx
          ry := state.ifId.ry
          rz := state.ifId.rz.getD state.idEx.rz }
    exMem := {
      memToReg := state.idEx.control.memToReg
      regWrite := state.idEx.control.regWrite
      branch := state.idEx.control.branch
      memRead := state.idEx.control.memRead
      memWrite := state.idEx.control.memWrite
      target := state.idEx.pc + state.idEx.signExtend
      result := state.out.getD state.exMem.result
      branchOrNot := (state.out.map fun value => decide (value = 0)).getD state.exMem.branchOrNot
      rx := state.idEx.rx
      rz := state.operandB.getD state.exMem.rz }
    memWb := {
      memToReg := state.exMem.memToReg
      regWrite := state.exMem.regWrite
      readData :=
        if state.exMem.memRead then state.memory (state.exMem.result.setWidth 24)
        else state.memWb.readData
      address := state.exMem.result
      writeRegister := state.exMem.rx }
    registers :=
      if state.memWb.regWrite then
        Function.update state.registers state.memWb.writeRegister state.written
      else state.registers
    memory :=
      if state.exMem.memWrite then
        Function.update state.memory (state.exMem.result.setWidth 24) state.exMem.rz
      else state.memory }

/-- One clock cycle. -/
def step (code : BitVec 24 → Word) (state : State) : State := latch code state.settled

end CS2200.Pipeline
