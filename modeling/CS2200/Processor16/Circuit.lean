import Mathlib.Logic.Function.Basic

/-!
# The LC-2200-16 circuit

The microprogram of `microcode.xml` and the datapath of `LC-2200-16.circ`. The three read-only
memories of the microcontroller are given by states instead of addresses; `rom_eq` says that their
encoding has the contents that the circuit file has.
-/

namespace CS2200.Processor16

/-! ## The microprogram -/

/-- Control signals, in the order of their bits in a word of the microprogram. -/
inductive Signal where
  | drREG
  | drMEM
  | drALU
  | drPC
  | drOFF
  | ldPC
  | ldIR
  | ldMAR
  | ldA
  | ldB
  | ldZ
  | wrREG
  | wrMEM
  | regSelLo
  | regSelHi
  | aluLo
  | aluHi
  | opTest
  | chkZ
  deriving DecidableEq, Repr

/-- States of the microprogram, in the order of their addresses. -/
inductive MicroState where
  | fetch0
  | fetch1
  | fetch2
  | add0
  | add1
  | add2
  | nand0
  | nand1
  | nand2
  | addi0
  | addi1
  | addi2
  | lw0
  | lw1
  | lw2
  | lw3
  | sw0
  | sw1
  | sw2
  | sw3
  | beq0
  | beq1
  | beq2
  | fetch5
  | beq3
  | beq4
  | beq5
  | jalr0
  | jalr1
  | halt0
  deriving DecidableEq, Repr

open Signal MicroState

/-- The signals that a state asserts. -/
def signals : MicroState → List Signal
  | fetch0 => [drPC, ldMAR, ldA]
  | fetch1 => [drMEM, ldIR]
  | fetch2 => [aluHi, aluLo, drALU, ldPC, opTest]
  | add0 => [regSelLo, drREG, ldA]
  | add1 => [regSelHi, drREG, ldB]
  | add2 => [drALU, wrREG]
  | nand0 => [regSelLo, drREG, ldA]
  | nand1 => [regSelHi, drREG, ldB]
  | nand2 => [drALU, wrREG, aluLo]
  | addi0 => [regSelLo, drREG, ldA]
  | addi1 => [drOFF, ldB]
  | addi2 => [drALU, wrREG]
  | lw0 => [regSelLo, drREG, ldA]
  | lw1 => [drOFF, ldB]
  | lw2 => [drALU, ldMAR]
  | lw3 => [drMEM, wrREG]
  | sw0 => [regSelLo, drREG, ldA]
  | sw1 => [drOFF, ldB]
  | sw2 => [drALU, ldMAR]
  | sw3 => [drREG, wrMEM]
  | beq0 => [drREG, ldA]
  | beq1 => [regSelLo, drREG, ldB]
  | beq2 => [aluHi, drALU, ldZ, chkZ]
  | fetch5 => [drPC, ldMAR, ldA]
  | beq3 => [drPC, ldA]
  | beq4 => [drOFF, ldB]
  | beq5 => [drALU, ldPC]
  | jalr0 => [drPC, wrREG, regSelLo]
  | jalr1 => [drREG, ldPC]
  | halt0 => []

/-- The state that `Goto` names, if it names one. -/
def goto : MicroState → Option MicroState
  | fetch0 => some fetch1
  | fetch1 => some fetch2
  | fetch2 => none
  | add0 => some add1
  | add1 => some add2
  | add2 => some fetch0
  | nand0 => some nand1
  | nand1 => some nand2
  | nand2 => some fetch0
  | addi0 => some addi1
  | addi1 => some addi2
  | addi2 => some fetch0
  | lw0 => some lw1
  | lw1 => some lw2
  | lw2 => some lw3
  | lw3 => some fetch0
  | sw0 => some sw1
  | sw1 => some sw2
  | sw2 => some sw3
  | sw3 => none
  | beq0 => some beq1
  | beq1 => some beq2
  | beq2 => none
  | fetch5 => some fetch2
  | beq3 => some beq4
  | beq4 => some beq5
  | beq5 => some fetch0
  | jalr0 => some jalr1
  | jalr1 => some fetch0
  | halt0 => some halt0

/-- The read-only memory that is addressed by the opcode. -/
def opRom (opcode : BitVec 3) : MicroState :=
  match opcode.toFin with
  | 0 => add0
  | 1 => nand0
  | 2 => addi0
  | 3 => lw0
  | 4 => sw0
  | 5 => beq0
  | 6 => jalr0
  | 7 => halt0

/-- The read-only memory that is addressed by the zero flag. -/
def condRom (z : Bool) : MicroState := if z then beq3 else fetch5

/-! ## The encoding -/

/-- A word of the microprogram: six bits for the next address, and a bit for every signal. -/
def word (state : MicroState) : BitVec 25 :=
  (signals state).foldl (fun bits signal => bits ||| (1 <<< (signal.ctorIdx + 6)))
    (((goto state).map MicroState.ctorIdx).getD 0 : Nat)

/-- The states in the order of their addresses. -/
def microStates : List MicroState :=
  [fetch0, fetch1, fetch2, add0, add1, add2, nand0, nand1, nand2, addi0, addi1, addi2, lw0, lw1,
    lw2, lw3, sw0, sw1, sw2, sw3, beq0, beq1, beq2, fetch5, beq3, beq4, beq5, jalr0, jalr1, halt0]

/-- The contents of the microprogram's memory in the circuit file. -/
def contents : List (BitVec 25) :=
  [0x6201, 0x1082, 0xe00900, 0x84044, 0x108045, 0x20100, 0x84047, 0x108048,
    0x220100, 0x8404a, 0x840b, 0x20100, 0x8404d, 0x840e, 0x210f, 0x20080,
    0x84051, 0x8412, 0x2113, 0x40040, 0x4055, 0x88056, 0x1410100, 0x6202,
    0x4219, 0x841a, 0x900, 0xa021c, 0x840, 0x1d]

/-- The circuit holds the microprogram and both tables. -/
theorem rom_eq : microStates.map word = contents ∧
    (List.finRange 8).map (fun opcode => (opRom (.ofFin opcode)).ctorIdx) =
      [0x3, 0x6, 0x9, 0xc, 0x10, 0x14, 0x1b, 0x1d] ∧
    [false, true].map (fun z => (condRom z).ctorIdx) = [0x17, 0x18] := by
  decide

/-- At most one component drives the bus in a state. -/
theorem one_driver (state : MicroState) :
    ((signals state).filter (· ∈ [drREG, drMEM, drALU, drPC, drOFF])).length ≤ 1 := by
  cases state <;> decide

/-! ## The datapath -/

/-- Everything that the datapath stores. -/
structure Datapath where
  /-- Program counter. -/
  pc : BitVec 16
  /-- First operand of the arithmetic unit. -/
  a : BitVec 16
  /-- Second operand of the arithmetic unit. -/
  b : BitVec 16
  /-- Memory address register. -/
  mar : BitVec 16
  /-- Instruction register. -/
  ir : BitVec 16
  /-- Zero flag. -/
  z : Bool
  /-- Register memory. -/
  registers : BitVec 4 → BitVec 16
  /-- Main memory. -/
  memory : BitVec 16 → BitVec 16

/-- The opcode of an instruction. -/
def op (instruction : BitVec 16) : BitVec 3 := instruction.extractLsb' 13 3

/-- The first register of an instruction. -/
def rx (instruction : BitVec 16) : BitVec 4 := instruction.extractLsb' 9 4

/-- The second register of an instruction. -/
def ry (instruction : BitVec 16) : BitVec 4 := instruction.extractLsb' 5 4

/-- The third register of an instruction. -/
def rz (instruction : BitVec 16) : BitVec 4 := instruction.extractLsb' 1 4

/-- The offset of an instruction after the bit extender. -/
def offset (instruction : BitVec 16) : BitVec 16 := (instruction.extractLsb' 0 5).signExtend 16

/-- The output of the arithmetic unit. -/
def alu (func : Bool × Bool) (a b : BitVec 16) : BitVec 16 :=
  match func with
  | (false, false) => a + b
  | (false, true) => ~~~ (a &&& b)
  | (true, false) => a - b
  | (true, true) => a + 1

namespace Datapath

/-- The selected register number. The fourth input of the multiplexer is not connected. -/
def regno (path : Datapath) (asserted : List Signal) : BitVec 4 :=
  match decide (regSelHi ∈ asserted), decide (regSelLo ∈ asserted) with
  | false, false => rx path.ir
  | false, true => ry path.ir
  | true, false => rz path.ir
  | true, true => 0

/-- The register output; register 0 is replaced by a constant. -/
def register (path : Datapath) (number : BitVec 4) : BitVec 16 :=
  if number = 0 then 0 else path.registers number

/-- The value on the bus; a bus that is not driven is never read. -/
def bus (path : Datapath) (asserted : List Signal) : BitVec 16 :=
  if drREG ∈ asserted then path.register (path.regno asserted)
  else if drMEM ∈ asserted then path.memory path.mar
  else if drALU ∈ asserted then
    alu (decide (aluHi ∈ asserted), decide (aluLo ∈ asserted)) path.a path.b
  else if drPC ∈ asserted then path.pc
  else if drOFF ∈ asserted then offset path.ir
  else 0

/-- All components latch at once from the current outputs. -/
def latch (path : Datapath) (asserted : List Signal) : Datapath :=
  let bus := path.bus asserted
  { pc := if ldPC ∈ asserted then bus else path.pc
    a := if ldA ∈ asserted then bus else path.a
    b := if ldB ∈ asserted then bus else path.b
    mar := if ldMAR ∈ asserted then bus else path.mar
    ir := if ldIR ∈ asserted then bus else path.ir
    z := if ldZ ∈ asserted then decide (bus = 0) else path.z
    registers :=
      if wrREG ∈ asserted then Function.update path.registers (path.regno asserted) bus
      else path.registers
    memory :=
      if wrMEM ∈ asserted then Function.update path.memory path.mar bus else path.memory }

end Datapath

/-- The next state. The fourth input of the multiplexer is not connected. -/
def nextState (state : MicroState) (path : Datapath) : MicroState :=
  match decide (chkZ ∈ signals state), decide (opTest ∈ signals state) with
  | false, false => (goto state).getD fetch0
  | false, true => opRom (op path.ir)
  | true, false => condRom path.z
  | true, true => fetch0

/-- One clock cycle. -/
def step (machine : MicroState × Datapath) : MicroState × Datapath :=
  (nextState machine.1 machine.2, machine.2.latch (signals machine.1))

/-- Run until an instruction is dispatched, which is done in the last state of a fetch. -/
def untilDispatch : Nat → MicroState × Datapath → Option Datapath
  | 0, _ => none
  | cycles + 1, machine =>
      if machine.1 = fetch2 then some machine.2 else untilDispatch cycles (step machine)

end CS2200.Processor16
