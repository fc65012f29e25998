import Mathlib.Logic.Function.Basic

/-!
# The LC-2200-32 circuit

The microprogram of `microcode_Wang.xml` and the datapath of `LC-2200-32.circ`. The four read-only
memories of the microcontroller are given by states instead of addresses; `rom_eq` says that their
encoding has the contents that the circuit file has.
-/

namespace CS2200.Processor32

/-! ## The microprogram -/

/-- Control signals, in the order of their bits in a word of the microprogram. -/
inductive Signal where
  | drREG
  | drMEM
  | drALU
  | drPC
  | drOFF
  | ldPC
  | ldIR
  | ldMAR
  | ldA
  | ldB
  | ldZ
  | wrREG
  | wrMEM
  | regSelLo
  | regSelHi
  | aluLo
  | aluHi
  | opTest
  | chkZ
  | ldEnInt
  | drEnInt
  | intAck
  deriving DecidableEq, Repr

/-- States of the microprogram, in the order of their addresses. -/
inductive MicroState where
  | fetch0
  | fetch1
  | fetch2
  | fetch3
  | fetch4
  | fetch5
  | fetch6
  | add0
  | add1
  | add2
  | nand0
  | nand1
  | nand2
  | addi0
  | addi1
  | addi2
  | lw0
  | lw1
  | lw2
  | lw3
  | sw0
  | sw1
  | sw2
  | sw3
  | beq0
  | beq1
  | beq2
  | beq3
  | beq4
  | beq5
  | beq6
  | jalr0
  | jalr1
  | halt0
  | ei0
  | di0
  | reti0
  | boni0
  | boni1
  | boni2
  | boni3
  | bonr0
  | bonj0
  | bono0
  deriving DecidableEq, Repr

open Signal MicroState

/-- The signals that a state asserts. -/
def signals : MicroState → List Signal
  | fetch0 => [opTest, chkZ]
  | fetch1 => [regSelHi, regSelLo, wrREG, drPC, ldEnInt]
  | fetch2 => [intAck, ldMAR]
  | fetch3 => [drMEM, ldPC]
  | fetch4 => [drPC, ldA, ldMAR]
  | fetch5 => [drMEM, ldIR]
  | fetch6 => [aluLo, aluHi, drALU, ldPC, opTest]
  | add0 => [ldA, drREG, regSelLo]
  | add1 => [ldB, drREG, regSelHi]
  | add2 => [wrREG, drALU]
  | nand0 => [ldA, drREG, regSelLo]
  | nand1 => [ldB, drREG, regSelHi]
  | nand2 => [wrREG, drALU, aluLo]
  | addi0 => [ldA, drREG, regSelLo]
  | addi1 => [ldB, drOFF]
  | addi2 => [wrREG, drALU]
  | lw0 => [ldA, drREG, regSelLo]
  | lw1 => [ldB, drOFF]
  | lw2 => [ldMAR, drALU]
  | lw3 => [drMEM, wrREG]
  | sw0 => [ldA, drREG, regSelLo]
  | sw1 => [ldB, drOFF]
  | sw2 => [ldMAR, drALU]
  | sw3 => [wrMEM, drREG]
  | beq0 => [ldA, drREG]
  | beq1 => [ldB, drREG, regSelLo]
  | beq2 => [drALU, ldZ, aluHi]
  | beq3 => [chkZ]
  | beq4 => [ldA, drPC]
  | beq5 => [ldB, drOFF]
  | beq6 => [drALU, ldPC]
  | jalr0 => [wrREG, drPC, regSelLo]
  | jalr1 => [ldPC, drREG]
  | halt0 => []
  | ei0 => [drEnInt, ldEnInt]
  | di0 => [ldEnInt]
  | reti0 => [regSelHi, regSelLo, drREG, ldPC]
  | boni0 => [ldA, drREG, regSelLo]
  | boni1 => [ldB, drOFF]
  | boni2 => [ldMAR, drALU]
  | boni3 => [aluHi, aluLo, ldZ, wrMEM]
  | bonr0 => []
  | bonj0 => []
  | bono0 => []

/-- The state that `Goto` names, if it names one. -/
def goto : MicroState → Option MicroState
  | fetch0 => none
  | fetch1 => some fetch2
  | fetch2 => some fetch3
  | fetch3 => some fetch4
  | fetch4 => some fetch5
  | fetch5 => some fetch6
  | fetch6 => none
  | add0 => some add1
  | add1 => some add2
  | add2 => some fetch0
  | nand0 => some nand1
  | nand1 => some nand2
  | nand2 => some fetch0
  | addi0 => some addi1
  | addi1 => some addi2
  | addi2 => some fetch0
  | lw0 => some lw1
  | lw1 => some lw2
  | lw2 => some lw3
  | lw3 => some fetch0
  | sw0 => some sw1
  | sw1 => some sw2
  | sw2 => some sw3
  | sw3 => some fetch0
  | beq0 => some beq1
  | beq1 => some beq2
  | beq2 => some beq3
  | beq3 => none
  | beq4 => some beq5
  | beq5 => some beq6
  | beq6 => some fetch0
  | jalr0 => some jalr1
  | jalr1 => some fetch0
  | halt0 => some halt0
  | ei0 => some fetch0
  | di0 => some fetch0
  | reti0 => some ei0
  | boni0 => some boni1
  | boni1 => some boni2
  | boni2 => some boni3
  | boni3 => some fetch0
  | bonr0 => none
  | bonj0 => none
  | bono0 => none

/-- The read-only memory that is addressed by the opcode. The last word is not programmed. -/
def opRom (opcode : BitVec 4) : MicroState :=
  match opcode.toFin with
  | 0 => add0
  | 1 => nand0
  | 2 => addi0
  | 3 => lw0
  | 4 => sw0
  | 5 => beq0
  | 6 => jalr0
  | 7 => halt0
  | 8 => bonr0
  | 9 => bono0
  | 10 => ei0
  | 11 => di0
  | 12 => reti0
  | 13 => boni0
  | 14 => bonj0
  | _ => fetch0

/-- The read-only memory that is addressed by the zero flag. -/
def condRom (z : Bool) : MicroState := if z then beq4 else fetch0

/-- The read-only memory that is addressed by the interrupt input. -/
def intRom (interrupt : Bool) : MicroState := if interrupt then fetch1 else fetch4

/-! ## The encoding -/

/-- A word of the microprogram: six bits for the next address, and a bit for every signal. -/
def word (state : MicroState) : BitVec 30 :=
  (signals state).foldl (fun bits signal => bits ||| (1 <<< (signal.ctorIdx + 6)))
    (((goto state).map MicroState.ctorIdx).getD 0 : Nat)

/-- The states in the order of their addresses. -/
def microStates : List MicroState :=
  [fetch0, fetch1, fetch2, fetch3, fetch4, fetch5, fetch6, add0, add1, add2, nand0, nand1, nand2,
    addi0, addi1, addi2, lw0, lw1, lw2, lw3, sw0, sw1, sw2, sw3, beq0, beq1, beq2, beq3, beq4,
    beq5, beq6, jalr0, jalr1, halt0, ei0, di0, reti0, boni0, boni1, boni2, boni3, bonr0, bonj0,
    bono0]

/-- The contents of the microprogram's memory in the circuit file; the last three words are not
programmed. -/
def contents : List (BitVec 30) :=
  [0x1800000, 0x21a0202, 0x8002003, 0x884, 0x6205, 0x1086, 0xe00900, 0x84048,
    0x108049, 0x20100, 0x8404b, 0x10804c, 0x220100, 0x8404e, 0x840f, 0x20100,
    0x84051, 0x8412, 0x2113, 0x20080, 0x84055, 0x8416, 0x2117, 0x40040,
    0x4059, 0x8805a, 0x41011b, 0x1000000, 0x421d, 0x841e, 0x900, 0xa0220,
    0x840, 0x21, 0x6000000, 0x2000000, 0x180862, 0x84066, 0x8427, 0x2128,
    0x650000, 0, 0, 0]

/-- The circuit holds the microprogram and the three tables. -/
theorem rom_eq : microStates.map word = contents ∧
    (List.finRange 16).map (fun opcode => (opRom (.ofFin opcode)).ctorIdx) =
      [0x7, 0xa, 0xd, 0x10, 0x14, 0x18, 0x1f, 0x21, 0x29, 0x2b, 0x22, 0x23, 0x24, 0x25, 0x2a, 0] ∧
    [false, true].map (fun z => (condRom z).ctorIdx) = [0, 0x1c] ∧
    [false, true].map (fun interrupt => (intRom interrupt).ctorIdx) = [4, 1] := by
  decide

/-! ## The datapath -/

/-- Everything that the datapath stores. -/
structure Datapath where
  /-- Program counter. -/
  pc : BitVec 32
  /-- First operand of the arithmetic unit. -/
  a : BitVec 32
  /-- Second operand of the arithmetic unit. -/
  b : BitVec 32
  /-- Memory address register. -/
  mar : BitVec 24
  /-- Instruction register. -/
  ir : BitVec 32
  /-- Zero flag. -/
  z : Bool
  /-- Interrupts are enabled. -/
  ie : Bool
  /-- Register file. -/
  registers : BitVec 4 → BitVec 32
  /-- Main memory. -/
  memory : BitVec 24 → BitVec 32

/-- What the devices drive onto the bus when they are asked to. -/
structure Devices where
  /-- The vector of the device whose interrupt is acknowledged. -/
  vector : BitVec 32
  /-- The character of the keyboard. -/
  key : BitVec 32
  deriving DecidableEq, Repr

/-- The opcode of an instruction. -/
def op (instruction : BitVec 32) : BitVec 4 := instruction.extractLsb' 28 4

/-- The first register of an instruction. -/
def rx (instruction : BitVec 32) : BitVec 4 := instruction.extractLsb' 24 4

/-- The second register of an instruction. -/
def ry (instruction : BitVec 32) : BitVec 4 := instruction.extractLsb' 20 4

/-- The third register of an instruction. -/
def rz (instruction : BitVec 32) : BitVec 4 := instruction.extractLsb' 0 4

/-- The offset of an instruction after the bit extender. -/
def offset (instruction : BitVec 32) : BitVec 32 := (instruction.extractLsb' 0 20).signExtend 32

/-- The output of the arithmetic unit. -/
def alu (func : Bool × Bool) (a b : BitVec 32) : BitVec 32 :=
  match func with
  | (false, false) => a + b
  | (false, true) => ~~~ (a &&& b)
  | (true, false) => a - b
  | (true, true) => a + 1

/-- What the program counter drives onto the bus: a signed comparator replaces everything below
`0x10`, where the vectors are, by `0x10`. -/
def drivenPc (pc : BitVec 32) : BitVec 32 := if (16#32).sle pc then pc else 16

namespace Datapath

/-- The selected register number. The fourth input of the multiplexer is the number of `$k0`. -/
def regno (path : Datapath) (asserted : List Signal) : BitVec 4 :=
  match decide (regSelHi ∈ asserted), decide (regSelLo ∈ asserted) with
  | false, false => rx path.ir
  | false, true => ry path.ir
  | true, false => rz path.ir
  | true, true => 12

/-- The register output; register 0 is always cleared. -/
def register (path : Datapath) (number : BitVec 4) : BitVec 32 :=
  if number = 0 then 0 else path.registers number

/-- The output of the arithmetic unit in a cycle. -/
def result (path : Datapath) (asserted : List Signal) : BitVec 32 :=
  alu (decide (aluHi ∈ asserted), decide (aluLo ∈ asserted)) path.a path.b

/-- The value on the bus; a bus that is not driven is never read. The keyboard drives it when `LdZ`
is asserted together with both function bits. -/
def bus (devices : Devices) (path : Datapath) (asserted : List Signal) : BitVec 32 :=
  if drREG ∈ asserted then path.register (path.regno asserted)
  else if drMEM ∈ asserted then path.memory path.mar
  else if drALU ∈ asserted then path.result asserted
  else if drPC ∈ asserted then drivenPc path.pc
  else if drOFF ∈ asserted then offset path.ir
  else if intAck ∈ asserted then devices.vector
  else if ldZ ∈ asserted ∧ aluHi ∈ asserted ∧ aluLo ∈ asserted then devices.key
  else 0

/-- All components latch at once from the current outputs. -/
def latch (devices : Devices) (path : Datapath) (asserted : List Signal) : Datapath :=
  let bus := path.bus devices asserted
  { pc := if ldPC ∈ asserted then bus else path.pc
    a := if ldA ∈ asserted then bus else path.a
    b := if ldB ∈ asserted then bus else path.b
    mar := if ldMAR ∈ asserted then bus.setWidth 24 else path.mar
    ir := if ldIR ∈ asserted then bus else path.ir
    z := if ldZ ∈ asserted then decide (path.result asserted = 0) else path.z
    ie := if ldEnInt ∈ asserted then decide (drEnInt ∈ asserted) else path.ie
    registers :=
      if wrREG ∈ asserted then Function.update path.registers (path.regno asserted) bus
      else path.registers
    memory :=
      if wrMEM ∈ asserted then Function.update path.memory path.mar bus else path.memory }

end Datapath

/-- At most one component drives the bus in a state. -/
theorem one_driver (state : MicroState) :
    ((signals state).filter (· ∈ [drREG, drMEM, drALU, drPC, drOFF, intAck])).length +
      (if [ldZ, aluHi, aluLo] ⊆ signals state then 1 else 0) ≤ 1 := by
  cases state <;> decide

/-- The next state. -/
def nextState (interrupt : Bool) (state : MicroState) (path : Datapath) : MicroState :=
  match decide (chkZ ∈ signals state), decide (opTest ∈ signals state) with
  | false, false => (goto state).getD fetch0
  | false, true => opRom (op path.ir)
  | true, false => condRom path.z
  | true, true => intRom interrupt

/-- One clock cycle. -/
def step (devices : Devices) (interrupt : Bool) (machine : MicroState × Datapath) :
    MicroState × Datapath :=
  (nextState interrupt machine.1 machine.2, machine.2.latch devices (signals machine.1))

/-- Run until `FETCH0` comes again. The interrupt input may change in every cycle. -/
def returns (devices : Devices) :
    Nat → (Nat → Bool) → MicroState × Datapath → Option Datapath
  | 0, _, _ => none
  | cycles + 1, interrupts, machine =>
      let next := step devices (interrupts 0) machine
      if next.1 = fetch0 then some next.2
      else returns devices cycles (fun cycle => interrupts (cycle + 1)) next

end CS2200.Processor32
