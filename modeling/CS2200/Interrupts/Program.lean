import CS2200.Interrupts.Machine

/-!
# The program of Project 2

The words that the assembler makes of `prj2.s`: the vector table, a program that computes a
factorial, the interrupt handlers and the cells that they use. Labels are resolved to addresses,
and the targets of branches to offsets.
-/

namespace CS2200.Interrupts

open Instruction

/-! ## Labels -/

namespace Label

def factorial : Nat := 27
def tiKeyhandler : Nat := 62
def tiInthandler : Nat := 100
def keyboard : Nat := 156
def stack : Nat := 157
def seconds : Nat := 158
def minutes : Nat := 159
def hours : Nat := 160

end Label

/-- The assembler loads the address of a label with an addition. -/
def la (rx : Register) (label : Nat) : Instruction := addi rx .zero (BitVec.ofNat 20 label)

/-! ## Code -/

def main : List Instruction :=
  [la .sp Label.stack,
    lw .sp 0 .sp,
    la .s0 Label.tiInthandler,
    sw .s0 1 .zero,
    la .s0 Label.tiKeyhandler,
    sw .s0 3 .zero,
    ei,
    la .at Label.factorial,
    addi .a0 .zero 5,
    jalr .at .ra,
    halt]

def factorial : List Instruction :=
  [addi .sp .sp (-1), sw .ra 0 .sp,
    addi .sp .sp (-1), sw .a0 0 .sp,
    addi .sp .sp (-1), sw .s0 0 .sp,
    addi .sp .sp (-1), sw .s1 0 .sp,
    beq .a0 .zero 3,
    addi .s1 .zero 1,
    beq .a0 .s1 3,
    beq .zero .zero 4,
    -- base_zero
    addi .v0 .zero 1,
    beq .zero .zero 12,
    -- base_one
    addi .v0 .zero 1,
    beq .zero .zero 10,
    -- recurse
    add .s1 .a0 .zero,
    addi .a0 .a0 (-1),
    la .at Label.factorial,
    jalr .at .ra,
    add .s0 .v0 .zero,
    add .v0 .zero .zero,
    -- mul
    beq .s1 .zero 3,
    add .v0 .v0 .s0,
    addi .s1 .s1 (-1),
    beq .zero .zero (-4),
    -- done
    lw .s1 0 .sp, addi .sp .sp 1,
    lw .s0 0 .sp, addi .sp .sp 1,
    lw .a0 0 .sp, addi .sp .sp 1,
    lw .ra 0 .sp, addi .sp .sp 1,
    jalr .ra .zero]

/-- Both handlers begin in the same way: they save the registers above the stack. -/
def save : List Instruction :=
  [addi .sp .sp 100,
    sw .at 0 .sp,
    sw .v0 (-1) .sp,
    sw .a0 (-2) .sp,
    sw .a1 (-3) .sp,
    sw .a2 (-4) .sp,
    sw .a3 (-5) .sp,
    sw .a4 (-6) .sp,
    sw .s0 (-7) .sp,
    sw .s1 (-8) .sp,
    sw .s2 (-9) .sp,
    sw .s3 (-10) .sp,
    sw .k0 (-11) .sp,
    sw .fp (-12) .sp,
    sw .ra (-13) .sp]

/-- Both handlers end in the same way: interrupts are disabled after everything is restored. -/
def restore : List Instruction :=
  [lw .at 0 .sp,
    lw .v0 (-1) .sp,
    lw .a0 (-2) .sp,
    lw .a1 (-3) .sp,
    lw .a2 (-4) .sp,
    lw .a3 (-5) .sp,
    lw .a4 (-6) .sp,
    lw .s0 (-7) .sp,
    lw .s1 (-8) .sp,
    lw .s2 (-9) .sp,
    lw .s3 (-10) .sp,
    lw .k0 (-11) .sp,
    lw .fp (-12) .sp,
    lw .ra (-13) .sp,
    addi .sp .sp (-100),
    di,
    reti]

/-- Store the word of the keyboard and advance the pointer. -/
def storeKey : List Instruction :=
  [la .s1 Label.keyboard,
    lw .s0 0 .s1,
    boni .s2 .s0 0,
    addi .s0 .s0 1,
    sw .s0 0 .s1,
    ei]

/-- Count a second, with a carry into the minutes and the hours. -/
def countSecond : List Instruction :=
  [ei,
    la .s0 Label.seconds,
    lw .s0 0 .s0,
    lw .s1 0 .s0,
    addi .s1 .s1 1,
    addi .s2 .zero 60,
    beq .s1 .s2 2,
    sw .s1 0 .s0,
    beq .zero .zero 15,
    -- Min
    sw .zero 0 .s0,
    la .s0 Label.minutes,
    lw .s0 0 .s0,
    lw .s1 0 .s0,
    addi .s1 .s1 1,
    addi .s2 .zero 60,
    beq .s1 .s2 2,
    sw .s1 0 .s0,
    beq .zero .zero 6,
    -- Hou
    sw .zero 0 .s0,
    la .s0 Label.hours,
    lw .s0 0 .s0,
    lw .s1 0 .s0,
    addi .s1 .s1 1,
    sw .s1 0 .s0]

def tiKeyhandler : List Instruction := save ++ storeKey ++ restore

def tiInthandler : List Instruction := save ++ countSecond ++ restore

/-- The code of both handlers, which stands together. -/
def handlers : List Instruction := tiKeyhandler ++ tiInthandler

/-! ## Memory -/

/-- The contents of the memory from address 0 on. -/
def image : List Word :=
  List.replicate 16 0 ++ (main ++ factorial ++ handlers).map encode ++
    [0xeeeee0, 0xa00000, 0xfffffc, 0xfffffd, 0xfffffe]

/-- Every label has the address of what it stands for. -/
theorem labels_eq :
    Label.factorial = 16 + main.length ∧
    Label.tiKeyhandler = Label.factorial + factorial.length ∧
    Label.tiInthandler = Label.tiKeyhandler + tiKeyhandler.length ∧
    Label.keyboard = Label.tiInthandler + tiInthandler.length ∧
    image[Label.keyboard]? = some 0xeeeee0 ∧ image[Label.stack]? = some 0xa00000 ∧
    image[Label.seconds]? = some 0xfffffc ∧ image[Label.minutes]? = some 0xfffffd ∧
    image[Label.hours]? = some 0xfffffe := by
  decide

/-- The program counter at an instruction of the handlers. -/
def point (index : Nat) : Word := BitVec.ofNat 32 (Label.tiKeyhandler + index)

/-- The handler of a device, as an index into the code of the handlers. -/
def Source.handler : Source → Nat
  | .timer => Label.tiInthandler - Label.tiKeyhandler
  | .keyboard => 0

/-- Cells that hold the addresses of the clock. -/
def constants : List (Address × Word) := [(158, 0xfffffc), (159, 0xfffffd), (160, 0xfffffe)]

/-- Cells that the handlers write at fixed addresses: the pointer into the buffer of the keyboard,
and the clock. -/
def cells : List Address := [156, 0xfffffc, 0xfffffd, 0xfffffe]

/-- Cells that must keep their contents: two vectors, the code of the handlers and the
addresses of the clock. -/
def fixed : List Address :=
  [1, 3] ++ (List.range handlers.length).map (fun index => address (point index)) ++
    constants.map Prod.fst

/-- The handlers are installed. -/
structure Installed (memory : Memory) : Prop where
  /-- The vector table has the addresses of the handlers. -/
  vector : ∀ source : Source, memory source.vector = point source.handler
  /-- The code of the handlers is in its place. -/
  code : ∀ {index instruction}, handlers[index]? = some instruction →
    decode (memory (address (point index))) = some instruction
  /-- The addresses of the clock are in their place. -/
  constants : ∀ constant ∈ constants, memory constant.1 = constant.2

/-- It can be decided whether the handlers are installed. -/
instance (memory : Memory) : Decidable (Installed memory) :=
  decidable_of_iff
    ((memory 1 = point (Source.timer.handler) ∧ memory 3 = point (Source.keyboard.handler)) ∧
      (∀ index < handlers.length, decode (memory (address (point index))) = handlers[index]?) ∧
      Interrupts.constants.all fun constant => memory constant.1 = constant.2)
    { mp := fun ⟨vector, code, constants⟩ =>
        { vector := fun
            | .timer => vector.1
            | .keyboard => vector.2
          code := fun present =>
            (code _ (List.getElem?_eq_some_iff.mp present).1).trans present
          constants := fun constant present =>
            of_decide_eq_true (List.all_eq_true.mp constants constant present) }
      mpr := fun installed =>
        ⟨⟨installed.vector .timer, installed.vector .keyboard⟩,
          fun _ inside =>
            (installed.code (List.getElem?_eq_getElem inside)).trans
              (List.getElem?_eq_getElem inside).symm,
          List.all_eq_true.mpr fun constant present =>
            decide_eq_true (installed.constants constant present)⟩ }

theorem Installed.fetch {machine : Machine} (installed : Installed machine.memory) {index : Nat}
    {instruction : Instruction} (present : handlers[index]? = some instruction)
    (here : machine.context.pc = point index) : machine.fetch = some instruction := by
  rw [Machine.fetch, here, installed.code present]

theorem mem_fixed_of_code {index : Nat} (inside : index < handlers.length) :
    address (point index) ∈ fixed :=
  List.mem_append_left _ (List.mem_append_right _
    (List.mem_map.mpr ⟨index, List.mem_range.mpr inside, rfl⟩))

theorem notMem_cells_of_fixed {cell : Address} (isFixed : cell ∈ fixed) : cell ∉ cells := by
  have apart : fixed.all (fun cell => decide (cell ∉ cells)) = true := by decide +kernel
  simpa using List.all_eq_true.mp apart cell isFixed

theorem Installed.congr {memory changed : Memory} (installed : Installed memory)
    (same : ∀ cell ∈ fixed, changed cell = memory cell) : Installed changed where
  vector source := by
    have vector : source.vector ∈ fixed := by cases source <;> decide
    rw [same _ vector, installed.vector]
  code := by
    intro index instruction present
    obtain ⟨inside, -⟩ := List.getElem?_eq_some_iff.mp present
    rw [same _ (mem_fixed_of_code inside), installed.code present]
  constants := by
    intro constant present
    have cell : constant.1 ∈ fixed := List.mem_append_right _ (List.mem_map_of_mem present)
    rw [same _ cell, installed.constants _ present]

end CS2200.Interrupts
