import CS2200.Interrupts.Machine
import CS2200.Processor32.Circuit

/-!
# The instruction set

The microprogram, run from `FETCH0` until `FETCH0` comes again, executes the instruction at the
program counter, after taking an interrupt if its input was set in `FETCH0`. Whenever the program
counter drives the bus, addresses below `0x10` are replaced by `0x10`.
-/

namespace CS2200.Processor32

open Interrupts (Context Instruction Machine Register Word address decode)
open MicroState

/-! ## Architecture -/

/-- What a program can see of the datapath. -/
def Datapath.machine (path : Datapath) : Machine where
  context := {
    pc := path.pc
    registers := fun register => path.registers register.number
    enabled := path.ie }
  memory := path.memory

/-- The effect of an instruction, if the program counter drives a function of its contents. -/
def execute (drive : Word → Word) (machine : Machine) (key : Word) :
    Instruction → Option Machine
  | .beq rx ry offset =>
      let next := machine.context.next
      if machine.context.read rx = machine.context.read ry then
        some { machine with context := { next with pc := drive next.pc + offset.signExtend 32 } }
      else some { machine with context := next }
  | .jalr rx ry =>
      let linked := machine.context.next.write ry (drive machine.context.next.pc)
      some { machine with context := { linked with pc := linked.read rx } }
  | instruction => instruction.execute machine key

/-- The effect of the instruction at the address that the program counter drives. -/
def effect (drive : Word → Word) (machine : Machine) (key : Word) : Option Machine :=
  let machine := { machine with
    context := { machine.context with pc := drive machine.context.pc } }
  machine.fetch.bind (execute drive machine key)

/-- An interrupt is taken: the program counter is saved, interrupts are disabled, and the entry of
the vector table is the new program counter. -/
def interrupted (drive : Word → Word) (vector : Word) (machine : Machine) : Machine :=
  { machine with
    context :=
      { machine.context.write .k0 (drive machine.context.pc) with
        pc := machine.memory (address vector)
        enabled := false } }

/-- What the microprogram does from `FETCH0`, for a value of the interrupt input. -/
def perform (drive : Word → Word) (devices : Devices) (interrupt : Bool) (machine : Machine) :
    Option Machine :=
  effect drive (if interrupt then interrupted drive devices.vector machine else machine) devices.key

/-- If the program counter drives its contents, the effect is that of the instruction set. -/
theorem effect_id (machine : Machine) (key : Word) : effect id machine key = machine.step key := by
  have same : execute id machine key = Instruction.execute machine key := by
    funext instruction
    cases instruction <;> rfl
  unfold effect Machine.step
  exact congrArg (Option.bind _) same

theorem interrupted_id (machine : Machine) {vector : Word} {source : Interrupts.Source}
    (drives : address vector = source.vector) :
    interrupted id vector machine = machine.interrupt source := by
  unfold interrupted Machine.interrupt
  rw [drives]
  rfl

/-- The program counter and the address after it are above the vectors. -/
def AboveVectors (pc : Word) : Prop := (16#32).sle pc ∧ (16#32).sle (pc + 1)

theorem effect_driven {machine : Machine} (above : AboveVectors machine.context.pc) (key : Word) :
    effect drivenPc machine key = machine.step key := by
  have here : drivenPc machine.context.pc = machine.context.pc := if_pos above.1
  have next : drivenPc machine.context.next.pc = machine.context.next.pc := if_pos above.2
  have same : execute drivenPc machine key = execute id machine key := by
    funext instruction
    cases instruction with
    | beq rx ry offset => simp only [execute, next, id]
    | jalr rx ry => simp only [execute, next, id]
    | _ => rfl
  rw [← effect_id]
  unfold effect
  rw [here]
  exact congrArg (Option.bind _) same

theorem perform_of_quiet {machine : Machine} (above : AboveVectors machine.context.pc)
    (devices : Devices) :
    perform drivenPc devices false machine = machine.step devices.key :=
  effect_driven above devices.key

/-- Above the vectors the microprogram takes the interrupts of the instruction set. -/
theorem perform_of_interrupt {machine : Machine} {devices : Devices} {source : Interrupts.Source}
    (above : AboveVectors machine.context.pc)
    (handler : AboveVectors (machine.memory source.vector))
    (drives : address devices.vector = source.vector) :
    perform drivenPc devices true machine = (machine.interrupt source).step devices.key := by
  have taken : interrupted drivenPc devices.vector machine = machine.interrupt source := by
    have here : drivenPc machine.context.pc = machine.context.pc := if_pos above.1
    rw [← interrupted_id machine drives, interrupted, interrupted, here]
    rfl
  have enters : AboveVectors (machine.interrupt source).context.pc := handler
  rw [perform, if_pos rfl, taken]
  exact effect_driven enters devices.key

/-! ## Registers -/

section Registers

variable (path : Datapath) (number : BitVec 4)

theorem number_ofNumber : (Register.ofNumber number).number = number := by
  revert number
  decide

private theorem ofNumber_eq_zero_iff : Register.ofNumber number = .zero ↔ number = 0 := by
  revert number
  decide

theorem read_ofNumber : path.machine.context.read (Register.ofNumber number) =
    path.register number := by
  unfold Context.read Datapath.register
  simp only [ofNumber_eq_zero_iff]
  exact congrArg (fun contents => if number = 0 then 0 else path.registers contents)
    (number_ofNumber number)

theorem machine_update (value : Word) :
    { path with registers := Function.update path.registers number value }.machine =
      { path.machine with
        context := path.machine.context.write (Register.ofNumber number) value } := by
  have registers : (fun register : Register =>
      Function.update path.registers number value register.number) =
      Function.update (fun register : Register => path.registers register.number)
        (Register.ofNumber number) value := by
    funext register
    by_cases same : register = Register.ofNumber number
    · subst same
      rw [number_ofNumber, Function.update_self, Function.update_self]
    · have different : register.number ≠ number := by
        rintro rfl
        exact same (Register.ofNumber_number register).symm
      rw [Function.update_of_ne different, Function.update_of_ne same]
  exact congrArg (fun registers => Machine.mk { path.machine.context with registers } path.memory)
    registers

end Registers

/-! ## Runs of the microprogram -/

namespace Datapath

/-- The instruction that is fetched. -/
def instruction (path : Datapath) : Word := path.memory ((drivenPc path.pc).setWidth 24)

/-- The datapath if the program counter held what it drives. -/
def forced (path : Datapath) : Datapath := { path with pc := drivenPc path.pc }

/-- The datapath when an instruction begins to be executed. -/
def fetched (path : Datapath) : Datapath :=
  { path with
    a := drivenPc path.pc
    mar := (drivenPc path.pc).setWidth 24
    ir := path.instruction
    pc := drivenPc path.pc + 1 }

/-- The datapath when an interrupt has been taken. -/
def interrupted (path : Datapath) (vector : Word) : Datapath :=
  { path with
    mar := vector.setWidth 24
    pc := path.memory (vector.setWidth 24)
    ie := false
    registers := Function.update path.registers 12 (drivenPc path.pc) }

end Datapath

/-- From `FETCH0`, the microprogram comes to `FETCH0` again with the second datapath. -/
def ReturnsTo (devices : Devices) (interrupts : Nat → Bool) (path final : Datapath) : Prop :=
  ∃ cycles, returns devices cycles interrupts (fetch0, path) = some final

theorem returns_mono {devices : Devices} {cycles more : Nat} {interrupts : Nat → Bool}
    {machine : MicroState × Datapath} {final : Datapath} (enough : cycles ≤ more)
    (runs : returns devices cycles interrupts machine = some final) :
    returns devices more interrupts machine = some final := by
  induction cycles generalizing more interrupts machine with
  | zero => cases runs
  | succ cycles ih =>
      obtain ⟨more, rfl⟩ := Nat.exists_eq_succ_of_ne_zero (Nat.ne_of_gt (Nat.zero_lt_of_lt enough))
      by_cases here : (step devices (interrupts 0) machine).1 = fetch0
      · rw [returns, if_pos here] at runs ⊢
        exact runs
      · rw [returns, if_neg here] at runs ⊢
        exact ih (Nat.le_of_succ_le_succ enough) runs

private theorem ReturnsTo.unique {devices : Devices} {interrupts : Nat → Bool}
    {path first second : Datapath} (toFirst : ReturnsTo devices interrupts path first)
    (toSecond : ReturnsTo devices interrupts path second) : first = second := by
  obtain ⟨cycles, firstRuns⟩ := toFirst
  obtain ⟨more, secondRuns⟩ := toSecond
  have left := returns_mono (Nat.le_max_left cycles more) firstRuns
  have right := returns_mono (Nat.le_max_right cycles more) secondRuns
  exact Option.some.inj (left.symm.trans right)

section Fetch

variable (devices : Devices) (cycles : Nat) (interrupts : Nat → Bool) (path : Datapath)

theorem step_fetch0 (interrupt : Bool) :
    step devices interrupt (fetch0, path) = (intRom interrupt, path) := rfl

theorem returns_fetch0_of_quiet (quiet : interrupts 0 = false) :
    returns devices (cycles + 1) interrupts (fetch0, path) =
      returns devices cycles (fun cycle => interrupts (cycle + 1)) (fetch4, path) := by
  rw [returns, step_fetch0, quiet]
  rfl

theorem returns_fetch0_of_interrupt (taken : interrupts 0 = true) :
    returns devices (cycles + 4) interrupts (fetch0, path) =
      returns devices cycles (fun cycle => interrupts (cycle + 4))
        (fetch4, path.interrupted devices.vector) := by
  rw [returns, step_fetch0, taken]
  rfl

theorem returns_fetch4 (programmed : opRom (op path.instruction) ≠ fetch0) :
    returns devices (cycles + 3) interrupts (fetch4, path) =
      returns devices cycles (fun cycle => interrupts (cycle + 3))
        (opRom (op path.instruction), path.fetched) :=
  if_neg programmed

end Fetch

section Instructions

variable (devices : Devices) (interrupts : Nat → Bool) (path : Datapath)

private theorem run_add0 : returns devices 3 interrupts (add0, path) = some { path with
    a := path.register (ry path.ir)
    b := path.register (rz path.ir)
    registers := Function.update path.registers (rx path.ir)
      (path.register (ry path.ir) + path.register (rz path.ir)) } := rfl

private theorem run_nand0 : returns devices 3 interrupts (nand0, path) = some { path with
    a := path.register (ry path.ir)
    b := path.register (rz path.ir)
    registers := Function.update path.registers (rx path.ir)
      (~~~ (path.register (ry path.ir) &&& path.register (rz path.ir))) } := rfl

private theorem run_addi0 : returns devices 3 interrupts (addi0, path) = some { path with
    a := path.register (ry path.ir)
    b := offset path.ir
    registers := Function.update path.registers (rx path.ir)
      (path.register (ry path.ir) + offset path.ir) } := rfl

private theorem run_lw0 : returns devices 4 interrupts (lw0, path) = some { path with
    a := path.register (ry path.ir)
    b := offset path.ir
    mar := (path.register (ry path.ir) + offset path.ir).setWidth 24
    registers := Function.update path.registers (rx path.ir)
      (path.memory ((path.register (ry path.ir) + offset path.ir).setWidth 24)) } := rfl

private theorem run_sw0 : returns devices 4 interrupts (sw0, path) = some { path with
    a := path.register (ry path.ir)
    b := offset path.ir
    mar := (path.register (ry path.ir) + offset path.ir).setWidth 24
    memory := Function.update path.memory
      ((path.register (ry path.ir) + offset path.ir).setWidth 24)
      (path.register (rx path.ir)) } := rfl

/-- The operands have been compared. -/
def Datapath.compared (path : Datapath) : Datapath :=
  { path with
    a := path.register (rx path.ir)
    b := path.register (ry path.ir)
    z := decide (path.register (rx path.ir) - path.register (ry path.ir) = 0) }

theorem returns_beq0 (cycles : Nat) : returns devices (cycles + 3) interrupts (beq0, path) =
    returns devices cycles (fun cycle => interrupts (cycle + 3)) (beq3, path.compared) := rfl

theorem step_beq3 (interrupt : Bool) :
    step devices interrupt (beq3, path) = (condRom path.z, path) := rfl

private theorem run_beq0_of_eq (same : path.register (rx path.ir) = path.register (ry path.ir)) :
    returns devices 7 interrupts (beq0, path) = some { path.compared with
      a := drivenPc path.pc
      b := offset path.ir
      pc := drivenPc path.pc + offset path.ir } := by
  have taken : path.compared.z = true := by simp [Datapath.compared, same]
  rw [returns_beq0, returns, step_beq3, taken]
  rfl

private theorem run_beq0_of_ne
    (different : path.register (rx path.ir) ≠ path.register (ry path.ir)) :
    returns devices 4 interrupts (beq0, path) = some path.compared := by
  have passed : path.compared.z = false := by
    simpa [Datapath.compared, BitVec.sub_eq_iff_eq_add] using different
  rw [returns_beq0, returns, step_beq3, passed]
  rfl

private theorem run_jalr0 : returns devices 2 interrupts (jalr0, path) = some (
    let linked := { path with
      registers := Function.update path.registers (ry path.ir) (drivenPc path.pc) }
    { linked with pc := linked.register (rx path.ir) }) := rfl

private theorem run_ei0 :
    returns devices 1 interrupts (ei0, path) = some { path with ie := true } := rfl

private theorem run_di0 :
    returns devices 1 interrupts (di0, path) = some { path with ie := false } := rfl

private theorem run_reti0 : returns devices 2 interrupts (reti0, path) =
    some { path with pc := path.register 12, ie := true } := rfl

private theorem run_boni0 : returns devices 4 interrupts (boni0, path) = some { path with
    a := path.register (ry path.ir)
    b := offset path.ir
    mar := (path.register (ry path.ir) + offset path.ir).setWidth 24
    z := decide (path.register (ry path.ir) + 1 = 0)
    memory := Function.update path.memory
      ((path.register (ry path.ir) + offset path.ir).setWidth 24) devices.key } := rfl

end Instructions

/-! ## The effect of an instruction -/

/-- From `FETCH4` the microprogram has the effect of the instruction at the program counter. -/
def Implements (devices : Devices) (path : Datapath) : Prop :=
  ∀ after, effect drivenPc path.machine devices.key = some after → ∀ interrupts,
    ∃ cycles final, returns devices cycles interrupts (fetch4, path) = some final ∧
      final.machine = after

/-- An instruction whose states have its effect and end in `FETCH0` is implemented. -/
theorem implements_of_run {devices : Devices} {path final : Datapath} {cycles : Nat}
    {instruction : Instruction} (decodes : decode path.instruction = some instruction)
    (programmed : opRom (op path.instruction) ≠ fetch0)
    (runs : ∀ interrupts, returns devices cycles interrupts
      (opRom (op path.instruction), path.fetched) = some final)
    (has : execute drivenPc path.forced.machine devices.key instruction = some final.machine) :
    Implements devices path := by
  intro after hasAfter interrupts
  have effects : effect drivenPc path.machine devices.key =
      execute drivenPc path.forced.machine devices.key instruction :=
    congrArg (Option.bind · (execute drivenPc path.forced.machine devices.key)) decodes
  obtain rfl := Option.some.inj ((effects.trans has).symm.trans hasAfter)
  exact ⟨cycles + 3, final, (returns_fetch4 devices cycles interrupts path programmed).trans
    (runs _), rfl⟩

section Opcodes

variable {devices : Devices} {path : Datapath}

private theorem implements_add (has : op path.instruction = 0) : Implements devices path := by
  have decodes : decode path.instruction = some (.add (.ofNumber (rx path.instruction))
      (.ofNumber (ry path.instruction)) (.ofNumber (rz path.instruction))) := by
    unfold decode
    rw [show path.instruction.extractLsb' 28 4 = 0 from has]
    rfl
  refine implements_of_run decodes (by rw [has]; decide) (fun interrupts => by
    rw [has]
    exact run_add0 devices interrupts path.fetched) ?_
  simp only [execute, Instruction.execute, read_ofNumber]
  exact congrArg some (machine_update path.fetched _ _).symm

private theorem implements_nand (has : op path.instruction = 1) : Implements devices path := by
  have decodes : decode path.instruction = some (.nand (.ofNumber (rx path.instruction))
      (.ofNumber (ry path.instruction)) (.ofNumber (rz path.instruction))) := by
    unfold decode
    rw [show path.instruction.extractLsb' 28 4 = 1 from has]
    rfl
  refine implements_of_run decodes (by rw [has]; decide) (fun interrupts => by
    rw [has]
    exact run_nand0 devices interrupts path.fetched) ?_
  simp only [execute, Instruction.execute, read_ofNumber]
  exact congrArg some (machine_update path.fetched _ _).symm

private theorem implements_addi (has : op path.instruction = 2) : Implements devices path := by
  have decodes : decode path.instruction = some (.addi (.ofNumber (rx path.instruction))
      (.ofNumber (ry path.instruction)) (path.instruction.extractLsb' 0 20)) := by
    unfold decode
    rw [show path.instruction.extractLsb' 28 4 = 2 from has]
    rfl
  refine implements_of_run decodes (by rw [has]; decide) (fun interrupts => by
    rw [has]
    exact run_addi0 devices interrupts path.fetched) ?_
  simp only [execute, Instruction.execute, read_ofNumber]
  exact congrArg some (machine_update path.fetched _ _).symm

private theorem implements_lw (has : op path.instruction = 3) : Implements devices path := by
  have decodes : decode path.instruction = some (.lw (.ofNumber (rx path.instruction))
      (path.instruction.extractLsb' 0 20) (.ofNumber (ry path.instruction))) := by
    unfold decode
    rw [show path.instruction.extractLsb' 28 4 = 3 from has]
    rfl
  refine implements_of_run decodes (by rw [has]; decide) (fun interrupts => by
    rw [has]
    exact run_lw0 devices interrupts path.fetched) ?_
  simp only [execute, Instruction.execute, read_ofNumber]
  exact congrArg some (machine_update path.fetched _ _).symm

private theorem implements_sw (has : op path.instruction = 4) : Implements devices path := by
  have decodes : decode path.instruction = some (.sw (.ofNumber (rx path.instruction))
      (path.instruction.extractLsb' 0 20) (.ofNumber (ry path.instruction))) := by
    unfold decode
    rw [show path.instruction.extractLsb' 28 4 = 4 from has]
    rfl
  refine implements_of_run decodes (by rw [has]; decide) (fun interrupts => by
    rw [has]
    exact run_sw0 devices interrupts path.fetched) ?_
  simp only [execute, Instruction.execute, read_ofNumber]
  rfl

private theorem implements_jalr (has : op path.instruction = 6) : Implements devices path := by
  have decodes : decode path.instruction = some (.jalr (.ofNumber (rx path.instruction))
      (.ofNumber (ry path.instruction))) := by
    unfold decode
    rw [show path.instruction.extractLsb' 28 4 = 6 from has]
    rfl
  refine implements_of_run decodes (by rw [has]; decide) (fun interrupts => by
    rw [has]
    exact run_jalr0 devices interrupts path.fetched) ?_
  have writes := machine_update path.fetched (ry path.instruction) (drivenPc path.fetched.pc)
  have jumps := congrArg (fun linked : Machine => some { linked with
    context := { linked.context with
      pc := linked.context.read (.ofNumber (rx path.instruction)) } }) writes.symm
  refine jumps.trans ?_
  rw [read_ofNumber]
  rfl

private theorem implements_ei (has : op path.instruction = 10) : Implements devices path := by
  have decodes : decode path.instruction = some .ei := by
    unfold decode
    rw [show path.instruction.extractLsb' 28 4 = 10 from has]
    rfl
  refine implements_of_run decodes (by rw [has]; decide) (fun interrupts => by
    rw [has]
    exact run_ei0 devices interrupts path.fetched) ?_
  rfl

private theorem implements_di (has : op path.instruction = 11) : Implements devices path := by
  have decodes : decode path.instruction = some .di := by
    unfold decode
    rw [show path.instruction.extractLsb' 28 4 = 11 from has]
    rfl
  refine implements_of_run decodes (by rw [has]; decide) (fun interrupts => by
    rw [has]
    exact run_di0 devices interrupts path.fetched) ?_
  rfl

private theorem implements_reti (has : op path.instruction = 12) : Implements devices path := by
  have decodes : decode path.instruction = some .reti := by
    unfold decode
    rw [show path.instruction.extractLsb' 28 4 = 12 from has]
    rfl
  refine implements_of_run decodes (by rw [has]; decide) (fun interrupts => by
    rw [has]
    exact run_reti0 devices interrupts path.fetched) ?_
  rfl

private theorem implements_boni (has : op path.instruction = 13) : Implements devices path := by
  have decodes : decode path.instruction = some (.boni (.ofNumber (rx path.instruction))
      (.ofNumber (ry path.instruction)) (path.instruction.extractLsb' 0 20)) := by
    unfold decode
    rw [show path.instruction.extractLsb' 28 4 = 13 from has]
    rfl
  refine implements_of_run decodes (by rw [has]; decide) (fun interrupts => by
    rw [has]
    exact run_boni0 devices interrupts path.fetched) ?_
  simp only [execute, Instruction.execute, read_ofNumber]
  rfl

private theorem implements_beq (has : op path.instruction = 5) : Implements devices path := by
  have decodes : decode path.instruction = some (.beq (.ofNumber (rx path.instruction))
      (.ofNumber (ry path.instruction)) (path.instruction.extractLsb' 0 20)) := by
    unfold decode
    rw [show path.instruction.extractLsb' 28 4 = 5 from has]
    rfl
  by_cases same : path.register (rx path.instruction) = path.register (ry path.instruction)
  · refine implements_of_run decodes (by rw [has]; decide) (fun interrupts => by
      rw [has]
      exact run_beq0_of_eq devices interrupts path.fetched same) ?_
    simp only [execute, read_ofNumber]
    exact if_pos same
  · refine implements_of_run decodes (by rw [has]; decide) (fun interrupts => by
      rw [has]
      exact run_beq0_of_ne devices interrupts path.fetched same) ?_
    simp only [execute, read_ofNumber]
    exact if_neg same

theorem implements_of_none (none : effect drivenPc path.machine devices.key = none) :
    Implements devices path := by
  intro after has
  rw [none] at has
  cases has

private theorem implements_halt (has : op path.instruction = 7) : Implements devices path := by
  have decodes : decode path.instruction = some .halt := by
    unfold decode
    rw [show path.instruction.extractLsb' 28 4 = 7 from has]
    rfl
  exact implements_of_none
    (congrArg (Option.bind · (execute drivenPc path.forced.machine devices.key)) decodes)

private theorem implements_unused (unused : decode path.instruction = none) :
    Implements devices path :=
  implements_of_none
    (congrArg (Option.bind · (execute drivenPc path.forced.machine devices.key)) unused)

private theorem decode_unused {word : Word} {opcode : BitVec 4} (has : op word = opcode)
    (unused : opcode = 8 ∨ opcode = 9 ∨ opcode = 14 ∨ opcode = 15) : decode word = none := by
  unfold decode
  rw [show word.extractLsb' 28 4 = opcode from has]
  rcases unused with rfl | rfl | rfl | rfl <;> rfl

/-- The microprogram implements every instruction. -/
theorem implements (devices : Devices) (path : Datapath) : Implements devices path := by
  generalize has : op path.instruction = opcode
  obtain ⟨value, bound⟩ := opcode
  match value, bound with
  | 0, _ => exact implements_add has
  | 1, _ => exact implements_nand has
  | 2, _ => exact implements_addi has
  | 3, _ => exact implements_lw has
  | 4, _ => exact implements_sw has
  | 5, _ => exact implements_beq has
  | 6, _ => exact implements_jalr has
  | 7, _ => exact implements_halt has
  | 8, _ => exact implements_unused (decode_unused has (.inl rfl))
  | 9, _ => exact implements_unused (decode_unused has (.inr (.inl rfl)))
  | 10, _ => exact implements_ei has
  | 11, _ => exact implements_di has
  | 12, _ => exact implements_reti has
  | 13, _ => exact implements_boni has
  | 14, _ => exact implements_unused (decode_unused has (.inr (.inr (.inl rfl))))
  | 15, _ => exact implements_unused (decode_unused has (.inr (.inr (.inr rfl))))
  | value + 16, bound => exact absurd bound (Nat.not_lt.mpr (Nat.le_add_left 16 value))

end Opcodes

/-! ## Interrupts -/

theorem machine_interrupted (path : Datapath) (vector : Word) :
    (path.interrupted vector).machine = interrupted drivenPc vector path.machine := by
  have saves := machine_update path 12 (drivenPc path.pc)
  exact congrArg (fun saved : Machine => { saved with
    context := { saved.context with pc := path.memory (vector.setWidth 24), enabled := false } })
    saves

/-- From `FETCH0` to `FETCH0` the microprogram executes the instruction at the address that the
program counter drives, after an interrupt if the interrupt input is set in `FETCH0`; the interrupt
input of all other cycles is ignored. -/
theorem microprogram_performs {devices : Devices} {path : Datapath} {interrupts : Nat → Bool}
    {after : Machine}
    (performs : perform drivenPc devices (interrupts 0) path.machine = some after) :
    ∃ final, ReturnsTo devices interrupts path final ∧ final.machine = after := by
  unfold perform at performs
  cases input : interrupts 0 with
  | false =>
      rw [input, if_neg Bool.false_ne_true] at performs
      obtain ⟨cycles, final, runs, shows⟩ := implements devices path after performs
        fun cycle => interrupts (cycle + 1)
      exact ⟨final, ⟨cycles + 1,
        (returns_fetch0_of_quiet devices cycles interrupts path input).trans runs⟩, shows⟩
  | true =>
      rw [input, if_pos rfl, ← machine_interrupted] at performs
      obtain ⟨cycles, final, runs, shows⟩ :=
        implements devices (path.interrupted devices.vector) after performs
          fun cycle => interrupts (cycle + 4)
      exact ⟨final, ⟨cycles + 4,
        (returns_fetch0_of_interrupt devices cycles interrupts path input).trans runs⟩, shows⟩

/-- The devices when the timer interrupts. -/
def timer : Devices := { vector := 1, key := 0 }

/-- The instruction `RETI` is at every address but that of the timer's vector. -/
def returning : Datapath where
  pc := 16
  a := 0
  b := 0
  mar := 0
  ir := 0
  z := false
  ie := true
  registers := fun _ => 0
  memory := fun cell => if cell = 1 then 100 else 0xc0000000

/-- An interrupt is taken, and the handler returns at once. -/
theorem microprogram_performs_returning : ∃ final,
    ReturnsTo timer (fun _ => true) returning final ∧
      final.machine.context.pc = 16 ∧ final.machine.context.enabled = true := by
  let after := (perform drivenPc timer true returning.machine).get rfl
  have performs : perform drivenPc timer true returning.machine = some after := rfl
  obtain ⟨final, returns, shows⟩ : ∃ final, ReturnsTo timer (fun _ => true) returning final ∧
      final.machine = after := microprogram_performs performs
  exact ⟨final, returns, by rw [shows]; rfl, by rw [shows]; rfl⟩

/-- The datapath after a reset, with the instructions `EI` at address 0 and `DI` elsewhere. -/
def reset : Datapath where
  pc := 0
  a := 0
  b := 0
  mar := 0
  ir := 0
  z := false
  ie := false
  registers := fun _ => 0
  memory := fun cell => if cell = 0 then 0xa0000000 else 0xb0000000

/-- The instruction at address 0 is not executed. -/
theorem vector_not_executed : ¬ ∀ devices path interrupts after,
    perform id devices (interrupts 0) (Datapath.machine path) = some after →
      ∃ final, ReturnsTo devices interrupts path final ∧ final.machine = after := by
  intro performs
  let after := (perform id timer false reset.machine).get rfl
  obtain ⟨final, returns, shows⟩ := performs timer reset (fun _ => false) after rfl
  have disables : ReturnsTo timer (fun _ => false) reset _ := ⟨5, rfl⟩
  obtain rfl := returns.unique disables
  have enabled : false = true := congrArg (fun machine : Machine => machine.context.enabled) shows
  cases enabled

end CS2200.Processor32
