import CS2200.Library.RegisterFile
import CS2200.Processor16.Circuit

/-!
# The instruction set

What the instructions of the LC-2200-16 do to the program counter, the registers and the memory,
and when the microprogram does it. The state `BEQ2` loads the zero flag and branches on its old
value at once, and the state that follows a branch not taken goes on without fetching; this is why
a branch is right only by chance.
-/

namespace CS2200.Processor16

open MicroState

/-! ## Architecture -/

/-- What a program can see. -/
structure Architecture where
  /-- Program counter. -/
  pc : BitVec 16
  /-- Values that the registers read as. -/
  register : BitVec 4 → BitVec 16
  /-- Main memory. -/
  memory : BitVec 16 → BitVec 16

/-- Write a register; register 0 keeps its value. -/
def Architecture.write (before : Architecture) (number : BitVec 4) (value : BitVec 16) :
    Architecture :=
  if number = 0 then before
  else { before with register := Function.update before.register number value }

/-- The effect of an instruction with a given opcode; `HALT` has none. -/
def execute (instruction : BitVec 16) (before : Architecture) (opcode : Fin 8) :
    Option Architecture :=
  let next := { before with pc := before.pc + 1 }
  let x := before.register (rx instruction)
  let y := before.register (ry instruction)
  match opcode with
  | 0 => some (next.write (rx instruction) (y + before.register (rz instruction)))
  | 1 => some (next.write (rx instruction) (~~~ (y &&& before.register (rz instruction))))
  | 2 => some (next.write (rx instruction) (y + offset instruction))
  | 3 => some (next.write (rx instruction) (before.memory (y + offset instruction)))
  | 4 => some { next with memory := Function.update before.memory (y + offset instruction) x }
  | 5 => some (if x = y then { next with pc := before.pc + 1 + offset instruction } else next)
  | 6 =>
      let linked := next.write (ry instruction) (before.pc + 1)
      some { linked with pc := linked.register (rx instruction) }
  | 7 => none

/-- The effect of the instruction at the program counter. -/
def effect (before : Architecture) : Option Architecture :=
  let instruction := before.memory before.pc
  execute instruction before (op instruction).toFin

/-- What a program can see of the datapath. -/
def Datapath.architecture (path : Datapath) : Architecture where
  pc := path.pc
  register := path.register
  memory := path.memory

/-! ## Runs of the microprogram -/

/-- From `FETCH0` an instruction is dispatched, and the next instruction is dispatched when the
datapath has the second contents. -/
def Executes (path after : Datapath) : Prop :=
  ∃ fetching running dispatched, untilDispatch fetching (fetch0, path) = some dispatched ∧
    untilDispatch running (step (fetch2, dispatched)) = some after

private theorem untilDispatch_mono {cycles more : Nat} {machine : MicroState × Datapath}
    {path : Datapath} (enough : cycles ≤ more) (found : untilDispatch cycles machine = some path) :
    untilDispatch more machine = some path := by
  induction cycles generalizing more machine with
  | zero => cases found
  | succ cycles ih =>
      obtain ⟨more, rfl⟩ := Nat.exists_eq_succ_of_ne_zero (Nat.ne_of_gt (Nat.zero_lt_of_lt enough))
      unfold untilDispatch at found ⊢
      split at found
      case isTrue here => rwa [if_pos here]
      case isFalse elsewhere =>
        rw [if_neg elsewhere]
        exact ih (Nat.le_of_succ_le_succ enough) found

theorem untilDispatch_unique {cycles more : Nat} {machine : MicroState × Datapath}
    {first second : Datapath} (firstFound : untilDispatch cycles machine = some first)
    (secondFound : untilDispatch more machine = some second) : first = second := by
  have left := untilDispatch_mono (Nat.le_max_left cycles more) firstFound
  have right := untilDispatch_mono (Nat.le_max_right cycles more) secondFound
  exact Option.some.inj (left.symm.trans right)

namespace Datapath

/-- The datapath at the end of `FETCH1`. -/
def fetch (path : Datapath) : Datapath :=
  { path with mar := path.pc, a := path.pc, ir := path.memory path.pc }

/-- The datapath when an instruction begins to be executed. -/
def fetched (path : Datapath) : Datapath := { path.fetch with pc := path.pc + 1 }

end Datapath

theorem untilDispatch_fetch0 (path : Datapath) :
    untilDispatch 3 (fetch0, path) = some path.fetch := rfl

theorem step_fetch2 (path : Datapath) :
    step (fetch2, path.fetch) = (opRom (op (path.memory path.pc)), path.fetched) := rfl

theorem executes_iff {path after next : Datapath} {cycles : Nat}
    (runs : untilDispatch cycles (opRom (op (path.memory path.pc)), path.fetched) = some next) :
    Executes path after ↔ after = next := by
  constructor
  · rintro ⟨fetching, running, dispatched, first, second⟩
    obtain rfl := untilDispatch_unique (untilDispatch_fetch0 path) first
    rw [step_fetch2] at second
    exact untilDispatch_unique second runs
  · rintro rfl
    exact ⟨3, cycles, path.fetch, untilDispatch_fetch0 path, runs⟩

section Instructions

variable (path : Datapath) (cycles : Nat)

private theorem run_add0 : untilDispatch (cycles + 3) (add0, path) = untilDispatch cycles (fetch0,
    { path with
      a := path.register (ry path.ir)
      b := path.register (rz path.ir)
      registers := Function.update path.registers (rx path.ir)
        (path.register (ry path.ir) + path.register (rz path.ir)) }) := rfl

private theorem run_nand0 : untilDispatch (cycles + 3) (nand0, path) = untilDispatch cycles (fetch0,
    { path with
      a := path.register (ry path.ir)
      b := path.register (rz path.ir)
      registers := Function.update path.registers (rx path.ir)
        (~~~ (path.register (ry path.ir) &&& path.register (rz path.ir))) }) := rfl

private theorem run_addi0 : untilDispatch (cycles + 3) (addi0, path) = untilDispatch cycles (fetch0,
    { path with
      a := path.register (ry path.ir)
      b := offset path.ir
      registers := Function.update path.registers (rx path.ir)
        (path.register (ry path.ir) + offset path.ir) }) := rfl

private theorem run_lw0 : untilDispatch (cycles + 4) (lw0, path) = untilDispatch cycles (fetch0,
    { path with
      a := path.register (ry path.ir)
      b := offset path.ir
      mar := path.register (ry path.ir) + offset path.ir
      registers := Function.update path.registers (rx path.ir)
        (path.memory (path.register (ry path.ir) + offset path.ir)) }) := rfl

private theorem run_sw0 : untilDispatch (cycles + 4) (sw0, path) = untilDispatch cycles (fetch0,
    { path with
      a := path.register (ry path.ir)
      b := offset path.ir
      mar := path.register (ry path.ir) + offset path.ir
      memory := Function.update path.memory (path.register (ry path.ir) + offset path.ir)
        (path.register (rx path.ir)) }) := rfl

/-- The comparison is stored while its old result decides. -/
theorem run_beq0 : untilDispatch (cycles + 3) (beq0, path) = untilDispatch cycles (condRom path.z,
    { path with
      a := path.register (rx path.ir)
      b := path.register (ry path.ir)
      z := decide (path.register (rx path.ir) - path.register (ry path.ir) = 0) }) := rfl

private theorem run_beq3 : untilDispatch (cycles + 3) (beq3, path) = untilDispatch cycles (fetch0,
    { path with
      a := path.pc
      b := offset path.ir
      pc := path.pc + offset path.ir }) := rfl

/-- The instruction register is not loaded. -/
theorem run_fetch5 : untilDispatch (cycles + 2) (fetch5, path) =
    some { path with mar := path.pc, a := path.pc } := rfl

private theorem run_jalr0 : untilDispatch (cycles + 2) (jalr0, path) = untilDispatch cycles (fetch0,
    let linked := { path with registers := Function.update path.registers (ry path.ir) path.pc }
    { linked with pc := linked.register (rx path.ir) }) := rfl

private theorem run_halt0 : untilDispatch cycles (halt0, path) = none := by
  induction cycles with
  | zero => rfl
  | succ cycles ih => exact ih

end Instructions

/-! ## The effect of an instruction -/

private theorem register_update (path : Datapath) (number other : BitVec 4) (value : BitVec 16) :
    { path with registers := Function.update path.registers number value }.register other =
      if other = number ∧ number ≠ 0 then value else path.register other :=
  RegisterFile.read_update 0 0 path.registers number other value

theorem architecture_update (path : Datapath) (number : BitVec 4) (value : BitVec 16) :
    { path with registers := Function.update path.registers number value }.architecture =
      path.architecture.write number value := by
  have reads := fun other => register_update path number other value
  unfold Architecture.write
  split
  case isTrue zero =>
    refine congrArg (fun register => { path.architecture with register }) (funext fun other => ?_)
    rw [reads, if_neg fun both => both.2 zero]
  case isFalse notZero =>
    refine congrArg (fun register => { path.architecture with register }) (funext fun other => ?_)
    rw [reads]
    by_cases same : other = number
    · subst same
      rw [if_pos ⟨rfl, notZero⟩, Function.update_self]
    · rw [if_neg fun both => same both.1, Function.update_of_ne same]
      rfl

/-- The microprogram has the effect of the instruction at the program counter, and dispatches the
instruction at the new program counter next; `HALT` dispatches no instruction. -/
def Implements (path : Datapath) : Prop :=
  match effect path.architecture with
  | some architecture => ∃ after, Executes path after ∧ after.architecture = architecture ∧
      after.ir = after.memory after.pc
  | none => ∀ after, ¬ Executes path after

/-- An instruction whose states have its effect and end in `FETCH0` is implemented. -/
theorem implements_of_run {path next : Datapath} {cycles : Nat}
    (runs : untilDispatch cycles (opRom (op (path.memory path.pc)), path.fetched) =
      untilDispatch 3 (fetch0, next))
    (has : effect path.architecture = some next.architecture) : Implements path := by
  rw [Implements, has]
  exact ⟨next.fetch, (executes_iff (runs.trans (untilDispatch_fetch0 next))).mpr rfl, rfl, rfl⟩

/-- The instruction at the program counter is not a branch, or the zero flag is right by chance:
it is set and the branch is taken or goes to the next instruction, or it is clear, the branch is
not taken or goes to the next instruction, and the next instruction is the same branch. -/
def Lucky (path : Datapath) : Prop :=
  let instruction := path.memory path.pc
  let equal := path.register (rx instruction) = path.register (ry instruction)
  op instruction ≠ 5 ∨
    path.z = true ∧ (equal ∨ offset instruction = 0) ∨
    path.z = false ∧ path.memory (path.pc + 1) = instruction ∧ (¬ equal ∨ offset instruction = 0)

section Opcodes

variable {path : Datapath}

theorem effect_of_op {opcode : BitVec 3} (has : op (path.memory path.pc) = opcode) :
    effect path.architecture = execute (path.memory path.pc) path.architecture opcode.toFin := by
  subst has
  rfl

private theorem implements_add (has : op (path.memory path.pc) = 0) : Implements path := by
  refine implements_of_run (by rw [has]; exact run_add0 path.fetched 3) ?_
  exact (effect_of_op has).trans (congrArg some (architecture_update path.fetched _ _).symm)

private theorem implements_nand (has : op (path.memory path.pc) = 1) : Implements path := by
  refine implements_of_run (by rw [has]; exact run_nand0 path.fetched 3) ?_
  exact (effect_of_op has).trans (congrArg some (architecture_update path.fetched _ _).symm)

private theorem implements_addi (has : op (path.memory path.pc) = 2) : Implements path := by
  refine implements_of_run (by rw [has]; exact run_addi0 path.fetched 3) ?_
  exact (effect_of_op has).trans (congrArg some (architecture_update path.fetched _ _).symm)

private theorem implements_lw (has : op (path.memory path.pc) = 3) : Implements path := by
  refine implements_of_run (by rw [has]; exact run_lw0 path.fetched 3) ?_
  exact (effect_of_op has).trans (congrArg some (architecture_update path.fetched _ _).symm)

private theorem implements_sw (has : op (path.memory path.pc) = 4) : Implements path := by
  refine implements_of_run (by rw [has]; exact run_sw0 path.fetched 3) ?_
  exact effect_of_op has

private theorem implements_jalr (has : op (path.memory path.pc) = 6) : Implements path := by
  refine implements_of_run (by rw [has]; exact run_jalr0 path.fetched 3) ?_
  have linked := architecture_update path.fetched (ry (path.memory path.pc)) (path.pc + 1)
  have jumps := congrArg
    (fun linked : Architecture =>
      some { linked with pc := linked.register (rx (path.memory path.pc)) }) linked.symm
  exact (effect_of_op has).trans jumps

private theorem implements_halt (has : op (path.memory path.pc) = 7) : Implements path := by
  have none : effect path.architecture = none := effect_of_op has
  rw [Implements, none]
  rintro after ⟨fetching, running, dispatched, first, second⟩
  obtain rfl := untilDispatch_unique (untilDispatch_fetch0 path) first
  rw [step_fetch2, has] at second
  cases (run_halt0 path.fetched running).symm.trans second

/-- A run that ends in one datapath implements the instruction if it ends well. -/
theorem implements_iff {next : Datapath} {cycles : Nat} {architecture : Architecture}
    (runs : untilDispatch cycles (opRom (op (path.memory path.pc)), path.fetched) = some next)
    (has : effect path.architecture = some architecture) :
    Implements path ↔ next.architecture = architecture ∧ next.ir = next.memory next.pc := by
  rw [Implements, has]
  constructor
  · rintro ⟨after, executes, ends⟩
    obtain rfl := (executes_iff runs).mp executes
    exact ends
  · exact fun ends => ⟨next, (executes_iff runs).mpr rfl, ends⟩

private theorem branch_eq_iff {architecture : Architecture} {offset : BitVec 16} :
    { architecture with pc := architecture.pc + offset } = architecture ↔ offset = 0 := by
  constructor
  · intro same
    have pc : architecture.pc + offset = architecture.pc := congrArg Architecture.pc same
    simpa using pc
  · rintro rfl
    rw [BitVec.ofNat_eq_ofNat, BitVec.add_zero]

private theorem run_beq0_of_set (path : Datapath) (set : path.z = true) :
    ∃ next, untilDispatch 9 (beq0, path) = some next ∧
      next.architecture = { path.architecture with pc := path.pc + offset path.ir } ∧
      next.ir = next.memory next.pc := by
  let compared := { path with
    a := path.register (rx path.ir)
    b := path.register (ry path.ir)
    z := decide (path.register (rx path.ir) - path.register (ry path.ir) = 0) }
  let taken := { compared with
    a := path.pc
    b := offset path.ir
    pc := path.pc + offset path.ir }
  refine ⟨taken.fetch, ?_, rfl, rfl⟩
  rw [run_beq0 path 6, set]
  exact (run_beq3 compared 3).trans (untilDispatch_fetch0 taken)

theorem run_beq0_of_clear (path : Datapath) (clear : path.z = false) :
    ∃ next, untilDispatch 5 (beq0, path) = some next ∧
      next.architecture = path.architecture ∧ next.ir = path.ir := by
  let compared := { path with
    a := path.register (rx path.ir)
    b := path.register (ry path.ir)
    z := decide (path.register (rx path.ir) - path.register (ry path.ir) = 0) }
  refine ⟨{ compared with mar := path.pc, a := path.pc }, ?_, rfl, rfl⟩
  rw [run_beq0 path 2, clear]
  exact run_fetch5 compared 0

/-- The old zero flag decides. -/
theorem implements_beq_iff (has : op (path.memory path.pc) = 5) :
    Implements path ↔ Lucky path := by
  let passed : Architecture := { path.architecture with pc := path.pc + 1 }
  let target : Architecture := { passed with pc := passed.pc + offset (path.memory path.pc) }
  let equal := path.register (rx (path.memory path.pc)) = path.register (ry (path.memory path.pc))
  have branches : effect path.architecture = some (if equal then target else passed) :=
    effect_of_op has
  have goesOn : target = passed ↔ offset (path.memory path.pc) = 0 := branch_eq_iff
  by_cases z : path.z = true
  · obtain ⟨next, runs, reaches, dispatches⟩ := run_beq0_of_set path.fetched z
    rw [implements_iff (by rw [has]; exact runs) branches, reaches]
    have right : target = (if equal then target else passed) ↔
        equal ∨ offset (path.memory path.pc) = 0 := by
      split
      case isTrue same => exact iff_of_true rfl (.inl same)
      case isFalse different => rw [goesOn, or_iff_right different]
    constructor
    · exact fun ends => .inr (.inl ⟨z, right.mp ends.1⟩)
    · rintro (other | ⟨-, lucky⟩ | ⟨clear, -⟩)
      · exact absurd has other
      · exact ⟨right.mpr lucky, dispatches⟩
      · cases z.symm.trans clear
  · have clear : path.z = false := Bool.eq_false_iff.mpr z
    obtain ⟨next, runs, reaches, dispatches⟩ := run_beq0_of_clear path.fetched clear
    have sameWord : next.ir = next.memory next.pc ↔
        path.memory (path.pc + 1) = path.memory path.pc := by
      have memory : next.memory next.pc = path.memory (path.pc + 1) :=
        congrArg (fun architecture : Architecture => architecture.memory architecture.pc) reaches
      rw [dispatches, memory]
      exact eq_comm
    have right : passed = (if equal then target else passed) ↔
        ¬ equal ∨ offset (path.memory path.pc) = 0 := by
      split
      case isTrue same => rw [eq_comm, goesOn, or_iff_right (not_not_intro same)]
      case isFalse different => exact iff_of_true rfl (.inl different)
    rw [implements_iff (by rw [has]; exact runs) branches, reaches, sameWord]
    constructor
    · exact fun ends => .inr (.inr ⟨clear, ends.2, right.mp ends.1⟩)
    · rintro (other | ⟨set, -⟩ | ⟨-, same, lucky⟩)
      · exact absurd has other
      · exact absurd set z
      · exact ⟨right.mpr lucky, same⟩

/-- The microprogram implements the instruction at the program counter if and only if it is not a
branch or the branch is lucky. -/
theorem implements_iff_lucky (path : Datapath) : Implements path ↔ Lucky path := by
  by_cases branch : op (path.memory path.pc) = 5
  · exact implements_beq_iff branch
  · refine iff_of_true ?_ (.inl branch)
    generalize has : op (path.memory path.pc) = opcode at branch
    obtain ⟨value⟩ := opcode
    match value with
    | 0 => exact implements_add has
    | 1 => exact implements_nand has
    | 2 => exact implements_addi has
    | 3 => exact implements_lw has
    | 4 => exact implements_sw has
    | 5 => exact absurd rfl branch
    | 6 => exact implements_jalr has
    | 7 => exact implements_halt has

end Opcodes

/-- After a reset, a branch on equal registers at address 0 is not taken. -/
theorem beq_not_taken : ¬ ∀ path, Implements path := by
  intro implements
  let path : Datapath :=
    { pc := 0, a := 0, b := 0, mar := 0, ir := 0, z := false, registers := fun _ => 0
      memory := fun address => if address = 0 then 0xa001 else 0 }
  have branch : op (path.memory path.pc) = 5 := by decide
  have same : path.register (rx (path.memory path.pc)) =
      path.register (ry (path.memory path.pc)) := by decide
  have branches : effect path.architecture =
      some { path.architecture with pc := 0 + 1 + offset 0xa001 } :=
    (effect_of_op branch).trans (congrArg some (if_pos same))
  obtain ⟨next, runs, reaches, -⟩ := run_beq0_of_clear path.fetched rfl
  have ends := (implements_iff (by rw [branch]; exact runs) branches).mp (implements path)
  have pc : (1 : BitVec 16) = 0 + 1 + offset 0xa001 :=
    congrArg Architecture.pc (reaches.symm.trans ends.1)
  exact absurd pc (by decide)

end CS2200.Processor16
