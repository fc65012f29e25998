import CS2200.Processor32.Refinement
import Mathlib.Data.Nat.Find

/-!
# Runs of the circuit

Cycle after cycle, with devices that may change their minds in every cycle, the circuit executes the
instruction set with interrupts. The events are read off the control signals: an interrupt is taken
where `IntAck` is asserted, with the vector that is on the bus then, and an instruction has been
executed where the microprogram returns to `FETCH0`.
-/

namespace CS2200.Processor32

open Interrupts (Config Event Instruction Machine Run Source Word address decode)
open MicroState Signal

/-! ## The clock -/

/-- What the devices do in a cycle. -/
structure Input where
  /-- A device requests an interrupt. -/
  request : Bool
  /-- The device that answers an acknowledgement. -/
  source : Source
  /-- The character of the keyboard. -/
  key : Word
  deriving DecidableEq, Repr

/-- What a device puts on the bus when its interrupt is acknowledged. -/
def vectorWord : Source → Word
  | .timer => 1
  | .keyboard => 3

private theorem address_vectorWord (source : Source) :
    address (vectorWord source) = source.vector := by
  cases source <;> rfl

/-- The devices of a cycle. -/
def Input.devices (input : Input) : Devices :=
  { vector := vectorWord input.source, key := input.key }

/-- The interrupt input of the microcontroller: requests are ignored unless interrupts are
enabled. -/
def Input.interrupt (input : Input) (path : Datapath) : Bool := path.ie && input.request

/-- One cycle of the whole circuit. -/
def cycle (input : Input) (machine : MicroState × Datapath) : MicroState × Datapath :=
  step input.devices (input.interrupt machine.2) machine

/-- The circuit after some cycles, if it starts in `FETCH0`. -/
def clocked (inputs : Nat → Input) (path : Datapath) : Nat → MicroState × Datapath
  | 0 => (fetch0, path)
  | cycles + 1 => cycle (inputs cycles) (clocked inputs path cycles)

/-- What happens in a cycle. -/
def events (input : Input) (machine : MicroState × Datapath) : List Event :=
  (if intAck ∈ signals machine.1 then [.interrupt input.source] else []) ++
    if (cycle input machine).1 = fetch0 then [.execute input.key] else []

/-- What happens in the first cycles. -/
def happened (inputs : Nat → Input) (path : Datapath) : Nat → List Event
  | 0 => []
  | cycles + 1 =>
      happened inputs path cycles ++ events (inputs cycles) (clocked inputs path cycles)

/-! ## Where the devices are looked at -/

/-- The keyboard drives the bus. -/
def ReadsKey (state : MicroState) : Prop :=
  ldZ ∈ signals state ∧ aluHi ∈ signals state ∧ aluLo ∈ signals state

section Looks

variable {state : MicroState} {path : Datapath} {interrupt : Bool} {first second : Devices}

theorem intAck_mem (state : MicroState) : intAck ∈ signals state ↔ state = fetch2 := by
  cases state <;> decide

/-- The next state is the one that `Goto` names, but for the states that look into a table. -/
theorem nextState_cases (interrupt : Bool) (state : MicroState) (path : Datapath) :
    nextState interrupt state path = (goto state).getD fetch0 ∨
      nextState interrupt state path = opRom (op path.ir) ∨
      nextState interrupt state path = condRom path.z ∨
      state = fetch0 ∧ nextState interrupt state path = intRom interrupt := by
  cases state
  case fetch0 => exact .inr (.inr (.inr ⟨rfl, rfl⟩))
  case fetch6 => exact .inr (.inl rfl)
  case beq3 => exact .inr (.inr (.inl rfl))
  all_goals exact .inl rfl

/-- Nothing but `FETCH0` leads to `FETCH1`, and nothing but `FETCH1` to `FETCH2`. -/
theorem nextState_fetch (interrupt : Bool) (state : MicroState) (path : Datapath) :
    (nextState interrupt state path = fetch1 → state = fetch0) ∧
      (nextState interrupt state path = fetch2 → state = fetch1) := by
  have named : (goto state).getD fetch0 ≠ fetch1 ∧
      ((goto state).getD fetch0 = fetch2 → state = fetch1) := by
    cases state <;> decide
  have dispatched : opRom (op path.ir) ≠ fetch1 ∧ opRom (op path.ir) ≠ fetch2 := by
    generalize op path.ir = opcode
    revert opcode
    decide
  have decided : condRom path.z ≠ fetch1 ∧ condRom path.z ≠ fetch2 := by
    cases path.z <;> decide
  have asked : intRom interrupt ≠ fetch2 := by
    cases interrupt <;> decide
  rcases nextState_cases interrupt state path with next | next | next | ⟨rfl, next⟩
  · rw [next]
    exact ⟨fun same => absurd same named.1, named.2⟩
  · rw [next]
    exact ⟨fun same => absurd same dispatched.1, fun same => absurd same dispatched.2⟩
  · rw [next]
    exact ⟨fun same => absurd same decided.1, fun same => absurd same decided.2⟩
  · rw [next]
    exact ⟨fun _ => rfl, fun same => absurd same asked⟩

/-- The keyboard drives the bus in the last cycle of `BONI` only. -/
theorem nextState_of_readsKey (interrupt : Bool) (path : Datapath) (reads : ReadsKey state) :
    nextState interrupt state path = fetch0 := by
  have last : state = boni3 := by
    revert reads
    unfold ReadsKey
    cases state <;> decide
  rw [last]
  rfl

theorem step_congr (vector : intAck ∈ signals state → first.vector = second.vector)
    (key : ReadsKey state → first.key = second.key) :
    step first interrupt (state, path) = step second interrupt (state, path) := by
  have bus : path.bus first (signals state) = path.bus second (signals state) := by
    unfold Datapath.bus
    split_ifs with _ _ _ _ _ asks reads
    all_goals first | rfl | exact vector asks | exact key reads
  simp only [step, Datapath.latch, bus]

end Looks

/-! ## From `FETCH0` to `FETCH0` -/

/-- The circuit after some cycles, for devices and an interrupt input that change in every cycle. -/
def iterate (devices : Nat → Devices) (interrupts : Nat → Bool)
    (machine : MicroState × Datapath) : Nat → MicroState × Datapath
  | 0 => machine
  | cycles + 1 =>
      step (devices cycles) (interrupts cycles) (iterate devices interrupts machine cycles)

/-- The microprogram comes to `FETCH0` for the first time after some cycles. -/
structure Block (devices : Nat → Devices) (interrupts : Nat → Bool)
    (machine : MicroState × Datapath) (length : Nat) : Prop where
  /-- There is a cycle. -/
  pos : 0 < length
  /-- The block ends in `FETCH0`. -/
  ends : (iterate devices interrupts machine length).1 = fetch0
  /-- It is in other states before. -/
  inside : ∀ {cycle}, 0 < cycle → cycle < length →
    (iterate devices interrupts machine cycle).1 ≠ fetch0

section Blocks

variable {devices others : Nat → Devices} {interrupts : Nat → Bool} {path : Datapath}
  {machine : MicroState × Datapath} {length : Nat}

theorem iterate_shift (devices : Nat → Devices) (interrupts : Nat → Bool)
    (machine : MicroState × Datapath) (cycles : Nat) :
    iterate devices interrupts machine (cycles + 1) =
      iterate (fun cycle => devices (cycle + 1)) (fun cycle => interrupts (cycle + 1))
        (step (devices 0) (interrupts 0) machine) cycles := by
  induction cycles with
  | zero => rfl
  | succ cycles ih =>
      rw [iterate, ih]
      rfl

private theorem block_of_returns {fixed : Devices} {cycles : Nat} {final : Datapath}
    (runs : returns fixed cycles interrupts machine = some final) :
    ∃ length, Block (fun _ => fixed) interrupts machine length ∧
      (iterate (fun _ => fixed) interrupts machine length).2 = final := by
  induction cycles generalizing interrupts machine with
  | zero => cases runs
  | succ cycles ih =>
      by_cases here : (step fixed (interrupts 0) machine).1 = fetch0
      · rw [returns, if_pos here] at runs
        exact ⟨1, ⟨Nat.one_pos, here, fun positive below => by omega⟩, Option.some.inj runs⟩
      · rw [returns, if_neg here] at runs
        obtain ⟨length, block, shows⟩ := ih runs
        refine ⟨length + 1, ⟨Nat.succ_pos length, ?_, fun {cycle} positive below => ?_⟩, ?_⟩
        · rw [iterate_shift]
          exact block.ends
        · obtain ⟨cycle, rfl⟩ := Nat.exists_eq_succ_of_ne_zero (Nat.ne_of_gt positive)
          rw [Nat.succ_eq_add_one, iterate_shift]
          rcases Nat.eq_zero_or_pos cycle with rfl | later
          · exact here
          · exact block.inside later (by omega)
        · rw [iterate_shift]
          exact shows

private theorem Block.returns_isSome {fixed : Devices}
    (block : Block (fun _ => fixed) interrupts machine length) :
    (returns fixed length interrupts machine).isSome := by
  induction length generalizing interrupts machine with
  | zero => exact absurd block.pos (Nat.lt_irrefl 0)
  | succ length ih =>
      by_cases here : (step fixed (interrupts 0) machine).1 = fetch0
      · rw [returns, if_pos here]
        rfl
      · rw [returns, if_neg here]
        have pos : 0 < length := by
          rcases Nat.eq_zero_or_pos length with rfl | pos
          · exact absurd block.ends here
          · exact pos
        refine ih ⟨pos, ?_, fun {cycle} positive below => ?_⟩
        · have ends := block.ends
          rwa [iterate_shift] at ends
        · have inside := block.inside (Nat.succ_pos cycle) (Nat.succ_lt_succ below)
          rwa [iterate_shift] at inside

/-- An interrupt is acknowledged in the third cycle of a block. -/
theorem Block.acknowledges (block : Block devices interrupts (fetch0, path) length) {cycle : Nat}
    (below : cycle < length)
    (asks : (iterate devices interrupts (fetch0, path) cycle).1 = fetch2) :
    cycle = 2 ∧ interrupts 0 = true := by
  match cycle with
  | 0 => cases asks
  | cycle + 1 =>
      have second := (nextState_fetch _ _ _).2 asks
      match cycle with
      | 0 => cases second
      | cycle + 1 =>
          have first := (nextState_fetch _ _ _).1 second
          rcases Nat.eq_zero_or_pos cycle with rfl | later
          · refine ⟨rfl, ?_⟩
            have taken : intRom (interrupts 0) = fetch1 := second
            cases input : interrupts 0 with
            | true => rfl
            | false =>
                rw [input] at taken
                cases taken
          · exact absurd first (block.inside later (by omega))

/-- In a block, devices make a difference in the cycle that acknowledges an interrupt and in the
last one. -/
theorem Block.agree (block : Block devices interrupts (fetch0, path) length)
    (vector : (devices 2).vector = (others 2).vector) {cycle : Nat} (below : cycle < length) :
    iterate others interrupts (fetch0, path) cycle =
      iterate devices interrupts (fetch0, path) cycle := by
  induction cycle with
  | zero => rfl
  | succ cycle ih =>
      have same := ih (by omega)
      rw [iterate, iterate, same]
      refine step_congr (fun asks => ?_) fun reads => ?_
      · obtain ⟨rfl, -⟩ := block.acknowledges (by omega) ((intAck_mem _).mp asks)
        exact vector.symm
      · exact absurd (nextState_of_readsKey _ _ reads)
          (block.inside (Nat.succ_pos cycle) below)

theorem Block.congr (block : Block devices interrupts (fetch0, path) length)
    (vector : (devices 2).vector = (others 2).vector) :
    Block others interrupts (fetch0, path) length := by
  refine ⟨block.pos, ?_, fun positive below => ?_⟩
  · obtain ⟨last, rfl⟩ := Nat.exists_eq_succ_of_ne_zero (Nat.ne_of_gt block.pos)
    have ends := block.ends
    rw [iterate] at ends ⊢
    rwa [block.agree vector (Nat.lt_succ_self last)]
  · rw [block.agree vector below]
    exact block.inside positive below

private theorem Block.final (block : Block devices interrupts (fetch0, path) length)
    (vector : (devices 2).vector = (others 2).vector)
    (key : (devices (length - 1)).key = (others (length - 1)).key) :
    iterate others interrupts (fetch0, path) length =
      iterate devices interrupts (fetch0, path) length := by
  obtain ⟨last, rfl⟩ := Nat.exists_eq_succ_of_ne_zero (Nat.ne_of_gt block.pos)
  rw [iterate, iterate, block.agree vector (Nat.lt_succ_self last)]
  refine step_congr (fun asks => ?_) fun _ => key.symm
  obtain ⟨rfl, -⟩ := block.acknowledges (Nat.lt_succ_self last) ((intAck_mem _).mp asks)
  exact vector.symm

theorem Block.unique {other : Nat} (block : Block devices interrupts machine length)
    (again : Block devices interrupts machine other) : length = other := by
  rcases Nat.lt_trichotomy length other with shorter | same | longer
  · exact absurd block.ends (again.inside block.pos shorter)
  · exact same
  · exact absurd again.ends (block.inside again.pos longer)

theorem iterate_of_interrupt (devices : Nat → Devices) (path : Datapath)
    (taken : interrupts 0 = true) :
    (iterate devices interrupts (fetch0, path) 1).1 = fetch1 ∧
      (iterate devices interrupts (fetch0, path) 2).1 = fetch2 ∧
      (iterate devices interrupts (fetch0, path) 3).1 = fetch3 := by
  have first : (iterate devices interrupts (fetch0, path) 1).1 = fetch1 := by
    rw [iterate, iterate, step_fetch0, taken]
    rfl
  have second : (iterate devices interrupts (fetch0, path) 2).1 = fetch2 := by
    rw [iterate, step, first]
    rfl
  refine ⟨first, second, ?_⟩
  rw [iterate, step, second]
  rfl

private theorem Block.long (block : Block devices interrupts (fetch0, path) length)
    (taken : interrupts 0 = true) : 3 < length := by
  obtain ⟨first, second, third⟩ := iterate_of_interrupt devices path taken
  have pos := block.pos
  have ends := block.ends
  by_contra short
  obtain rfl | rfl | rfl : length = 1 ∨ length = 2 ∨ length = 3 := by omega
  · rw [first] at ends
    cases ends
  · rw [second] at ends
    cases ends
  · rw [third] at ends
    cases ends

private theorem Block.acknowledges_iff (block : Block devices interrupts (fetch0, path) length)
    {cycle : Nat} (below : cycle < length) :
    intAck ∈ signals (iterate devices interrupts (fetch0, path) cycle).1 ↔
      cycle = 2 ∧ interrupts 0 = true := by
  rw [intAck_mem]
  constructor
  · exact block.acknowledges below
  · rintro ⟨rfl, taken⟩
    exact (iterate_of_interrupt devices path taken).2.1

end Blocks

/-! ## Instructions -/

section Instructions

variable {devices : Nat → Devices} {interrupts : Nat → Bool} {path : Datapath} {length : Nat}

/-- The datapath in which the instruction is fetched. -/
def Datapath.pending (path : Datapath) (interrupt : Bool) (vector : Word) : Datapath :=
  if interrupt then path.interrupted vector else path

private theorem block_of_effect {fixed : Devices} {after : Machine}
    (effects : effect drivenPc (path.pending (interrupts 0) fixed.vector).machine fixed.key =
      some after) :
    ∃ length, Block (fun _ => fixed) interrupts (fetch0, path) length ∧
      (iterate (fun _ => fixed) interrupts (fetch0, path) length).2.machine = after := by
  have runs : ∃ cycles final, returns fixed cycles interrupts (fetch0, path) = some final ∧
      final.machine = after := by
    cases input : interrupts 0 with
    | false =>
        rw [input] at effects
        obtain ⟨cycles, final, runs, shows⟩ := implements fixed path after effects
          fun cycle => interrupts (cycle + 1)
        exact ⟨cycles + 1, final,
          (returns_fetch0_of_quiet fixed cycles interrupts path input).trans runs, shows⟩
    | true =>
        rw [input] at effects
        obtain ⟨cycles, final, runs, shows⟩ := implements fixed (path.interrupted fixed.vector)
          after effects fun cycle => interrupts (cycle + 4)
        exact ⟨cycles + 4, final,
          (returns_fetch0_of_interrupt fixed cycles interrupts path input).trans runs, shows⟩
  obtain ⟨cycles, final, runs, rfl⟩ := runs
  obtain ⟨length, block, rfl⟩ := block_of_returns runs
  exact ⟨length, block, rfl⟩

private theorem returns_halt0 (fixed : Devices) (cycles : Nat) (interrupts : Nat → Bool)
    (path : Datapath) : returns fixed cycles interrupts (halt0, path) = none := by
  induction cycles generalizing interrupts path with
  | zero => rfl
  | succ cycles ih =>
      have stays : (step fixed (interrupts 0) (halt0, path)).1 ≠ fetch0 :=
        show halt0 ≠ fetch0 by decide
      rw [returns, if_neg stays]
      exact ih _ _

private theorem op_of_halt {word : Word} (halts : decode word = some .halt) : op word = 7 := by
  unfold decode at halts
  split at halts
  case h_8 same => exact BitVec.toFin_inj.mp same
  all_goals cases halts

private theorem returns_fetch4_of_halt (fixed : Devices) (cycles : Nat) (interrupts : Nat → Bool)
    (halts : decode path.instruction = some .halt) :
    returns fixed (cycles + 3) interrupts (fetch4, path) = none := by
  have programmed : opRom (op path.instruction) = halt0 := by
    rw [op_of_halt halts]
    rfl
  rw [returns_fetch4 fixed cycles interrupts path (by rw [programmed]; exact nofun), programmed]
  exact returns_halt0 ..

private theorem not_block_of_halt
    (halts : decode (path.pending (interrupts 0) (devices 2).vector).instruction = some .halt) :
    ¬ Block devices interrupts (fetch0, path) length := by
  intro block
  have fixed : Block (fun _ => devices 2) interrupts (fetch0, path) length := block.congr rfl
  obtain ⟨final, runs⟩ := Option.isSome_iff_exists.mp fixed.returns_isSome
  have longer := returns_mono (Nat.le_add_right length 7) runs
  have stuck : returns (devices 2) (length + 7) interrupts (fetch0, path) = none := by
    cases input : interrupts 0 with
    | false =>
        rw [input] at halts
        exact (returns_fetch0_of_quiet (devices 2) (length + 6) interrupts path input).trans
          (returns_fetch4_of_halt (devices 2) (length + 3) _ halts)
    | true =>
        rw [input] at halts
        exact (returns_fetch0_of_interrupt (devices 2) (length + 3) interrupts path input).trans
          (returns_fetch4_of_halt (devices 2) length _ halts)
  rw [stuck] at longer
  cases longer

/-- Every instruction but `HALT` has a block, whatever the devices do. -/
theorem exists_block
    (executes : ∀ key, ∃ after,
      effect drivenPc (path.pending (interrupts 0) (devices 2).vector).machine key = some after) :
    ∃ length, Block devices interrupts (fetch0, path) length ∧
      effect drivenPc (path.pending (interrupts 0) (devices 2).vector).machine
          (devices (length - 1)).key =
        some (iterate devices interrupts (fetch0, path) length).2.machine := by
  -- The length of a block does not depend on the key, so it is known before the key is.
  have blocks : ∀ key after,
      effect drivenPc (path.pending (interrupts 0) (devices 2).vector).machine key = some after →
      ∃ length, Block (fun _ => { vector := (devices 2).vector, key }) interrupts (fetch0, path)
          length ∧
        (iterate (fun _ => { vector := (devices 2).vector, key }) interrupts (fetch0, path)
          length).2.machine = after := fun key after effects => block_of_effect effects
  obtain ⟨_, first⟩ := executes 0
  obtain ⟨length, block, -⟩ := blocks 0 _ first
  have changing : Block devices interrupts (fetch0, path) length := block.congr rfl
  obtain ⟨after, effects⟩ := executes (devices (length - 1)).key
  obtain ⟨other, fixed, rfl⟩ := blocks _ _ effects
  obtain rfl : length = other := changing.unique (fixed.congr rfl)
  have same : iterate devices interrupts (fetch0, path) length =
      iterate (fun _ => { vector := (devices 2).vector, key := (devices (length - 1)).key })
        interrupts (fetch0, path) length := fixed.final rfl rfl
  exact ⟨length, changing, by rw [effects, same]⟩

end Instructions

/-! ## What happens in a block -/

section Happened

variable {inputs : Nat → Input} {path : Datapath} {start length : Nat}

/-- The devices from a cycle on. -/
def devicesFrom (inputs : Nat → Input) (start cycle : Nat) : Devices :=
  (inputs (start + cycle)).devices

/-- The interrupt input from a cycle on. -/
def interruptsFrom (inputs : Nat → Input) (path : Datapath) (start cycle : Nat) : Bool :=
  (inputs (start + cycle)).interrupt (clocked inputs path (start + cycle)).2

/-- The interrupt that a block takes, if any. -/
def acknowledged (inputs : Nat → Input) (path : Datapath) (start : Nat) : List Event :=
  if interruptsFrom inputs path start 0 then [.interrupt (inputs (start + 2)).source] else []

theorem clocked_add (inputs : Nat → Input) (path : Datapath) (start cycles : Nat) :
    clocked inputs path (start + cycles) =
      iterate (devicesFrom inputs start) (interruptsFrom inputs path start)
        (clocked inputs path start) cycles := by
  induction cycles with
  | zero => rfl
  | succ cycles ih =>
      rw [iterate, ← ih]
      rfl

theorem happened_succ (inputs : Nat → Input) (path : Datapath) (cycles : Nat) :
    happened inputs path (cycles + 1) = happened inputs path cycles ++
      ((if intAck ∈ signals (clocked inputs path cycles).1 then
          [.interrupt (inputs cycles).source] else []) ++
        if (clocked inputs path (cycles + 1)).1 = fetch0 then
          [.execute (inputs cycles).key] else []) := rfl

/-- A block takes an interrupt if its first cycle sees a request, and executes one instruction. -/
theorem happened_block
    (block : Block (devicesFrom inputs start) (interruptsFrom inputs path start)
      (clocked inputs path start) length)
    (visit : (clocked inputs path start).1 = fetch0) :
    happened inputs path (start + length) = happened inputs path start ++
      acknowledged inputs path start ++ [.execute (inputs (start + (length - 1))).key] := by
  have paired : clocked inputs path start = (fetch0, (clocked inputs path start).2) :=
    Prod.ext visit rfl
  have acknowledges : ∀ cycle < length,
      (intAck ∈ signals (clocked inputs path (start + cycle)).1 ↔
        cycle = 2 ∧ interruptsFrom inputs path start 0 = true) := by
    rw [paired] at block
    intro cycle below
    rw [clocked_add, paired]
    exact block.acknowledges_iff below
  have inside : ∀ cycle < length, happened inputs path (start + cycle) =
      happened inputs path start ++
        if interruptsFrom inputs path start 0 = true ∧ 2 < cycle then
          [.interrupt (inputs (start + 2)).source] else [] := by
    intro cycle below
    induction cycle with
    | zero => simp
    | succ cycle ih =>
        have away : (clocked inputs path (start + cycle + 1)).1 ≠ fetch0 := by
          rw [Nat.add_assoc, clocked_add]
          exact block.inside (Nat.succ_pos cycle) below
        rw [← Nat.add_assoc, happened_succ, ih (by omega), if_neg away]
        simp only [acknowledges cycle (by omega)]
        by_cases here : cycle = 2
        · subst here
          simp
        · have same : 2 < cycle + 1 ↔ 2 < cycle := by omega
          simp [here, same]
  obtain ⟨last, rfl⟩ := Nat.exists_eq_succ_of_ne_zero (Nat.ne_of_gt block.pos)
  have returns : (clocked inputs path (start + last + 1)).1 = fetch0 := by
    rw [Nat.add_assoc, clocked_add]
    exact block.ends
  rw [Nat.succ_eq_add_one, ← Nat.add_assoc, happened_succ, inside last (Nat.lt_succ_self last),
    if_pos returns, acknowledged]
  simp only [acknowledges last (Nat.lt_succ_self last), Nat.add_sub_cancel]
  cases taken : interruptsFrom inputs path start 0 with
  | false => simp
  | true =>
      rw [paired] at block
      have long := block.long taken
      have beyond : 2 < last := by omega
      have other : last ≠ 2 := by omega
      simp [beyond, other]

private theorem happened_prefix (inputs : Nat → Input) (path : Datapath) (start cycles : Nat) :
    happened inputs path start <+: happened inputs path (start + cycles) := by
  induction cycles with
  | zero => exact List.prefix_refl _
  | succ cycles ih => exact ih.trans (List.prefix_append _ _)

theorem prefix_happened (visit : (clocked inputs path start).1 = fetch0) :
    happened inputs path start ++ acknowledged inputs path start <+:
      happened inputs path (start + 3) := by
  unfold acknowledged
  cases taken : interruptsFrom inputs path start 0 with
  | false =>
      rw [if_neg Bool.false_ne_true, List.append_nil]
      exact happened_prefix inputs path start 3
  | true =>
      have paired : clocked inputs path start = (fetch0, (clocked inputs path start).2) :=
        Prod.ext visit rfl
      obtain ⟨first, second, third⟩ :=
        iterate_of_interrupt (devicesFrom inputs start) (clocked inputs path start).2 taken
      rw [← paired, ← clocked_add] at first second third
      have acknowledged : happened inputs path (start + 3) =
          happened inputs path start ++ [.interrupt (inputs (start + 2)).source] := by
        rw [happened_succ, happened_succ inputs path (start + 1), happened_succ inputs path start]
        simp [intAck_mem, visit, first, second, third]
      rw [if_pos rfl]
      exact acknowledged ▸ List.prefix_refl _

end Happened

/-! ## Runs of the instruction set -/

/-- Along what happens, the program counter stays above the vectors and the program within the
instruction set. -/
def Proper (inputs : Nat → Input) (path : Datapath) : Prop :=
  ∀ cycles events config, events <+: happened inputs path cycles →
    Run (fun _ _ => True) path.machine events config →
    AboveVectors config.machine.context.pc ∧ config.machine.fetch ≠ none

/-- The machine whose instruction is executed next, after an interrupt if one is taken. -/
def upcoming (inputs : Nat → Input) (path : Datapath) (start : Nat) : Machine :=
  if interruptsFrom inputs path start 0 then
    (clocked inputs path start).2.machine.interrupt (inputs (start + 2)).source
  else (clocked inputs path start).2.machine

/-- A run of what has happened comes to the machine that the circuit shows. -/
def Reaches (inputs : Nat → Input) (path : Datapath) (cycles : Nat) : Prop :=
  ∃ config, Run (fun _ _ => True) path.machine (happened inputs path cycles) config ∧
    config.machine = (clocked inputs path cycles).2.machine

section Simulation

variable {inputs : Nat → Input} {path : Datapath} {start length : Nat}

private theorem step_isSome {machine : Machine} {instruction : Instruction}
    (fetches : machine.fetch = some instruction) (goesOn : instruction ≠ .halt) (key : Word) :
    ∃ after, machine.step key = some after := by
  unfold Machine.step
  rw [fetches, Option.bind_some]
  cases instruction with
  | halt => exact absurd rfl goesOn
  | beq rx ry offset =>
      simp only [Instruction.execute]
      split <;> exact ⟨_, rfl⟩
  | _ => exact ⟨_, rfl⟩

/-- Above the vectors the circuit takes the interrupt of the instruction set. -/
theorem machine_pending (above : AboveVectors path.pc) (interrupt : Bool) (source : Source) :
    (path.pending interrupt (vectorWord source)).machine =
      if interrupt then path.machine.interrupt source else path.machine := by
  cases interrupt with
  | false => rfl
  | true =>
      have here : drivenPc path.machine.context.pc = path.machine.context.pc := if_pos above.1
      rw [if_pos rfl, Datapath.pending, if_pos rfl, machine_interrupted,
        ← interrupted_id path.machine (address_vectorWord source), interrupted, interrupted, here]
      rfl

private theorem decode_instruction (above : AboveVectors path.pc) :
    decode path.instruction = path.machine.fetch := by
  have here : drivenPc path.pc = path.pc := if_pos above.1
  rw [Datapath.instruction, here]
  rfl

theorem Reaches.upcoming (reaches : Reaches inputs path start) (proper : Proper inputs path) :
    ∃ config, Run (fun _ _ => True) path.machine
        (happened inputs path start ++ acknowledged inputs path start) config ∧
      config.machine = Processor32.upcoming inputs path start ∧
      ((clocked inputs path start).2.pending (interruptsFrom inputs path start 0)
        (devicesFrom inputs start 2).vector).machine = config.machine := by
  obtain ⟨config, run, shows⟩ := reaches
  have above : AboveVectors (clocked inputs path start).2.pc := by
    have proper := (proper _ _ _ (List.prefix_refl _) run).1
    rwa [shows] at proper
  have pending := machine_pending above (interruptsFrom inputs path start 0)
    (inputs (start + 2)).source
  unfold acknowledged
  cases taken : interruptsFrom inputs path start 0 with
  | false =>
      rw [taken] at pending
      refine ⟨config, by simpa using run, ?_, ?_⟩
      · rw [shows, Processor32.upcoming, taken]
        rfl
      · rw [shows]
        exact pending
  | true =>
      rw [taken] at pending
      have enabled : config.machine.context.enabled = true := by
        rw [shows]
        exact (Bool.and_eq_true_iff.mp taken).1
      refine ⟨_, run.interrupt enabled trivial, ?_, ?_⟩
      · rw [Processor32.upcoming, taken, shows]
        rfl
      · rw [shows]
        exact pending

theorem Reaches.block (reaches : Reaches inputs path start) (proper : Proper inputs path)
    (visit : (clocked inputs path start).1 = fetch0)
    (goesOn : (Processor32.upcoming inputs path start).fetch ≠ some .halt) :
    ∃ length, Block (devicesFrom inputs start) (interruptsFrom inputs path start)
        (clocked inputs path start) length ∧ Reaches inputs path (start + length) := by
  obtain ⟨config, run, next, pending⟩ := reaches.upcoming proper
  obtain ⟨above, fetches⟩ := proper _ _ _ (prefix_happened visit) run
  obtain ⟨instruction, fetches⟩ := Option.ne_none_iff_exists'.mp fetches
  have effects (key : Word) : effect drivenPc ((clocked inputs path start).2.pending
      (interruptsFrom inputs path start 0) (devicesFrom inputs start 2).vector).machine key =
        config.machine.step key := by
    rw [pending]
    exact effect_driven above key
  have executes (key : Word) : ∃ after, effect drivenPc ((clocked inputs path start).2.pending
      (interruptsFrom inputs path start 0) (devicesFrom inputs start 2).vector).machine key =
        some after := by
    obtain ⟨after, steps⟩ := step_isSome fetches (by
      rintro rfl
      exact goesOn (next ▸ fetches)) key
    exact ⟨after, (effects key).trans steps⟩
  have paired : clocked inputs path start = (fetch0, (clocked inputs path start).2) :=
    Prod.ext visit rfl
  obtain ⟨length, block, shows⟩ := exists_block executes
  rw [← paired, ← clocked_add, effects] at shows
  rw [← paired] at block
  have steps : config.step (.execute (inputs (start + (length - 1))).key) = some
      { machine := (clocked inputs path (start + length)).2.machine
        interrupted :=
          if config.machine.fetch = some .reti then config.interrupted.tail
          else config.interrupted } :=
    congrArg (Option.map _) shows
  have extended := run.snoc ⟨steps, trivial⟩
  rw [← happened_block block visit] at extended
  exact ⟨length, block, _, extended, rfl⟩

/-- A visit of `FETCH0` after another one is the end of a block or comes later. -/
theorem exists_block_of_visit {later : Nat} (after : start < later)
    (visit : (clocked inputs path later).1 = fetch0) :
    ∃ length, start + length ≤ later ∧ Block (devicesFrom inputs start)
      (interruptsFrom inputs path start) (clocked inputs path start) length := by
  obtain ⟨distance, rfl⟩ := Nat.exists_eq_add_of_lt after
  have visits : ∃ length, 0 < length ∧ (clocked inputs path (start + length)).1 = fetch0 :=
    ⟨distance + 1, Nat.succ_pos distance, visit⟩
  obtain ⟨pos, ends⟩ := Nat.find_spec visits
  refine ⟨Nat.find visits, ?_, pos, by rw [← clocked_add]; exact ends,
    fun {cycle} positive below => ?_⟩
  · exact Nat.add_le_add_left (Nat.find_min' visits ⟨Nat.succ_pos distance, visit⟩) start
  · rw [← clocked_add]
    exact fun same => Nat.find_min visits below ⟨positive, same⟩

theorem not_halt_of_block (reaches : Reaches inputs path start) (proper : Proper inputs path)
    (visit : (clocked inputs path start).1 = fetch0)
    (block : Block (devicesFrom inputs start) (interruptsFrom inputs path start)
      (clocked inputs path start) length) :
    (Processor32.upcoming inputs path start).fetch ≠ some .halt := by
  intro halts
  obtain ⟨config, run, next, pending⟩ := reaches.upcoming proper
  have above := (proper _ _ _ (prefix_happened visit) run).1
  rw [← pending] at above
  have paired : clocked inputs path start = (fetch0, (clocked inputs path start).2) :=
    Prod.ext visit rfl
  rw [paired] at block
  refine not_block_of_halt ?_ block
  rw [decode_instruction above, pending, next]
  exact halts

/-- Every visit of `FETCH0` is reached by a run. -/
theorem reaches_of_visit (proper : Proper inputs path) {cycles : Nat}
    (visit : (clocked inputs path cycles).1 = fetch0) : Reaches inputs path cycles := by
  -- Induction from any visit that is reached to the ones after it, block by block.
  suffices from_start : ∀ distance start, start + distance = cycles →
      (clocked inputs path start).1 = fetch0 → Reaches inputs path start →
      Reaches inputs path cycles from
    from_start cycles 0 (Nat.zero_add cycles) rfl ⟨_, Run.nil path.machine, rfl⟩
  intro distance
  induction distance using Nat.strong_induction_on with
  | _ distance ih =>
      intro start total here reaches
      rcases Nat.eq_zero_or_pos distance with rfl | pos
      · exact total ▸ reaches
      · have before : start < cycles := by omega
        obtain ⟨length, within, block⟩ := exists_block_of_visit before visit
        obtain ⟨other, same, next⟩ := reaches.block proper here
          (not_halt_of_block reaches proper here block)
        obtain rfl := block.unique same
        have positive := block.pos
        refine ih (distance - length) (by omega) (start + length) (by omega) ?_ next
        rw [clocked_add]
        exact block.ends

end Simulation

/-- If along what happens the program stays above the vectors and within the instruction set, then
at every visit of `FETCH0` the circuit shows the machine that the instruction set comes to by the
events that have happened, and it visits `FETCH0` again exactly if the instruction that is executed
next is not `HALT`. -/
theorem circuit_runs {inputs : Nat → Input} {path : Datapath} (proper : Proper inputs path)
    {cycles : Nat} (visit : (clocked inputs path cycles).1 = fetch0) :
    (∃ config, Run (fun _ _ => True) path.machine (happened inputs path cycles) config ∧
      config.machine = (clocked inputs path cycles).2.machine) ∧
    ((∃ later, cycles < later ∧ (clocked inputs path later).1 = fetch0) ↔
      (upcoming inputs path cycles).fetch ≠ some .halt) := by
  have reaches := reaches_of_visit proper visit
  refine ⟨reaches, ?_, fun goesOn => ?_⟩
  · rintro ⟨later, after, again⟩
    obtain ⟨length, -, block⟩ := exists_block_of_visit after again
    exact not_halt_of_block reaches proper visit block
  · obtain ⟨length, block, -⟩ := reaches.block proper visit goesOn
    have pos := block.pos
    exact ⟨cycles + length, by omega, by rw [clocked_add]; exact block.ends⟩

/-! ## A program that is interrupted -/

/-- `EI` and a loop, with a handler that returns at once. -/
def ticking : Datapath where
  pc := 16
  a := 0
  b := 0
  mar := 0
  ir := 0
  z := false
  ie := false
  registers := fun _ => 0
  memory := fun cell =>
    if cell = 16 then 0xa0000000 else if cell = 1 ∨ cell = 3 then 100
    else if cell = 100 then 0xc0000000 else 0x500fffff

/-- The timer requests an interrupt in every cycle. -/
def alarms (_ : Nat) : Input := { request := true, source := .timer, key := 0 }

/-- What holds between the events of the program. -/
structure Ticking (machine : Machine) : Prop where
  /-- The code is not changed. -/
  code : machine.memory = ticking.memory
  /-- The program begins, is in its loop, or is interrupted there. -/
  phase : machine.context.pc = 16 ∧ machine.context.enabled = false ∨
    machine.context.pc = 17 ∧ machine.context.enabled = true ∨
    machine.context.pc = 100 ∧ machine.context.enabled = false ∧
      machine.context.read .k0 = 17

theorem ticking_code : decode (ticking.memory (address 16)) = some .ei ∧
    decode (ticking.memory (address 17)) = some (.beq .zero .zero 0xfffff) ∧
    decode (ticking.memory (address 100)) = some .reti := by
  decide

/-- The program counter stays above the vectors, and the program within the instruction set. -/
theorem Ticking.proper {machine : Machine} (ticks : Ticking machine) :
    AboveVectors machine.context.pc ∧ machine.fetch ≠ none := by
  rw [Machine.fetch, ticks.code]
  rcases ticks.phase with ⟨here, -⟩ | ⟨here, -⟩ | ⟨here, -, -⟩
  · rw [here, ticking_code.1]
    exact ⟨⟨by decide, by decide⟩, by exact nofun⟩
  · rw [here, ticking_code.2.1]
    exact ⟨⟨by decide, by decide⟩, by exact nofun⟩
  · rw [here, ticking_code.2.2]
    exact ⟨⟨by decide, by decide⟩, by exact nofun⟩

private theorem execute_branch (machine : Machine) (key : Word) (register : Interrupts.Register)
    (offset : BitVec 20) : Instruction.execute machine key (.beq register register offset) =
      some { machine with context := { machine.context with
        pc := machine.context.pc + 1 + offset.signExtend 32 } } :=
  if_pos rfl

private theorem Ticking.step {machine after : Machine} {key : Word} (ticks : Ticking machine)
    (steps : machine.step key = some after) : Ticking after := by
  obtain ⟨code, phase⟩ := ticks
  rw [Machine.step, Machine.fetch, code] at steps
  rcases phase with ⟨here, -⟩ | ⟨here, enabled⟩ | ⟨here, -, saved⟩
  · rw [here, ticking_code.1, Option.bind_some] at steps
    obtain rfl := Option.some.inj steps
    exact ⟨code, .inr (.inl ⟨congrArg (· + 1) here, rfl⟩)⟩
  · have back : machine.context.pc + 1 + (0xfffff : BitVec 20).signExtend 32 = 17 := by
      rw [here]
      decide
    rw [here, ticking_code.2.1, Option.bind_some, execute_branch, back] at steps
    obtain rfl := Option.some.inj steps
    exact ⟨code, .inr (.inl ⟨rfl, enabled⟩)⟩
  · rw [here, ticking_code.2.2, Option.bind_some] at steps
    obtain rfl := Option.some.inj steps
    exact ⟨code, .inr (.inl ⟨saved, rfl⟩)⟩

private theorem Ticking.interrupt {machine : Machine} (ticks : Ticking machine)
    (enabled : machine.context.enabled = true) (source : Source) :
    Ticking (machine.interrupt source) := by
  obtain ⟨code, phase⟩ := ticks
  have loops : machine.context.pc = 17 := by
    rcases phase with ⟨-, disabled⟩ | ⟨here, -⟩ | ⟨-, disabled, -⟩
    · rw [disabled] at enabled
      cases enabled
    · exact here
    · rw [disabled] at enabled
      cases enabled
  have handler : machine.memory source.vector = 100 := by
    rw [code]
    cases source <;> decide
  have saved : (machine.context.write .k0 machine.context.pc).read .k0 = 17 := by
    rw [machine.context.read_write, if_pos ⟨rfl, by decide⟩, loops]
  exact ⟨code, .inr (.inr ⟨handler, rfl, saved⟩)⟩

/-- Whatever the devices do, the program stays within its code. -/
theorem ticking_proper (inputs : Nat → Input) : Proper inputs ticking := by
  intro cycles events config _ run
  have start : Ticking ticking.machine := ⟨rfl, .inl ⟨rfl, rfl⟩⟩
  have invariant : ∀ {before : Config} {event : Event} {after : Config},
      Ticking before.machine → before.step event = some after ∧ True →
        Ticking after.machine := by
    rintro before event after ticks ⟨steps, -⟩
    cases event with
    | execute key =>
        obtain ⟨machine, executes, rfl⟩ := Option.map_eq_some_iff.mp steps
        exact ticks.step executes
    | interrupt source =>
        obtain ⟨enabled, taken⟩ := Option.ite_none_right_eq_some.mp steps
        obtain rfl := Option.some.inj taken
        exact ticks.interrupt enabled source
  have ticks : Ticking config.machine := @Trace.invariant Config Event _ _ _ _
    (fun config => Ticking config.machine) run start invariant
  exact ticks.proper

/-- The first instruction is executed, and then an interrupt is taken and its handler returns. -/
theorem circuit_runs_ticking :
    (∃ config, Run (fun _ _ => True) ticking.machine [.execute 0, .interrupt .timer, .execute 0]
        config ∧ config.machine = (clocked alarms ticking 14).2.machine) ∧
      ∃ later, 14 < later ∧ (clocked alarms ticking later).1 = fetch0 := by
  have visit : (clocked alarms ticking 14).1 = fetch0 := rfl
  obtain ⟨reaches, returns⟩ := circuit_runs (ticking_proper alarms) visit
  exact ⟨reaches, returns.mpr (by exact nofun)⟩

end CS2200.Processor32
