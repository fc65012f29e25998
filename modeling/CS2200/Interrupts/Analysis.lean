import CS2200.Interrupts.Program

/-!
# What is known at each instruction of the handlers

An instruction of a handler is reached with registers and slots of the save area that hold what
they held at the interrupt, up to an offset. This knowledge is computed by an analysis of the code;
that the machine respects the analysis is proved once for every kind of instruction.
-/

namespace CS2200.Interrupts

/-! ## Values -/

/-- The registers that a handler saves, in the order of their slots. -/
def saved : List Register :=
  [.at, .v0, .a0, .a1, .a2, .a3, .a4, .s0, .s1, .s2, .s3, .k0, .fp, .ra]

/-- The address of a slot of the handler that interrupts a context. -/
def slot (origin : Context) (index : Nat) : Address :=
  address (origin.read .sp) + BitVec.ofNat 24 (100 - index)

/-- The save area does not overlap what the handlers need. -/
def Clear (origin : Context) : Prop :=
  ∀ index < saved.length, slot origin index ∉ fixed ++ cells

instance (origin : Context) : Decidable (Clear origin) :=
  inferInstanceAs (Decidable (∀ index < saved.length, slot origin index ∉ fixed ++ cells))

theorem address_add (left right : Word) :
    address (left + right) = address left + address right :=
  BitVec.setWidth_add left right (by decide)

private theorem slot_inj {origin : Context} {left right : Nat} (leftInside : left < saved.length)
    (rightInside : right < saved.length) (same : slot origin left = slot origin right) :
    left = right := by
  have lengthEq : saved.length = 14 := rfl
  have offsets := congrArg BitVec.toNat ((BitVec.add_right_inj _).mp same)
  simp only [BitVec.toNat_ofNat] at offsets
  omega

/-- A value that is known. -/
inductive Value where
  /-- A fixed value. -/
  | constant (word : Word)
  /-- The value of a register when the handler began, and an offset. -/
  | original (register : Register) (offset : Word)
  deriving DecidableEq, Repr

namespace Value

/-- The value in the handler that interrupts a context. -/
def eval (origin : Context) : Value → Word
  | .constant word => word
  | .original register offset => (origin.write .k0 origin.pc).read register + offset

/-- Add a fixed offset. -/
def add (offset : Word) : Value → Value
  | .constant word => .constant (word + offset)
  | .original register base => .original register (base + offset)

/-- The slot that a value is the address of. -/
def slot : Value → Option Nat
  | .original .sp offset =>
      let index := 100 - offset.toNat
      if offset.toNat ≤ 100 ∧ index < saved.length then some index else none
  | _ => none

private theorem eval_add (origin : Context) (value : Value) (offset : Word) :
    (value.add offset).eval origin = value.eval origin + offset := by
  cases value with
  | constant word => rfl
  | original register base => exact (BitVec.add_assoc _ _ _).symm

theorem eval_of_slot {value : Value} {index : Nat} (isSlot : value.slot = some index)
    (origin : Context) :
    index < saved.length ∧ address (value.eval origin) = Interrupts.slot origin index := by
  match value with
  | .original .sp offset =>
      simp only [slot, Option.ite_none_right_eq_some, Option.some.injEq] at isSlot
      obtain ⟨⟨above, inside⟩, rfl⟩ := isSlot
      have pointer : (origin.write .k0 origin.pc).read .sp = origin.read .sp := by
        rw [Context.read_write, if_neg (by decide)]
      refine ⟨inside, ?_⟩
      rw [eval, pointer, address_add, Interrupts.slot, Nat.sub_sub_self above,
        BitVec.ofNat_toNat]
      rfl

end Value

/-! ## Knowledge -/

/-- What is known at an instruction. -/
structure Knowledge where
  /-- Interrupts are enabled. -/
  enabled : Bool
  /-- Values of registers. -/
  registers : Register → Option Value
  /-- Contents of slots of the save area. -/
  slots : Nat → Option Value

namespace Knowledge

/-- The known value of a register. -/
def value (knowledge : Knowledge) (register : Register) : Option Value :=
  if register = .zero then some (.constant 0) else knowledge.registers register

/-- A register gets a value. -/
def learn (knowledge : Knowledge) (register : Register) (value : Option Value) : Knowledge :=
  { knowledge with registers := Function.update knowledge.registers register value }

/-- The known value of an address. -/
def target (knowledge : Knowledge) (ry : Register) (offset : BitVec 20) : Option Value :=
  (knowledge.value ry).map (Value.add (offset.signExtend 32))

/-- The known contents of the memory. -/
def load (knowledge : Knowledge) : Value → Option Value
  | .constant word =>
      (constants.find? fun constant => constant.1 = address word).map fun constant =>
        .constant constant.2
  | value => value.slot.bind knowledge.slots

/-- A word is stored in the save area or in a cell of the handlers. -/
def store (knowledge : Knowledge) (value : Option Value) : Value → Option Knowledge
  | .constant word => if address word ∈ cells then some knowledge else none
  | pointer => pointer.slot.map fun index =>
      { knowledge with slots := Function.update knowledge.slots index value }

/-- What is known after an instruction. Enabling interrupts makes `$k0` unknown. -/
def after (knowledge : Knowledge) : Instruction → Option Knowledge
  | .add rx _ _ | .nand rx _ _ => some (knowledge.learn rx none)
  | .addi rx ry offset => some (knowledge.learn rx (knowledge.target ry offset))
  | .lw rx offset ry => some (knowledge.learn rx ((knowledge.target ry offset).bind knowledge.load))
  | .sw rx offset ry => (knowledge.target ry offset).bind (knowledge.store (knowledge.value rx))
  | .beq _ _ offset => if offset.msb then none else some knowledge
  | .ei => some { knowledge.learn .k0 none with enabled := true }
  | .di => some { knowledge with enabled := false }
  | .boni _ _ _ => some knowledge
  | .jalr _ _ | .halt | .reti => none

/-- The knowledge is true of a context and a memory. -/
structure Holds (knowledge : Knowledge) (origin current : Context) (memory : Memory) : Prop where
  /-- Interrupts are enabled if this is known. -/
  enabled : current.enabled = knowledge.enabled
  /-- The registers have their known values. -/
  registers : ∀ {register value}, register ≠ .zero → knowledge.registers register = some value →
    current.read register = value.eval origin
  /-- The slots have their known contents. -/
  slots : ∀ {index value}, index < saved.length → knowledge.slots index = some value →
    memory (slot origin index) = value.eval origin

variable {knowledge : Knowledge} {origin current : Context} {memory : Memory}

theorem Holds.value (holds : knowledge.Holds origin current memory) {register : Register}
    {value : Value} (known : knowledge.value register = some value) :
    current.read register = value.eval origin := by
  unfold Knowledge.value at known
  split at known
  case isTrue zero =>
    obtain rfl := Option.some.inj known
    rw [zero]
    rfl
  case isFalse notZero => exact holds.registers notZero known

theorem Holds.target (holds : knowledge.Holds origin current memory) {ry : Register}
    {offset : BitVec 20} {value : Value} (known : knowledge.target ry offset = some value) :
    current.read ry + offset.signExtend 32 = value.eval origin := by
  obtain ⟨base, base_known, rfl⟩ := Option.map_eq_some_iff.mp known
  rw [holds.value base_known, Value.eval_add]

private theorem Holds.load (holds : knowledge.Holds origin current memory)
    (fixed : ∀ constant ∈ constants, memory constant.1 = constant.2) {pointer value : Value}
    (known : knowledge.load pointer = some value) :
    memory (address (pointer.eval origin)) = value.eval origin := by
  cases pointer with
  | constant word =>
      obtain ⟨constant, found, rfl⟩ := Option.map_eq_some_iff.mp known
      have same : constant.1 = address word := by simpa using List.find?_some found
      exact same ▸ fixed constant (List.mem_of_find?_eq_some found)
  | original register offset =>
      obtain ⟨index, isSlot, contents⟩ := Option.bind_eq_some_iff.mp known
      obtain ⟨inside, cell⟩ := Value.eval_of_slot isSlot origin
      rw [cell]
      exact holds.slots inside contents

/-- The program counter does not matter. -/
theorem Holds.congr (holds : knowledge.Holds origin current memory) {other : Context}
    (enabled : other.enabled = current.enabled)
    (reads : ∀ register, other.read register = current.read register) :
    knowledge.Holds origin other memory where
  enabled := enabled.trans holds.enabled
  registers notZero known := (reads _).trans (holds.registers notZero known)
  slots := holds.slots

private theorem Holds.next (holds : knowledge.Holds origin current memory) :
    knowledge.Holds origin current.next memory :=
  holds.congr rfl fun _ => rfl

private theorem Holds.forget (holds : knowledge.Holds origin current memory) (register : Register) :
    (knowledge.learn register none).Holds origin current memory where
  enabled := holds.enabled
  registers := by
    intro other value notZero knows
    refine holds.registers notZero ?_
    by_cases same : other = register
    · subst same
      cases (Function.update_self _ _ _).symm.trans knows
    · exact (Function.update_of_ne same _ _).symm.trans knows
  slots := holds.slots

private theorem Holds.learn (holds : knowledge.Holds origin current memory) (register : Register)
    {value : Option Value} {word : Word} (right : ∀ known ∈ value, word = known.eval origin) :
    (knowledge.learn register value).Holds origin (current.next.write register word) memory where
  enabled := holds.enabled
  registers := by
    intro other known notZero knows
    rw [Context.read_write]
    by_cases same : other = register
    · subst same
      rw [if_pos ⟨rfl, notZero⟩]
      exact right known (by simpa [Knowledge.learn] using knows)
    · rw [if_neg fun both => same both.1]
      refine holds.registers notZero ?_
      exact (Function.update_of_ne same _ _).symm.trans knows
  slots := holds.slots

theorem Holds.frame (holds : knowledge.Holds origin current memory) {changed : Memory}
    (same : ∀ index < saved.length, changed (slot origin index) = memory (slot origin index)) :
    knowledge.Holds origin current changed where
  enabled := holds.enabled
  registers := holds.registers
  slots inside known := (same _ inside).trans (holds.slots inside known)

private theorem Holds.store (holds : knowledge.Holds origin current memory) (clear : Clear origin)
    {pointer : Value} {value : Option Value} {word : Word} {learned : Knowledge}
    (stored : knowledge.store value pointer = some learned)
    (right : ∀ known, value = some known → word = known.eval origin) :
    learned.Holds origin current
      (Function.update memory (address (pointer.eval origin)) word) := by
  cases pointer with
  | constant target =>
      simp only [Knowledge.store, Option.ite_none_right_eq_some, Option.some.injEq] at stored
      obtain ⟨isCell, rfl⟩ := stored
      refine holds.frame fun index inside => Function.update_of_ne ?_ _ _
      rintro same
      exact clear index inside (List.mem_append_right _ (same ▸ isCell))
  | original register offset =>
      obtain ⟨index, isSlot, rfl⟩ := Option.map_eq_some_iff.mp stored
      obtain ⟨inside, cell⟩ := Value.eval_of_slot isSlot origin
      rw [cell]
      refine ⟨holds.enabled, holds.registers, ?_⟩
      intro other known otherInside knows
      by_cases same : other = index
      · subst same
        have known_eq : Function.update knowledge.slots other value other = some known := knows
        rw [Function.update_self] at known_eq ⊢
        exact right known known_eq
      · rw [Function.update_of_ne fun cells => same (slot_inj otherInside inside cells)]
        exact holds.slots otherInside ((Function.update_of_ne same _ _).symm.trans knows)

/-- A word that the analysis lets a handler store is in a cell of the handlers or in a slot. -/
theorem Holds.stored (holds : knowledge.Holds origin current memory) {rx ry : Register}
    {offset : BitVec 20} {learned : Knowledge}
    (known : knowledge.after (.sw rx offset ry) = some learned) :
    address (current.read ry + offset.signExtend 32) ∈ cells ∨
      ∃ index < saved.length,
        address (current.read ry + offset.signExtend 32) = slot origin index := by
  obtain ⟨pointer, isTarget, stored⟩ := Option.bind_eq_some_iff.mp known
  rw [holds.target isTarget]
  cases pointer with
  | constant word =>
      simp only [Knowledge.store, Option.ite_none_right_eq_some] at stored
      exact .inl stored.1
  | original register base =>
      obtain ⟨index, isSlot, -⟩ := Option.map_eq_some_iff.mp stored
      exact .inr ⟨index, Value.eval_of_slot isSlot origin⟩

theorem Holds.after {machine next : Machine} {key : Word} {instruction : Instruction}
    {learned : Knowledge} (holds : knowledge.Holds origin machine.context machine.memory)
    (fixed : ∀ constant ∈ constants, machine.memory constant.1 = constant.2) (clear : Clear origin)
    (apart : ∀ cell ∈ instruction.keyCell machine.context, ∀ index < saved.length,
      slot origin index ≠ cell)
    (known : knowledge.after instruction = some learned)
    (executes : instruction.execute machine key = some next) :
    learned.Holds origin next.context next.memory := by
  cases instruction with
  | add rx ry rz =>
      cases known
      cases executes
      exact holds.learn rx nofun
  | nand rx ry rz =>
      cases known
      cases executes
      exact holds.learn rx nofun
  | addi rx ry offset =>
      cases known
      cases executes
      exact holds.learn rx fun value isTarget => holds.target isTarget
  | lw rx offset ry =>
      cases known
      cases executes
      refine holds.learn rx fun value isLoaded => ?_
      obtain ⟨pointer, isTarget, contents⟩ := Option.bind_eq_some_iff.mp isLoaded
      rw [holds.target isTarget]
      exact holds.load fixed contents
  | sw rx offset ry =>
      cases executes
      obtain ⟨pointer, isTarget, stored⟩ := Option.bind_eq_some_iff.mp known
      rw [holds.target isTarget]
      exact holds.next.store clear stored fun _ => holds.value
  | beq rx ry offset =>
      simp only [Knowledge.after, Option.ite_none_left_eq_some, Option.some.injEq] at known
      obtain ⟨-, rfl⟩ := known
      simp only [Instruction.execute] at executes
      split at executes <;> cases executes <;> exact holds.congr rfl fun _ => rfl
  | jalr rx ry => cases known
  | halt => cases known
  | ei =>
      cases known
      cases executes
      have forgotten := holds.next.forget .k0
      exact ⟨rfl, forgotten.registers, forgotten.slots⟩
  | di =>
      cases known
      cases executes
      exact ⟨rfl, holds.registers, holds.slots⟩
  | reti => cases known
  | boni rx ry offset =>
      cases known
      cases executes
      exact holds.next.frame fun index inside =>
        Function.update_of_ne (apart _ rfl index inside) _ _

end Knowledge

/-! ## The annotated handlers -/

/-- What is known when a handler begins. -/
def begun : Knowledge where
  enabled := false
  registers register := some (.original register 0)
  slots _ := none

/-- What is known when a handler begins to restore the registers. -/
def served : Knowledge where
  enabled := true
  registers register := if register = .sp then some (.original .sp 100) else none
  slots index := saved[index]?.map fun register => .original register 0

/-- What is known before each instruction of a straight piece of code. -/
def scan (knowledge : Knowledge) : List Instruction → List Knowledge
  | [] => []
  | instruction :: rest =>
      knowledge :: match knowledge.after instruction with
        | some learned => scan learned rest
        | none => []

/-- What is known before each instruction of the handlers. -/
def annotations : List Knowledge :=
  scan begun (save ++ storeKey) ++ scan served restore ++
    scan begun (save ++ countSecond) ++ scan served restore

/-- The instructions that can be executed after an instruction. -/
def successors (index : Nat) : Instruction → List Nat
  | .beq _ _ offset => [index + 1, index + 1 + offset.toNat]
  | _ => [index + 1]

namespace Knowledge

/-- Everything that is weakly known is known. -/
def implies (strong weak : Knowledge) : Bool :=
  strong.enabled == weak.enabled &&
    Register.all.all (fun register =>
      weak.registers register = none || weak.registers register = strong.registers register) &&
    (List.range saved.length).all fun index =>
      weak.slots index = none || weak.slots index = strong.slots index

theorem Holds.weaken {strong weak : Knowledge} {origin current : Context} {memory : Memory}
    (holds : strong.Holds origin current memory) (implies : strong.implies weak = true) :
    weak.Holds origin current memory := by
  simp only [Knowledge.implies, Bool.and_eq_true, beq_iff_eq, List.all_eq_true,
    Bool.or_eq_true, decide_eq_true_eq, List.mem_range] at implies
  obtain ⟨⟨enabled, registers⟩, slots⟩ := implies
  refine ⟨holds.enabled.trans enabled, ?_, ?_⟩
  · intro register value notZero known
    rcases registers register register.mem_all with unknown | same
    · cases unknown.symm.trans known
    · exact holds.registers notZero (same ▸ known)
  · intro index value inside known
    rcases slots index inside with unknown | same
    · cases unknown.symm.trans known
    · exact holds.slots inside (same ▸ known)

/-- Every register has its original value, and interrupts are disabled. -/
def restored (knowledge : Knowledge) : Bool :=
  !knowledge.enabled &&
    Register.all.all fun register =>
      register = .zero || knowledge.registers register = some (.original register 0)

theorem Holds.original {knowledge : Knowledge} {origin current : Context} {memory : Memory}
    (holds : knowledge.Holds origin current memory) (restored : knowledge.restored = true)
    (register : Register) :
    current.read register = (origin.write .k0 origin.pc).read register := by
  simp only [Knowledge.restored, Bool.and_eq_true, List.all_eq_true, Bool.or_eq_true,
    decide_eq_true_eq] at restored
  rcases restored.2 register register.mem_all with rfl | known
  · rfl
  · by_cases zero : register = .zero
    · rw [zero]
      rfl
    · rw [holds.registers zero known, Value.eval]
      exact BitVec.add_zero _

/-- An interrupt does not matter: nothing depends on `$k0`, and the save areas are apart. -/
def interruptible (knowledge : Knowledge) : Bool :=
  knowledge.registers .k0 = none && knowledge.registers .sp = some (.original .sp 100)

end Knowledge

/-- Wherever an instruction leads, what is known there is known after it. -/
def consistent (index : Nat) : Bool :=
  match annotations[index]?, handlers[index]? with
  | some knowledge, some instruction =>
      if instruction = .reti then knowledge.restored
      else match knowledge.after instruction with
        | some learned => (successors index instruction).all fun next =>
            annotations[next]?.any learned.implies
        | none => false
  | _, _ => false

/-- The instructions after `$k0` is restored and before interrupts are disabled, in both
handlers. -/
def window : List Nat := [33, 34, 35, 36, 89, 90, 91, 92]

theorem annotations_length : annotations.length = handlers.length := by decide +kernel

private theorem consistent_of_lt : ∀ index < handlers.length, consistent index = true := by
  decide +kernel

theorem consistent_cases {index : Nat} {knowledge : Knowledge} {instruction : Instruction}
    (annotated : annotations[index]? = some knowledge)
    (present : handlers[index]? = some instruction) :
    instruction = .reti ∧ knowledge.restored = true ∨
    instruction ≠ .reti ∧ ∃ learned, knowledge.after instruction = some learned ∧
      ∀ following ∈ successors index instruction, ∃ weak,
        annotations[following]? = some weak ∧ learned.implies weak = true := by
  obtain ⟨inside, -⟩ := List.getElem?_eq_some_iff.mp present
  have checked := consistent_of_lt index inside
  simp only [consistent, annotated, present] at checked
  split at checked
  case isTrue ends => exact .inl ⟨ends, checked⟩
  case isFalse goesOn =>
    refine .inr ⟨goesOn, ?_⟩
    cases known : knowledge.after instruction with
    | none => simp [known] at checked
    | some learned =>
        rw [known] at checked
        refine ⟨learned, rfl, fun following follows => ?_⟩
        exact (Option.any_eq_true _ _).mp (List.all_eq_true.mp checked following follows)

theorem annotations_begin (source : Source) :
    annotations[source.handler]? = some begun := by
  cases source <;> rfl

/-- Where interrupts are enabled, the window is what is not interruptible. -/
theorem interruptible_iff : ∀ index < handlers.length, ∀ knowledge ∈ annotations[index]?,
    knowledge.enabled = true → (knowledge.interruptible = true ↔ index ∉ window) := by
  decide +kernel

end CS2200.Interrupts
