import CS2200.Interrupts.Transparency
import Mathlib.Data.Nat.ModEq

/-!
# The clock

The timer's handler counts a second and carries into the minutes and the hours while interrupts are
enabled, so other handlers can count between its load of a word and its store. A second that has
been counted is in the words of the clock, or is the carry of a handler that has not ended.
-/

namespace CS2200.Interrupts

/-! ## The time -/

def secondsCell : Address := 0xfffffc
def minutesCell : Address := 0xfffffd
def hoursCell : Address := 0xfffffe

/-- The words of the clock. -/
def clock : List Address := [secondsCell, minutesCell, hoursCell]

/-- The words of the clock, with what they count for. -/
def digits : List (Address × Nat) := [(secondsCell, 1), (minutesCell, 60), (hoursCell, 3600)]

/-- The time in seconds. -/
def total (memory : Memory) : Nat :=
  3600 * (memory hoursCell).toNat + 60 * (memory minutesCell).toNat + (memory secondsCell).toNat

/-- When the hours overflow. -/
def period : Nat := 3600 * 2 ^ 32

/-- The seconds and the minutes are less than 60. -/
def InRange (memory : Memory) : Prop :=
  ∀ cell ∈ [secondsCell, minutesCell], (memory cell).toNat < 60

section Total

variable {memory changed : Memory}

theorem total_congr (same : ∀ cell ∈ clock, changed cell = memory cell) :
    total changed = total memory := by
  rw [total, same hoursCell (by decide), same minutesCell (by decide),
    same secondsCell (by decide), total]

private theorem total_update {cell : Address} {weight : Nat} (digit : (cell, weight) ∈ digits)
    (memory : Memory) (word : Word) :
    total (Function.update memory cell word) + weight * (memory cell).toNat =
      total memory + weight * word.toNat := by
  simp only [digits, List.mem_cons, Prod.mk.injEq, List.not_mem_nil, or_false] at digit
  rcases digit with ⟨rfl, rfl⟩ | ⟨rfl, rfl⟩ | ⟨rfl, rfl⟩ <;>
    rw [total, total, Function.update_self, Function.update_of_ne (by decide),
      Function.update_of_ne (by decide)] <;>
    omega

theorem InRange.congr (inRange : InRange memory)
    (same : ∀ cell ∈ clock, changed cell = memory cell) : InRange changed := by
  intro cell isDigit
  rw [same cell (List.mem_append_left [hoursCell] isDigit)]
  exact inRange cell isDigit

private theorem InRange.update (inRange : InRange memory) {cell : Address} {word : Word}
    (below : cell ∈ [secondsCell, minutesCell] → word.toNat < 60) :
    InRange (Function.update memory cell word) := by
  intro other isDigit
  by_cases same : other = cell
  · subst same
    rw [Function.update_self]
    exact below isDigit
  · rw [Function.update_of_ne same]
    exact inRange other isDigit

theorem toNat_increment {word : Word} (below : word.toNat < 60) :
    word + 1 = 60 ∧ word.toNat = 59 ∨
      word + 1 ≠ 60 ∧ (word + 1).toNat = word.toNat + 1 ∧ word.toNat < 59 := by
  have one : BitVec.toNat (1 : Word) = 1 := rfl
  have sixty : BitVec.toNat (60 : Word) = 60 := rfl
  have increment : (word + 1).toNat = word.toNat + 1 := by
    rw [BitVec.toNat_add, one]
    omega
  by_cases full : word + 1 = 60
  · rw [full, sixty] at increment
    exact .inl ⟨full, by omega⟩
  · have notSixty : (word + 1).toNat ≠ 60 := fun same => full (BitVec.eq_of_toNat_eq same)
    exact .inr ⟨full, increment, by omega⟩

end Total

/-! ## The carry -/

/-- Where the timer's handler stores a word of the clock. -/
def clockStores : List Nat := [60, 62, 69, 71, 76]

/-- Where the timer's handler branches. -/
def branches : List Nat := [59, 61, 68, 70]

/-- Where a comparison with 60 leads. -/
def outcomes : List Nat := [60, 62, 69, 71]

/-- What a handler still has to add to the time, at an instruction. -/
def carry (index : Nat) : Nat :=
  if tiKeyhandler.length ≤ index ∧ (index ≤ 60 ∨ index = 62) then 1
  else if 63 ≤ index ∧ (index ≤ 69 ∨ index = 71) then 60
  else if 72 ≤ index ∧ index ≤ 76 then 3600
  else 0

/-- What a handler still has to add to the time. -/
def Context.carry (context : Context) : Nat :=
  Interrupts.carry (context.pc.toNat - Label.tiKeyhandler)

/-- After a comparison with 60, a handler remembers its outcome. -/
structure Branched (context : Context) : Prop where
  /-- The word is stored. -/
  below : context.pc = point 60 ∨ context.pc = point 69 → context.read .s1 ≠ 60
  /-- The word becomes zero, with a carry. -/
  full : context.pc = point 62 ∨ context.pc = point 71 → context.read .s1 = 60

theorem point_toNat {index : Nat} (inside : index < handlers.length) :
    (point index).toNat = Label.tiKeyhandler + index := by
  have small : handlers.length < 2 ^ 31 := by decide
  rw [point, BitVec.toNat_ofNat, Label.tiKeyhandler]
  omega

private theorem point_inj {left right : Nat} (leftInside : left < handlers.length)
    (rightInside : right < handlers.length) (same : point left = point right) : left = right := by
  have places := congrArg BitVec.toNat same
  rw [point_toNat leftInside, point_toNat rightInside] at places
  omega

theorem Context.carry_eq {context : Context} {index : Nat} (here : context.pc = point index)
    (inside : index < handlers.length) : context.carry = Interrupts.carry index := by
  rw [Context.carry, here, point_toNat inside, Nat.add_sub_cancel_left]

/-- Elsewhere, no outcome has to be remembered. -/
theorem Branched.of_elsewhere {context : Context} {index : Nat} (here : context.pc = point index)
    (inside : index < handlers.length) (elsewhere : index ∉ outcomes) :
    Branched context := by
  have apart : ∀ other ∈ outcomes, context.pc ≠ point other := by
    intro other special same
    have small : ∀ other ∈ outcomes, other < handlers.length := by decide
    obtain rfl := point_inj inside (small other special) (here.symm.trans same)
    exact elsewhere special
  constructor
  · rintro (same | same)
    · exact absurd same (apart 60 (by decide))
    · exact absurd same (apart 69 (by decide))
  · rintro (same | same)
    · exact absurd same (apart 62 (by decide))
    · exact absurd same (apart 71 (by decide))

private theorem Branched.resume {origin resumed : Context} (branched : Branched origin)
    (resumes : Resumes origin resumed) : Branched resumed := by
  obtain ⟨samePc, -, sameRegisters⟩ := resumes
  constructor
  · rw [samePc, sameRegisters .s1 (by decide)]
    exact branched.below
  · rw [samePc, sameRegisters .s1 (by decide)]
    exact branched.full

/-! ## Other instructions -/

/-- The analysis knows that an instruction stores nothing in the clock. -/
def Knowledge.sparesClock (knowledge : Knowledge) : Instruction → Bool
  | .sw _ offset ry => (knowledge.target ry offset).any fun value =>
      value.slot.isSome || value = .constant (BitVec.ofNat 32 Label.keyboard)
  | _ => true

private theorem sparesClock_elsewhere : ∀ index < handlers.length, index ∉ clockStores →
    ∀ knowledge ∈ annotations[index]?, ∀ instruction ∈ handlers[index]?,
      knowledge.sparesClock instruction = true := by
  decide +kernel

/-- Every other instruction leads to one that is no outcome of a comparison. -/
theorem successors_elsewhere : ∀ index < handlers.length, index ∉ clockStores ++ branches →
    ∀ instruction ∈ handlers[index]?, instruction = .reti ∨
      ∀ following ∈ successors index instruction,
        following < handlers.length ∧ following ∉ outcomes := by
  decide +kernel

private theorem carry_elsewhere : ∀ index < handlers.length, index ∉ clockStores ++ branches →
    ∀ instruction ∈ handlers[index]?, instruction = .reti ∨
      ∀ following ∈ successors index instruction, carry following = carry index := by
  decide +kernel

private theorem carry_reti : ∀ index < handlers.length, handlers[index]? = some .reti →
    carry index = 0 := by
  decide +kernel

private theorem notMem_clock_of_slot {origin : Context} (clear : Clear origin) {index : Nat}
    (inside : index < saved.length) : slot origin index ∉ clock :=
  fun isClock => clear index inside
    (List.mem_append_right _ (List.mem_cons_of_mem _ isClock))

private theorem Knowledge.Holds.notMem_clock {knowledge : Knowledge} {origin current : Context}
    {memory : Memory} (holds : knowledge.Holds origin current memory) (clear : Clear origin)
    {instruction : Instruction} (spares : knowledge.sparesClock instruction = true)
    (apart : ∀ cell ∈ instruction.keyCell current, cell ∉ clock) :
    ∀ cell ∈ instruction.written current, cell ∉ clock := by
  intro cell writes
  cases instruction with
  | sw rx offset ry =>
      obtain rfl := Option.some.inj writes
      obtain ⟨value, isTarget, checks⟩ := (Option.any_eq_true _ _).mp spares
      rw [holds.target isTarget]
      rcases (Bool.or_eq_true _ _).mp checks with isSlot | isPointer
      · obtain ⟨index, isSlot⟩ := Option.isSome_iff_exists.mp isSlot
        obtain ⟨inside, target⟩ := Value.eval_of_slot isSlot origin
        rw [target]
        exact notMem_clock_of_slot clear inside
      · obtain rfl := of_decide_eq_true isPointer
        exact (by decide : BitVec.ofNat 24 Label.keyboard ∉ clock)
  | boni rx ry offset => exact apart cell writes
  | _ => cases writes

/-! ## One instruction of a handler -/

/-- The word at which `$s0` points is still the one from which `$s1` was computed. -/
def Fresh (machine : Machine) : Prop :=
  machine.context.read .s1 = machine.memory (address (machine.context.read .s0)) + 1

/-- A handler adds to the time what it takes from its carry. -/
structure Balanced (machine next : Machine) : Prop where
  branched : Branched next.context
  inRange : InRange next.memory
  due : total next.memory + next.context.carry ≡
    total machine.memory + machine.context.carry [MOD period]

/-- A handler is at an instruction, and the clock is in range. -/
structure Counting (index : Nat) (origin : Context) (machine : Machine) : Prop where
  serving : ServingAt index origin machine.context machine.memory
  installed : Installed machine.memory
  branched : Branched machine.context
  inRange : InRange machine.memory

namespace Counting

variable {index : Nat} {origin : Context} {machine next : Machine} {key : Word}

theorem here (counting : Counting index origin machine) : machine.context.pc = point index := by
  obtain ⟨_, -, here, -⟩ := counting.serving
  exact here

theorem inside (counting : Counting index origin machine) : index < handlers.length := by
  obtain ⟨_, present, -⟩ := counting.serving.fetch counting.installed
  exact (List.getElem?_eq_some_iff.mp present).1

theorem fetch (counting : Counting index origin machine) {instruction : Instruction}
    (present : handlers[index]? = some instruction) : machine.fetch = some instruction :=
  counting.installed.fetch present counting.here

theorem known (counting : Counting index origin machine) {register : Register} {word : Word}
    (known : ∀ knowledge ∈ annotations[index]?,
      knowledge.value register = some (.constant word)) : machine.context.read register = word := by
  obtain ⟨knowledge, annotated, -, holds⟩ := counting.serving
  exact holds.value (known knowledge annotated)

/-- The carry moves with the program counter. -/
theorem balanced (counting : Counting index origin machine) {following : Nat}
    (there : next.context.pc = point following) (inside : following < handlers.length)
    (branched : Branched next.context) (inRange : InRange next.memory)
    (due : total next.memory + Interrupts.carry following ≡
      total machine.memory + Interrupts.carry index [MOD period]) : Balanced machine next where
  branched := branched
  inRange := inRange
  due := by rwa [Context.carry_eq there inside, Context.carry_eq counting.here counting.inside]

/-- A word of the clock is stored. -/
theorem store (counting : Counting index origin machine) {rx : Register} {pointer : Word}
    {weight : Nat} (present : handlers[index]? = some (.sw rx 0 .s0))
    (points : machine.context.read .s0 = pointer) (digit : (address pointer, weight) ∈ digits)
    (inside : index + 1 < handlers.length) (elsewhere : index + 1 ∉ outcomes)
    (below : address pointer ∈ [secondsCell, minutesCell] →
      (machine.context.read rx).toNat < 60)
    (due : weight * (machine.context.read rx).toNat + Interrupts.carry (index + 1) ≡
      weight * (machine.memory (address pointer)).toNat + Interrupts.carry index [MOD period])
    (executes : machine.step key = some next) : Balanced machine next := by
  rw [Machine.step, counting.fetch present] at executes
  obtain rfl := Option.some.inj executes
  have target : machine.context.read .s0 + (0 : BitVec 20).signExtend 32 = pointer := by
    rw [points]
    exact BitVec.add_zero _
  have there := Context.next_pc counting.here
  refine counting.balanced there inside (.of_elsewhere there inside elsewhere) ?_ ?_
  · rw [target]
    exact counting.inRange.update below
  · rw [target]
    refine Nat.ModEq.add_right_cancel' (weight * (machine.memory (address pointer)).toNat) ?_
    have updated := total_update digit machine.memory (machine.context.read rx)
    calc total (Function.update machine.memory (address pointer) (machine.context.read rx)) +
          Interrupts.carry (index + 1) + weight * (machine.memory (address pointer)).toNat
        = total machine.memory +
            (weight * (machine.context.read rx).toNat + Interrupts.carry (index + 1)) := by omega
      _ ≡ total machine.memory + (weight * (machine.memory (address pointer)).toNat +
            Interrupts.carry index) [MOD period] := due.add_left _
      _ = total machine.memory + Interrupts.carry index +
            weight * (machine.memory (address pointer)).toNat := by omega

/-- The word of the seconds or of the minutes is stored after a comparison with 60. -/
theorem store_digit (counting : Counting index origin machine) {pointer : Word} {weight : Nat}
    (compared : index = 60 ∨ index = 69) (points : machine.context.read .s0 = pointer)
    (digit : (address pointer, weight) ∈ digits)
    (isDigit : address pointer ∈ [secondsCell, minutesCell])
    (counts : Interrupts.carry index = weight) (fresh : Fresh machine)
    (executes : machine.step key = some next) : Balanced machine next := by
  have present : handlers[index]? = some (.sw .s1 0 .s0) := by
    rcases compared with rfl | rfl <;> rfl
  have below : machine.context.read .s1 ≠ 60 := by
    refine counting.branched.below ?_
    rcases compared with rfl | rfl
    · exact .inl counting.here
    · exact .inr counting.here
  have carryAfter : Interrupts.carry (index + 1) = 0 := by
    rcases compared with rfl | rfl <;> rfl
  rw [Fresh, points] at fresh
  rcases toNat_increment (counting.inRange _ isDigit) with ⟨full, -⟩ | ⟨-, increment, small⟩
  · exact absurd (fresh.trans full) below
  refine counting.store present points digit ?_ ?_ (fun _ => ?_) ?_ executes
  · rcases compared with rfl | rfl <;> decide
  · rcases compared with rfl | rfl <;> decide
  · rw [fresh, increment]
    omega
  · rw [fresh, increment, carryAfter, counts, Nat.mul_succ]
    rfl

/-- The word of the seconds or of the minutes becomes zero, and the carry grows. -/
theorem clear_digit (counting : Counting index origin machine) {pointer : Word} {weight : Nat}
    (compared : index = 62 ∨ index = 71) (points : machine.context.read .s0 = pointer)
    (digit : (address pointer, weight) ∈ digits)
    (isDigit : address pointer ∈ [secondsCell, minutesCell])
    (counts : Interrupts.carry index = weight ∧ Interrupts.carry (index + 1) = 60 * weight)
    (fresh : Fresh machine) (executes : machine.step key = some next) : Balanced machine next := by
  have present : handlers[index]? = some (.sw .zero 0 .s0) := by
    rcases compared with rfl | rfl <;> rfl
  have full : machine.context.read .s1 = 60 := by
    refine counting.branched.full ?_
    rcases compared with rfl | rfl
    · exact .inl counting.here
    · exact .inr counting.here
  have zero : (machine.context.read .zero).toNat = 0 := rfl
  rw [Fresh, points] at fresh
  rcases toNat_increment (counting.inRange _ isDigit) with ⟨-, last⟩ | ⟨notFull, -⟩
  · refine counting.store present points digit ?_ ?_ (fun _ => ?_) ?_ executes
    · rcases compared with rfl | rfl <;> decide
    · rcases compared with rfl | rfl <;> decide
    · rw [zero]
      decide
    · rw [zero, last, counts.1, counts.2]
      refine congrArg (· % period) ?_
      omega
  · exact absurd (fresh.symm.trans full) notFull

private theorem store_hours (counting : Counting 76 origin machine) (fresh : Fresh machine)
    (executes : machine.step key = some next) : Balanced machine next := by
  have points : machine.context.read .s0 = 0xfffffe := counting.known (by decide +kernel)
  rw [Fresh, points] at fresh
  have digit : (address (0xfffffe : Word), 3600) ∈ digits := by decide
  refine counting.store rfl points digit (by decide) (by decide) (fun isDigit => ?_) ?_ executes
  · exact absurd isDigit (by decide)
  · have wraps : (machine.memory hoursCell + 1).toNat ≡ (machine.memory hoursCell).toNat + 1
        [MOD 2 ^ 32] := by
      rw [BitVec.toNat_add]
      exact Nat.mod_modEq _ _
    rw [fresh]
    exact wraps.mul_left' 3600

private theorem stores (counting : Counting index origin machine) (isStore : index ∈ clockStores)
    (fresh : Fresh machine) (executes : machine.step key = some next) : Balanced machine next := by
  simp only [clockStores, List.mem_cons, List.not_mem_nil, or_false] at isStore
  rcases isStore with rfl | rfl | rfl | rfl | rfl
  · have points : machine.context.read .s0 = 0xfffffc := counting.known (by decide +kernel)
    exact counting.store_digit (.inl rfl) points (by decide) (by decide) rfl fresh executes
  · have points : machine.context.read .s0 = 0xfffffc := counting.known (by decide +kernel)
    exact counting.clear_digit (.inl rfl) points (by decide) (by decide) ⟨rfl, rfl⟩ fresh executes
  · have points : machine.context.read .s0 = 0xfffffd := counting.known (by decide +kernel)
    exact counting.store_digit (.inr rfl) points (by decide) (by decide) rfl fresh executes
  · have points : machine.context.read .s0 = 0xfffffd := counting.known (by decide +kernel)
    exact counting.clear_digit (.inr rfl) points (by decide) (by decide) ⟨rfl, rfl⟩ fresh executes
  · exact counting.store_hours fresh executes

/-- A word is compared with 60. -/
theorem compare (counting : Counting index origin machine) (compares : index = 59 ∨ index = 68)
    (executes : machine.step key = some next) : Balanced machine next := by
  have present : handlers[index]? = some (.beq .s1 .s2 2) := by
    rcases compares with rfl | rfl <;> rfl
  have sixty : machine.context.read .s2 = 60 := by
    rcases compares with rfl | rfl <;> exact counting.known (by decide +kernel)
  have succ := Context.next_pc counting.here
  rw [Machine.step, counting.fetch present] at executes
  simp only [Option.bind_some, Instruction.execute, sixty] at executes
  split at executes
  case isTrue isFull =>
    obtain rfl := Option.some.inj executes
    have there : machine.context.next.pc + (2 : BitVec 20).signExtend 32 = point (index + 3) := by
      rw [succ]
      exact point_add (index + 1) 2
    refine counting.balanced there ?_ ⟨?_, fun _ => isFull⟩ counting.inRange ?_
    · rcases compares with rfl | rfl <;> decide
    · rintro (same | same) <;> rcases compares with rfl | rfl <;>
        exact absurd (there.symm.trans same) (by decide)
    · rcases compares with rfl | rfl <;> rfl
  case isFalse isBelow =>
    obtain rfl := Option.some.inj executes
    refine counting.balanced succ ?_ ⟨fun _ => isBelow, ?_⟩ counting.inRange ?_
    · rcases compares with rfl | rfl <;> decide
    · rintro (same | same) <;> rcases compares with rfl | rfl <;>
        exact absurd (succ.symm.trans same) (by decide)
    · rcases compares with rfl | rfl <;> rfl

private theorem jump (counting : Counting index origin machine) (jumps : index = 61 ∨ index = 70)
    (executes : machine.step key = some next) : Balanced machine next := by
  have present : handlers[index]? = some (.beq .zero .zero (BitVec.ofNat 20 (76 - index))) := by
    rcases jumps with rfl | rfl <;> rfl
  rw [Machine.step, counting.fetch present] at executes
  obtain rfl := Option.some.inj executes
  have there : machine.context.next.pc + (BitVec.ofNat 20 (76 - index)).signExtend 32 =
      point 77 := by
    rw [Context.next_pc counting.here]
    rcases jumps with rfl | rfl <;> decide
  refine counting.balanced there (by decide) (.of_elsewhere there (by decide) (by decide))
    counting.inRange ?_
  rcases jumps with rfl | rfl <;> rfl

private theorem elsewhere (counting : Counting index origin machine) (clear : Clear origin)
    (apart : ∀ cell ∈ machine.keyCell, cell ∉ clock) (notStore : index ∉ clockStores)
    (notBranch : index ∉ branches) (goesOn : machine.fetch ≠ some .reti)
    (executes : machine.step key = some next) : Balanced machine next := by
  obtain ⟨instruction, present, fetched⟩ := counting.serving.fetch counting.installed
  obtain ⟨knowledge, annotated, here, holds⟩ := counting.serving
  rw [fetched] at goesOn
  rcases consistent_cases annotated present with ⟨ends, -⟩ | ⟨notReti, learned, known, -⟩
  · exact absurd (congrArg some ends) goesOn
  rw [Machine.keyCell, fetched] at apart
  rw [Machine.step, fetched] at executes
  obtain ⟨following, follows, there⟩ := pc_of_execute known executes here
  have other : index ∉ clockStores ++ branches := by simp [notStore, notBranch]
  obtain ⟨inside, notSpecial⟩ := (successors_elsewhere index counting.inside other instruction
    present).resolve_left notReti following follows
  have sameCarry := (carry_elsewhere index counting.inside other instruction present).resolve_left
    notReti following follows
  have spares := sparesClock_elsewhere index counting.inside notStore knowledge annotated
    instruction present
  have same : ∀ cell ∈ clock, next.memory cell = machine.memory cell := fun cell isClock =>
    Machine.memory_of_execute executes fun writes =>
      holds.notMem_clock clear spares apart cell writes isClock
  refine counting.balanced there inside (.of_elsewhere there inside notSpecial)
    (counting.inRange.congr same) ?_
  rw [sameCarry, total_congr same]

private theorem step (counting : Counting index origin machine) (clear : Clear origin)
    (apart : ∀ cell ∈ machine.keyCell, cell ∉ clock)
    (fresh : index ∈ clockStores → Fresh machine) (goesOn : machine.fetch ≠ some .reti)
    (executes : machine.step key = some next) : Balanced machine next := by
  by_cases isStore : index ∈ clockStores
  · exact counting.stores isStore (fresh isStore) executes
  by_cases isBranch : index ∈ branches
  · simp only [branches, List.mem_cons, List.not_mem_nil, or_false] at isBranch
    rcases isBranch with rfl | rfl | rfl | rfl
    · exact counting.compare (.inl rfl) executes
    · exact counting.jump (.inl rfl) executes
    · exact counting.compare (.inr rfl) executes
    · exact counting.jump (.inr rfl) executes
  · exact counting.elsewhere clear apart isStore isBranch goesOn executes

end Counting

/-! ## Runs -/

/-- Nothing but the handlers writes a word of the clock. -/
def SparesClock (config : Config) : Event → Prop
  | .execute _ =>
      (config.interrupted = [] → ∀ instruction ∈ config.machine.fetch,
        ∀ cell ∈ instruction.written config.machine.context, cell ∉ clock) ∧
      ∀ cell ∈ config.machine.keyCell, cell ∉ clock
  | .interrupt _ => True

/-- A handler that stores a word of the clock finds the word that it has loaded. -/
def StoresFresh (config : Config) : Event → Prop
  | .execute _ =>
      config.interrupted ≠ [] → ∀ index ∈ clockStores,
        config.machine.context.pc = point index → Fresh config.machine
  | .interrupt _ => True

/-- The conditions under which the clock counts. -/
def Punctual (config : Config) (event : Event) : Prop :=
  Careful config event ∧ SparesClock config event ∧ StoresFresh config event

/-- The contexts that execute a handler: all but the last one, which is the program. -/
def activations : Context → List Context → List Context
  | _, [] => []
  | current, origin :: outer => current :: activations origin outer

/-- What the handlers still have to add to the time. -/
def carried (current : Context) (waiting : List Context) : Nat :=
  ((activations current waiting).map Context.carry).sum

/-- The time with all carries. -/
def due (config : Config) : Nat :=
  total config.machine.memory + carried config.machine.context config.interrupted

/-- A context that goes on where another one was interrupted has the same carry. -/
theorem carried_resume {origin resumed : Context} (resumes : Resumes origin resumed)
    (outer : List Context) : carried resumed outer = carried origin outer := by
  cases outer with
  | nil => rfl
  | cons next rest =>
      have sameCarry : resumed.carry = origin.carry := by
        rw [Context.carry, resumes.1, Context.carry]
      simp only [carried, activations, List.map_cons, sameCarry]

private theorem branched_resume {origin resumed : Context} (resumes : Resumes origin resumed)
    {outer : List Context} (branched : ∀ context ∈ activations origin outer, Branched context) :
    ∀ context ∈ activations resumed outer, Branched context := by
  cases outer with
  | nil => exact branched
  | cons next rest =>
      rintro context (_ | ⟨_, waits⟩)
      · exact (branched origin List.mem_cons_self).resume resumes
      · exact branched context (List.mem_cons_of_mem _ waits)

/-- The clock is in range, and every handler remembers the outcome of its comparison. -/
structure Counted (config : Config) : Prop where
  inRange : InRange config.machine.memory
  branched : ∀ context ∈ activations config.machine.context config.interrupted, Branched context

namespace Counted

variable {before after : Config}

private theorem interrupt (counted : Counted before) {source : Source} (sound : Sound after)
    (steps : before.step (.interrupt source) = some after) :
    Counted after ∧ due after = due before + if source = .timer then 1 else 0 := by
  obtain ⟨machine, waiting⟩ := before
  simp only [Config.step, Option.ite_none_right_eq_some, Option.some.injEq] at steps
  obtain ⟨-, rfl⟩ := steps
  have installed : Installed machine.memory := sound.installed (List.cons_ne_nil _ _)
  have here : (machine.interrupt source).context.pc = point source.handler :=
    installed.vector source
  have inside : source.handler < handlers.length := by cases source <;> decide
  refine ⟨⟨counted.inRange, ?_⟩, ?_⟩
  · rintro context (_ | ⟨_, waits⟩)
    · exact .of_elsewhere here inside (by cases source <;> decide)
    · exact counted.branched context waits
  · have begins : (machine.interrupt source).context.carry = if source = .timer then 1 else 0 := by
      rw [Context.carry_eq here inside]
      cases source <;> rfl
    simp only [due, carried, activations, List.map_cons, List.sum_cons, begins]
    have same : (machine.interrupt source).memory = machine.memory := rfl
    rw [same]
    omega

private theorem program {machine next : Machine} {key : Word}
    (counted : Counted { machine, interrupted := [] })
    (spares : SparesClock { machine, interrupted := [] } (.execute key))
    (executes : machine.step key = some next) :
    Counted { machine := next, interrupted := [] } ∧
      total next.memory = total machine.memory := by
  obtain ⟨instruction, fetched, effect⟩ := Option.bind_eq_some_iff.mp executes
  have same : ∀ cell ∈ clock, next.memory cell = machine.memory cell := fun cell isClock =>
    Machine.memory_of_execute effect fun writes =>
      spares.1 rfl instruction fetched cell writes isClock
  exact ⟨⟨counted.inRange.congr same, counted.branched⟩, total_congr same⟩

private theorem finish {machine next : Machine} {key : Word} {origin : Context}
    {outer : List Context} (counted : Counted { machine, interrupted := origin :: outer })
    (serving : Serving origin machine.context machine.memory)
    (installed : Installed machine.memory) (isReti : machine.fetch = some .reti)
    (resumes : Resumes origin next.context) (executes : machine.step key = some next) :
    Counted { machine := next, interrupted := outer } ∧
      due { machine := next, interrupted := outer } =
        due { machine, interrupted := origin :: outer } := by
  obtain ⟨index, serving⟩ := serving
  obtain ⟨_, present, fetched⟩ := serving.fetch installed
  obtain rfl := Option.some.inj (isReti.symm.trans fetched)
  obtain ⟨inside, -⟩ := List.getElem?_eq_some_iff.mp present
  obtain ⟨-, -, here, -⟩ := serving
  have noCarry : machine.context.carry = 0 :=
    (Context.carry_eq here inside).trans (carry_reti index inside present)
  have sameMemory := Machine.memory_of_reti isReti executes
  refine ⟨⟨?_, ?_⟩, ?_⟩
  · simpa only [sameMemory] using counted.inRange
  · exact branched_resume resumes fun context waits =>
      counted.branched context (List.mem_cons_of_mem _ waits)
  · have rest : carried machine.context (origin :: outer) =
        machine.context.carry + carried origin outer := List.sum_cons
    rw [due, due, sameMemory, carried_resume resumes, rest, noCarry, Nat.zero_add]

private theorem goOn {machine next : Machine} {key : Word} {origin : Context} {outer : List Context}
    (counted : Counted { machine, interrupted := origin :: outer })
    (serving : Serving origin machine.context machine.memory)
    (installed : Installed machine.memory) (clear : Clear origin)
    (spares : SparesClock { machine, interrupted := origin :: outer } (.execute key))
    (fresh : StoresFresh { machine, interrupted := origin :: outer } (.execute key))
    (goesOn : machine.fetch ≠ some .reti) (executes : machine.step key = some next) :
    Counted { machine := next, interrupted := origin :: outer } ∧
      due { machine := next, interrupted := origin :: outer } ≡
        due { machine, interrupted := origin :: outer } [MOD period] := by
  obtain ⟨index, serving⟩ := serving
  have counting : Counting index origin machine :=
    ⟨serving, installed, counted.branched _ List.mem_cons_self, counted.inRange⟩
  have balanced := counting.step clear spares.2
    (fun isStore => fresh (List.cons_ne_nil _ _) index isStore counting.here) goesOn executes
  refine ⟨⟨balanced.inRange, ?_⟩, ?_⟩
  · rintro context (_ | ⟨_, waits⟩)
    · exact balanced.branched
    · exact counted.branched context (List.mem_cons_of_mem _ waits)
  · have split : ∀ machine : Machine, due { machine, interrupted := origin :: outer } =
        total machine.memory + machine.context.carry + carried origin outer := fun machine => by
      rw [due, Nat.add_assoc]
      rfl
    rw [split, split]
    exact balanced.due.add_right _

private theorem execute (counted : Counted before) (sound : Sound before) {key : Word}
    (contained : Contained before (.execute key)) (spares : SparesClock before (.execute key))
    (fresh : StoresFresh before (.execute key))
    (steps : before.step (.execute key) = some after) :
    Counted after ∧ due after ≡ due before [MOD period] := by
  obtain ⟨machine, waiting⟩ := before
  obtain ⟨next, executes, rfl⟩ := Option.map_eq_some_iff.mp steps
  cases waiting with
  | nil =>
      obtain ⟨countedNext, same⟩ := counted.program spares executes
      simp only [List.tail_nil, ite_self]
      refine ⟨countedNext, ?_⟩
      rw [due, due, same]
      rfl
  | cons origin outer =>
      have installed : Installed machine.memory := sound.installed (List.cons_ne_nil _ _)
      have clear := sound.stacked.clear origin List.mem_cons_self
      have apart := fun cell isKey => (contained (List.cons_ne_nil _ _) cell isKey).2 origin
        List.mem_cons_self
      have serving := sound.nested.1
      rcases serving.step installed clear apart executes with ⟨ends, resumes⟩ | ⟨goesOn, -⟩
      · simp only [if_pos ends, List.tail_cons]
        obtain ⟨countedNext, same⟩ := counted.finish serving installed ends resumes executes
        exact ⟨countedNext, same ▸ Nat.ModEq.refl _⟩
      · simp only [if_neg goesOn]
        exact counted.goOn serving installed clear spares fresh goesOn executes

private theorem step (counted : Counted before) (sound : Sound before) {event : Event}
    (punctual : Punctual before event) (steps : before.step event = some after) :
    Counted after ∧ due after ≡ due before + [event].count (.interrupt .timer) [MOD period] := by
  obtain ⟨⟨placed, timely, contained⟩, spares, fresh⟩ := punctual
  cases event with
  | execute key => exact counted.execute sound contained spares fresh steps
  | interrupt source =>
      obtain ⟨countedAfter, grows⟩ :=
        counted.interrupt (sound.interrupt placed timely steps) steps
      refine ⟨countedAfter, ?_⟩
      rw [grows]
      cases source <;> rfl

end Counted

section Runs

variable {start : Machine} {events : List Event} {config : Config}

private theorem Run.careful (run : Run Punctual start events config) :
    Run Careful start events config :=
  run.mono fun last => ⟨last.1, last.2.1⟩

/-- In every run, what is due grows by the number of interrupts of the timer. -/
theorem Counted.of_run (inRange : InRange start.memory) (run : Run Punctual start events config) :
    Counted config ∧
      due config ≡ total start.memory + events.count (.interrupt .timer) [MOD period] := by
  induction run with
  | nil => exact ⟨⟨inRange, nofun⟩, Nat.ModEq.refl _⟩
  | snoc run last ih =>
      obtain ⟨counted, grows⟩ := ih
      obtain ⟨countedAfter, growsAgain⟩ := counted.step (Sound.of_run (Run.careful run)) last.2 last.1
      refine ⟨countedAfter, ?_⟩
      rw [List.count_append, ← Nat.add_assoc]
      exact growsAgain.trans (grows.add_right _)

/-- In every run where no handler is interrupted in its window, and where each store of a handler to
the clock finds the word that the handler has loaded, no tick is lost: when all handlers have ended,
the time has grown by the number of interrupts of the timer. -/
theorem clock_loses_no_tick (inRange : InRange start.memory)
    (run : Run Punctual start events config) (finished : config.interrupted = []) :
    InRange config.machine.memory ∧
      total config.machine.memory ≡ total start.memory + events.count (.interrupt .timer)
        [MOD period] := by
  obtain ⟨counted, grows⟩ := Counted.of_run inRange run
  rw [due, finished] at grows
  exact ⟨counted.inRange, grows⟩

end Runs

/-! ## Two interrupts -/

/-- A handler that stores no word of the keyboard goes on, or an interrupt is taken with care. -/
def Ticks (config : Config) : Event → Prop
  | .execute _ => config.interrupted ≠ [] ∧ config.machine.keyCell = none
  | .interrupt source =>
      Placed config (.interrupt source) ∧ Timely config (.interrupt source)

theorem Ticks.careful {config : Config} {event : Event} (ticks : Ticks config event) :
    Careful config event ∧ SparesClock config event := by
  cases event with
  | execute key =>
      obtain ⟨waits, noKey⟩ := ticks
      exact ⟨⟨trivial, trivial, fun _ => Machine.forall_keyCell noKey⟩,
        fun none => absurd none waits, Machine.forall_keyCell noKey⟩
  | interrupt source => exact ⟨⟨ticks.1, ticks.2, trivial⟩, trivial⟩

/-- Whether handlers go on like this can be decided. -/
instance (config : Config) : (event : Event) → Decidable (Ticks config event)
  | .execute _ =>
      inferInstanceAs (Decidable (config.interrupted ≠ [] ∧ config.machine.keyCell = none))
  | .interrupt _ =>
      inferInstanceAs (Decidable (((config.interrupted = [] → Installed config.machine.memory) ∧
        Clear config.machine.context) ∧ (config.interrupted ≠ [] →
          ∀ index ∈ window, config.machine.context.pc ≠ point index)))

/-- Whether a store finds the word that was loaded can be decided. -/
instance (config : Config) : (event : Event) → Decidable (StoresFresh config event)
  | .execute _ =>
      inferInstanceAs (Decidable (config.interrupted ≠ [] → ∀ index ∈ clockStores,
        config.machine.context.pc = point index →
          config.machine.context.read .s1 =
            config.machine.memory (address (config.machine.context.read .s0)) + 1))
  | .interrupt _ => inferInstanceAs (Decidable True)

/-- Runs that meet a condition can be computed. -/
theorem Run.of_foldlM {allowed permitted : Config → Event → Prop}
    [∀ config event, Decidable (allowed config event)]
    (permits : ∀ {config event}, allowed config event → permitted config event) {start : Machine}
    {events : List Event} {config : Config} (folds : events.foldlM (fun config event =>
      if allowed config event then config.step event else none)
      { machine := start, interrupted := [] } = some config) :
    Run permitted start events config :=
  (Trace.of_foldlM folds).mono fun last =>
    have ⟨allows, steps⟩ := Option.ite_none_right_eq_some.mp last
    ⟨steps, permits allows⟩

/-- The timer interrupts twice; its first handler has executed a number of instructions when it is
interrupted. -/
def twice (first : Nat) : List Event :=
  .interrupt .timer :: List.replicate first (.execute 0) ++
    .interrupt .timer :: List.replicate (82 - first) (.execute 0)

theorem running_inRange : InRange running.memory := by
  intro cell isDigit
  simp only [List.mem_cons, List.not_mem_nil, or_false] at isDigit
  rcases isDigit with rfl | rfl <;> decide +kernel

theorem clock_loses_no_tick_twice :
    ∃ config, Run Punctual running (twice 23) config ∧ config.interrupted = [] ∧
      InRange config.machine.memory ∧
      total config.machine.memory ≡ total running.memory + 2 [MOD period] := by
  have ends : ((twice 23).foldlM (fun config event =>
      if Ticks config event ∧ StoresFresh config event then config.step event else none)
      { machine := running, interrupted := [] }).any
        (fun config => config.interrupted.isEmpty) = true := by
    decide +kernel
  obtain ⟨config, folds, finished⟩ := (Option.any_eq_true _ _).mp ends
  have finished := List.isEmpty_iff.mp finished
  have run : Run Punctual running (twice 23) config :=
    Run.of_foldlM (fun allows => ⟨allows.1.careful.1, allows.1.careful.2, allows.2⟩) folds
  exact ⟨config, run, finished, clock_loses_no_tick running_inRange run finished⟩

/-- If the second interrupt comes after the first handler has loaded the seconds, both handlers store
the same word, and a tick is lost. -/
theorem clock_loses_tick :
    ¬ ∀ {start : Machine} {events : List Event} {config : Config}, InRange start.memory →
      Run (fun config event => Careful config event ∧ SparesClock config event) start events
        config →
      config.interrupted = [] →
      InRange config.machine.memory ∧
        total config.machine.memory ≡ total start.memory + events.count (.interrupt .timer)
          [MOD period] := by
  intro counts
  have ends : ((twice 19).foldlM (fun config event =>
      if Ticks config event then config.step event else none)
      { machine := running, interrupted := [] }).any
        (fun config => config.interrupted.isEmpty && total config.machine.memory == 1) = true := by
    decide +kernel
  obtain ⟨config, folds, finished⟩ := (Option.any_eq_true _ _).mp ends
  simp only [Bool.and_eq_true, List.isEmpty_iff, beq_iff_eq] at finished
  obtain ⟨-, counted⟩ := counts running_inRange (Run.of_foldlM Ticks.careful folds) finished.1
  have zero : total running.memory = 0 := by decide +kernel
  have two : (twice 19).count (.interrupt .timer) = 2 := by decide
  rw [finished.2, zero, two] at counted
  exact absurd counted (by decide)

end CS2200.Interrupts
