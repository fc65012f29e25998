import CS2200.Interrupts.Transparency

/-!
# The live words of the stack

The handlers save the registers from 87 to 100 words above the stack pointer, where the program
that they interrupt may have words of its own. Everything else that is in use keeps its contents.
-/

namespace CS2200.Interrupts

/-! ## Live words -/

private theorem toNat_le_of_mem_fixed {cell : Address} (isFixed : cell ∈ fixed) :
    cell.toNat ≤ Label.hours := by
  have below : fixed.all (fun cell => Nat.ble cell.toNat Label.hours) = true := by decide +kernel
  exact Nat.le_of_ble_eq_true (List.all_eq_true.mp below cell isFixed)

theorem le_toNat_of_mem_cells {cell : Address} (isCell : cell ∈ cells) (other : cell ≠ 156) :
    0xfffffc ≤ cell.toNat := by
  simp only [cells, List.mem_cons, List.not_mem_nil, or_false] at isCell
  rcases isCell with rfl | rfl | rfl | rfl
  · exact absurd rfl other
  all_goals simp

/-- Where the stack begins. -/
def base : Nat := 0xa00000

/-- A word above the stack pointer. -/
def live (context : Context) (offset : Nat) : Address :=
  address (context.read .sp) + BitVec.ofNat 24 offset

/-- A number of words is in use, and the cells of the handlers lie outside. -/
structure Deep (context : Context) (depth : Nat) : Prop where
  /-- The stack goes up to its base. -/
  reaches : (address (context.read .sp)).toNat + depth = base
  /-- The pointer into the buffer of the keyboard and the clock are no words of the stack. -/
  apart : ∀ offset < depth, live context offset ∉ cells

/-- A word of the keyboard is stored neither over the handlers nor over a live word. -/
def Outside (origin : Context) (depth : Nat) (config : Config) : Prop :=
  ∀ cell ∈ config.machine.keyCell, cell ∉ fixed ∧ ∀ offset < depth, live origin offset ≠ cell

/-- Every live word in the save area is what the handler saves there. -/
def SavedOver (start : Machine) (depth : Nat) (memory : Memory) : Prop :=
  ∀ index, (inside : index < saved.length) → 100 - index < depth →
    memory (slot start.context index) =
      (start.context.write .k0 start.context.pc).read saved[index]

theorem SavedOver.congr {start : Machine} {depth : Nat} {memory changed : Memory}
    (savedOver : SavedOver start depth memory)
    (same : ∀ offset < depth, changed (live start.context offset) =
      memory (live start.context offset)) : SavedOver start depth changed :=
  fun index inside isLive => (same (100 - index) isLive).trans (savedOver index inside isLive)

theorem SavedOver.of_holds {knowledge : Knowledge} {start : Machine} {current : Context}
    {memory : Memory} (holds : knowledge.Holds start.context current memory)
    (known : ∀ index < saved.length,
      knowledge.slots index = saved[index]?.map fun register => .original register 0)
    (depth : Nat) : SavedOver start depth memory := by
  intro index inside _
  have original := known index inside
  rw [List.getElem?_eq_getElem inside] at original
  exact (holds.slots inside original).trans (BitVec.add_zero _)

/-- Every live word outside the save area is what it was. -/
def SameElsewhere (start : Machine) (depth : Nat) (memory : Memory) : Prop :=
  ∀ offset < depth, (∀ index < saved.length, offset ≠ 100 - index) →
    memory (live start.context offset) = start.memory (live start.context offset)

namespace Deep

variable {context : Context} {depth : Nat}

/-- The stack lies above the program. -/
theorem pointer (deep : Deep context depth) :
    Label.keyboard < (address (context.read .sp)).toNat := by
  by_contra low
  have below : Label.keyboard - (address (context.read .sp)).toNat < depth := by
    have reaches := deep.reaches
    simp only [base, Label.keyboard] at reaches low ⊢
    omega
  refine deep.apart _ below ?_
  have isPointer : live context (Label.keyboard - (address (context.read .sp)).toNat) =
      BitVec.ofNat 24 Label.keyboard := by
    refine BitVec.eq_of_toNat_eq ?_
    rw [live, BitVec.toNat_add, BitVec.toNat_ofNat, BitVec.toNat_ofNat, Nat.add_mod_mod,
      Nat.add_sub_of_le (Nat.le_of_not_lt low)]
  rw [isPointer]
  decide

theorem live_toNat (deep : Deep context depth) {offset : Nat} (near : offset ≤ max depth 100) :
    (live context offset).toNat = (address (context.read .sp)).toNat + offset := by
  have reaches := deep.reaches
  simp only [live, BitVec.toNat_add, BitVec.toNat_ofNat, base] at reaches ⊢
  omega

/-- The save area overlaps neither the program nor the cells of the handlers. -/
theorem clear (deep : Deep context depth) : Clear context := by
  intro index inside overlaps
  have lengthEq : saved.length = 14 := rfl
  have position : (slot context index).toNat =
      (address (context.read .sp)).toNat + (100 - index) := deep.live_toNat (by omega)
  have reaches := deep.reaches
  have above := deep.pointer
  simp only [base, Label.keyboard] at reaches above
  have between : Label.hours < (slot context index).toNat ∧
      (slot context index).toNat < 0xfffffc := by
    rw [position, Label.hours]
    omega
  rcases List.mem_append.mp overlaps with isFixed | isCell
  · exact absurd (toNat_le_of_mem_fixed isFixed) (Nat.not_le_of_lt between.1)
  · refine absurd (le_toNat_of_mem_cells isCell fun isPointer => ?_) (Nat.not_le_of_lt between.2)
    rw [isPointer] at between
    exact absurd between.1 (by decide)

private theorem live_ne_slot (deep : Deep context depth) {offset index : Nat}
    (isLive : offset < depth)
    (other : offset ≠ 100 - index) : live context offset ≠ slot context index := by
  intro same
  have position : (slot context index).toNat =
      (address (context.read .sp)).toNat + (100 - index) := deep.live_toNat (by omega)
  have place := @live_toNat context depth deep offset (by omega)
  rw [same, position] at place
  omega

end Deep

/-! ## After the word of the keyboard -/

/-- The keyboard's handler has stored the word of the keyboard; it goes on to the end of its code,
and keeps the address of the pointer until the pointer is stored. -/
structure Advancing (index : Nat) (current : Context) : Prop where
  /-- The word has been stored. -/
  begins : 17 < index
  /-- The handler has not ended. -/
  inside : index < tiKeyhandler.length
  /-- The instruction that is executed. -/
  here : current.pc = point index
  /-- Where the pointer is stored. -/
  pointer : index ≤ 19 → current.read .s1 = BitVec.ofNat 32 Label.keyboard

/-- The end of the keyboard's handler goes forward, and stores no word but the pointer. -/
theorem successors_advancing : ∀ index < tiKeyhandler.length - 1, 17 < index →
    ∀ instruction ∈ handlers[index]?, successors index instruction = [index + 1] ∧
      instruction ≠ .reti ∧ (index = 18 ∧ instruction = .addi .s0 .s0 1 ∨
        index = 19 ∧ instruction = .sw .s0 0 .s1 ∨
        20 ≤ index ∧ instruction.written running.context = none) := by
  decide +kernel

private theorem Instruction.written_eq_none {instruction : Instruction} {context : Context}
    (stores : instruction.written context = none) (other : Context) :
    instruction.written other = none := by
  cases instruction with
  | sw | boni => cases stores
  | _ => rfl

/-- The end of the keyboard's handler takes a step, and changes the pointer at most. -/
theorem Advancing.step {index : Nat} {machine next : Machine} {key : Word}
    (advancing : Advancing index machine.context) (installed : Installed machine.memory)
    (executes : machine.step key = some next) (goesOn : machine.fetch ≠ some .reti) :
    Advancing (index + 1) next.context ∧
      ∀ cell, cell ≠ BitVec.ofNat 24 Label.keyboard →
        next.memory cell = machine.memory cell := by
  obtain ⟨begins, inside, here, pointer⟩ := advancing
  have inHandlers : index < handlers.length := Nat.lt_of_lt_of_le inside (by decide)
  obtain ⟨instruction, present⟩ : ∃ instruction, handlers[index]? = some instruction :=
    ⟨_, List.getElem?_eq_getElem inHandlers⟩
  have fetched := installed.fetch present here
  have early : index < tiKeyhandler.length - 1 := by
    by_contra late
    obtain rfl : index = 37 := by
      have lengthEq : tiKeyhandler.length = 38 := rfl
      omega
    obtain rfl : Instruction.reti = instruction := Option.some.inj present
    exact goesOn fetched
  obtain ⟨follows, notReti, stores⟩ := successors_advancing index early begins _ present
  obtain ⟨knowledge, annotated⟩ : ∃ knowledge, annotations[index]? = some knowledge :=
    ⟨_, List.getElem?_eq_getElem (annotations_length.symm ▸ inHandlers)⟩
  rcases consistent_cases annotated present with ⟨ends, -⟩ | ⟨-, learned, known, -⟩
  · exact absurd ends notReti
  rw [Machine.step, fetched] at executes
  obtain ⟨following, isNext, there⟩ := pc_of_execute known executes here
  rw [follows, List.mem_singleton] at isNext
  subst isNext
  have sameElsewhere : ∀ cell, instruction.written machine.context ≠ some cell →
      next.memory cell = machine.memory cell :=
    fun cell other => Machine.memory_of_execute executes other
  rcases stores with ⟨rfl, rfl⟩ | ⟨rfl, rfl⟩ | ⟨late, writesNone⟩
  · refine ⟨⟨by decide, by decide, there, fun _ => ?_⟩, fun cell _ =>
      sameElsewhere cell (Option.some_ne_none cell).symm⟩
    cases executes
    refine Eq.trans ?_ (pointer (by decide))
    rw [Context.read_write, if_neg (by decide)]
    rfl
  · refine ⟨⟨by decide, by decide, there, fun soon => absurd soon (by decide)⟩,
      fun cell other => sameElsewhere cell ?_⟩
    rw [Instruction.written, pointer (by decide)]
    exact fun same => other (Option.some.inj same).symm
  · refine ⟨⟨by omega, by omega, there, by omega⟩, fun cell _ => sameElsewhere cell ?_⟩
    rw [Instruction.written_eq_none writesNone]
    exact (Option.some_ne_none cell).symm

/-! ## What a handler saves -/

private theorem Instruction.keyCell_eq_none {instruction : Instruction} {context : Context}
    (stores : instruction.keyCell context = none) (other : Context) :
    instruction.keyCell other = none := by
  cases instruction with
  | boni => cases stores
  | _ => rfl

/-- One instruction stores a word of the keyboard; elsewhere its handler goes on to it, and the
timer's handler to its own end. -/
theorem successors_saving : ∀ index < handlers.length, index ≠ 17 →
    index ≤ 17 ∨ tiKeyhandler.length ≤ index → ∀ instruction ∈ handlers[index]?,
      instruction.keyCell running.context = none ∧
        ∀ following ∈ successors index instruction,
          following ≤ 17 ∨ tiKeyhandler.length ≤ following := by
  decide +kernel

private theorem reti_timer : ∀ index < handlers.length, index ≤ 17 ∨ tiKeyhandler.length ≤ index →
    handlers[index]? = some .reti → index = 93 := by
  decide +kernel

/-- Where the word of the keyboard is stored, all registers have been saved. -/
theorem annotations_storeKey : ∀ knowledge ∈ annotations[17]?,
    knowledge.registers .s1 = some (.constant (BitVec.ofNat 32 Label.keyboard)) ∧
      ∀ index < saved.length,
        knowledge.slots index = saved[index]?.map fun register => .original register 0 := by
  decide +kernel

/-- Where the timer's handler ends, the save area is what it was. -/
theorem annotations_reti : ∀ knowledge ∈ annotations[93]?, ∀ index < saved.length,
    knowledge.slots index = saved[index]?.map fun register => .original register 0 := by
  decide +kernel

/-- A handler that nothing interrupts has changed no live word outside its save area. In the save
area it is known what the words are, or the words are the registers. -/
structure Saving (start : Machine) (depth : Nat) (config : Config) : Prop where
  /-- The handler serves the interruption of the program. -/
  waits : config.interrupted = [start.context]
  /-- The handlers are installed. -/
  installed : Installed config.machine.memory
  /-- The live words outside the save area. -/
  elsewhere : SameElsewhere start depth config.machine.memory
  /-- Until the word of the keyboard is stored, and after it. -/
  phase : (∃ index, (index ≤ 17 ∨ tiKeyhandler.length ≤ index) ∧
      ServingAt index start.context config.machine.context config.machine.memory) ∨
    ∃ index, Advancing index config.machine.context ∧ SavedOver start depth config.machine.memory

namespace Saving

variable {start : Machine} {depth : Nat} {before : Config}

private theorem begin (installed : Installed start.memory) (source : Source) :
    Saving start depth
      { machine := start.interrupt source, interrupted := [start.context] } where
  waits := rfl
  installed := installed
  elsewhere _ _ _ := rfl
  phase := by
    refine .inl ⟨source.handler, ?_, ServingAt.begin installed source⟩
    cases source <;> decide

private theorem unchanged (saving : Saving start depth before) {key : Word} {next : Machine}
    (executes : before.machine.step key = some next) (goesOn : before.machine.fetch ≠ some .reti)
    {cell : Address} (notCell : cell ∉ cells)
    (notSlot : ∀ index < saved.length, cell ≠ slot start.context index)
    (notKey : cell ∉ before.machine.keyCell) : next.memory cell = before.machine.memory cell := by
  rcases saving.phase with ⟨index, -, serving⟩ | ⟨index, advancing, -⟩
  · exact Serving.unchanged ⟨index, serving⟩ saving.installed executes notCell notSlot notKey
  · refine (advancing.step saving.installed executes goesOn).2 cell ?_
    rintro rfl
    exact notCell (by decide)

private theorem storeKey {machine next : Machine} {key : Word}
    (installed : Installed machine.memory)
    (serving : ServingAt 17 start.context machine.context machine.memory)
    (apart : ∀ cell ∈ machine.keyCell, ∀ offset < depth, live start.context offset ≠ cell)
    (executes : machine.step key = some next) :
    Advancing 18 next.context ∧ SavedOver start depth next.memory := by
  obtain ⟨knowledge, annotated, here, holds⟩ := serving
  obtain ⟨pointer, slots⟩ := annotations_storeKey knowledge annotated
  have fetched : machine.fetch = some (.boni .s2 .s0 0) := installed.fetch rfl here
  rw [Machine.keyCell, fetched] at apart
  rw [Machine.step, fetched] at executes
  cases executes
  refine ⟨⟨by decide, by decide, ?_, fun _ => ?_⟩, ?_⟩
  · exact Context.next_pc here
  · exact holds.registers (by decide) pointer
  · exact (SavedOver.of_holds holds slots depth).congr fun offset isLive =>
      Function.update_of_ne (apart _ rfl offset isLive) _ _

private theorem step (saving : Saving start depth before) (deep : Deep start.context depth)
    (outside : Outside start.context depth before) {key : Word} {after : Config}
    (steps : before.step (.execute key) = some after)
    (goesOn : before.machine.fetch ≠ some .reti) : Saving start depth after := by
  obtain ⟨next, executes, rfl⟩ := Option.map_eq_some_iff.mp steps
  refine ⟨(if_neg goesOn).trans saving.waits, ?_, ?_, ?_⟩
  · refine saving.installed.congr fun cell isFixed => saving.unchanged executes goesOn ?_ ?_ ?_
    · exact notMem_cells_of_fixed isFixed
    · rintro index inside rfl
      exact deep.clear index inside (List.mem_append_left _ isFixed)
    · exact fun isKey => (outside cell isKey).1 isFixed
  · intro offset isLive notSaved
    refine (saving.unchanged executes goesOn (deep.apart offset isLive) ?_ ?_).trans
      (saving.elsewhere offset isLive notSaved)
    · exact fun index inside => deep.live_ne_slot isLive (notSaved index inside)
    · exact fun isKey => (outside _ isKey).2 offset isLive rfl
  · rcases saving.phase with ⟨index, early, serving⟩ | ⟨index, advancing, savedOver⟩
    · by_cases isStore : index = 17
      · subst isStore
        exact .inr ⟨18, storeKey saving.installed serving (fun cell isKey => (outside cell isKey).2)
          executes⟩
      · obtain ⟨instruction, present, fetched⟩ := serving.fetch saving.installed
        obtain ⟨inside, -⟩ := List.getElem?_eq_some_iff.mp present
        obtain ⟨noKey, leads⟩ := successors_saving index inside isStore early instruction present
        have noKeyHere : before.machine.keyCell = none := by
          rw [Machine.keyCell, fetched]
          exact Instruction.keyCell_eq_none noKey _
        obtain ⟨after, executed, following, follows, there⟩ :=
          serving.proceed saving.installed deep.clear (Machine.forall_keyCell noKeyHere) present
            fetched fun isReti => goesOn (isReti ▸ fetched)
        obtain rfl := Option.some.inj (executes.symm.trans executed)
        exact .inl ⟨following, leads following follows, there⟩
    · obtain ⟨advances, same⟩ := advancing.step saving.installed executes goesOn
      refine .inr ⟨index + 1, advances, savedOver.congr fun offset isLive => same _ ?_⟩
      intro isPointer
      refine deep.apart offset isLive ?_
      rw [isPointer]
      decide

/-- A handler goes on or ends, and nothing is interrupted after it has ended. -/
theorem step_or_end (saving : before.interrupted = [] ∨ Saving start depth before)
    (deep : Deep start.context depth) (outside : Outside start.context depth before) {key : Word}
    {after : Config} (steps : before.step (.execute key) = some after) :
    after.interrupted = [] ∨ Saving start depth after := by
  rcases saving with ended | saving
  · obtain ⟨next, -, rfl⟩ := Option.map_eq_some_iff.mp steps
    simp [ended]
  by_cases isReti : before.machine.fetch = some .reti
  · obtain ⟨next, -, rfl⟩ := Option.map_eq_some_iff.mp steps
    simp [isReti, saving.waits]
  · exact .inr (saving.step deep outside steps isReti)

private theorem ends (saving : Saving start depth before)
    (isReti : before.machine.fetch = some .reti) : SavedOver start depth before.machine.memory := by
  rcases saving.phase with ⟨index, early, serving⟩ | ⟨index, advancing, savedOver⟩
  · obtain ⟨instruction, present, fetched⟩ := serving.fetch saving.installed
    obtain rfl := Option.some.inj (isReti.symm.trans fetched)
    obtain ⟨inside, -⟩ := List.getElem?_eq_some_iff.mp present
    obtain rfl := reti_timer index inside early present
    obtain ⟨knowledge, annotated, -, holds⟩ := serving
    exact SavedOver.of_holds holds (annotations_reti knowledge annotated) depth
  · exact savedOver

end Saving

/-! ## Every handler -/

section Handler

variable {start resumed : Machine} {source : Source} {depth : Nat} {keys : List Word}
  {before : Config} {key : Word}

/-- Until it ends, a handler that nothing interrupts saves registers. -/
theorem Saving.of_execution (installed : Installed start.memory) (deep : Deep start.context depth)
    (execution : Execution (Outside start.context depth)
      { machine := start.interrupt source, interrupted := [start.context] } keys before) :
    before.interrupted = [] ∨ Saving start depth before := by
  induction execution with
  | nil => exact .inr (Saving.begin installed source)
  | snoc _ last ih => exact Saving.step_or_end ih deep last.2 last.1

/-- When a handler has ended, the live words in its save area are the registers that it saved, and
the others are what they were. -/
theorem saved_of_ends (installed : Installed start.memory) (deep : Deep start.context depth)
    (execution : Execution (Outside start.context depth)
      { machine := start.interrupt source, interrupted := [start.context] } keys before)
    (waits : before.interrupted = [start.context])
    (ends : before.step (.execute key) = some { machine := resumed, interrupted := [] }) :
    SavedOver start depth resumed.memory ∧ SameElsewhere start depth resumed.memory := by
  rcases Saving.of_execution installed deep execution with ended | saving
  · exact absurd (waits.symm.trans ended) (List.cons_ne_nil _ _)
  obtain ⟨isReti, executes⟩ := Config.reti_of_step waits ends
  rw [Machine.memory_of_reti isReti executes]
  exact ⟨saving.ends isReti, saving.elsewhere⟩

/-- A handler that nothing interrupts leaves every live word of the stack unchanged exactly if the
live words of its save area are the registers that it saves there. -/
theorem live_unchanged_iff (installed : Installed start.memory) (deep : Deep start.context depth)
    (execution : Execution (Outside start.context depth)
      { machine := start.interrupt source, interrupted := [start.context] } keys before)
    (waits : before.interrupted = [start.context])
    (ends : before.step (.execute key) = some { machine := resumed, interrupted := [] }) :
    (∀ offset < depth, resumed.memory (live start.context offset) =
      start.memory (live start.context offset)) ↔ SavedOver start depth start.memory := by
  obtain ⟨savedOver, elsewhere⟩ := saved_of_ends installed deep execution waits ends
  constructor
  · exact fun same => savedOver.congr fun offset isLive => (same offset isLive).symm
  · intro already offset isLive
    by_cases isSaved : ∃ index < saved.length, offset = 100 - index
    · obtain ⟨index, inside, rfl⟩ := isSaved
      exact (savedOver index inside isLive).trans (already index inside isLive).symm
    · exact elsewhere offset isLive fun index inside same => isSaved ⟨index, inside, same⟩

theorem exists_ends (installed : Installed start.memory) (deep : Deep start.context depth) :
    ∃ keys before resumed, Execution (Outside start.context depth)
        { machine := start.interrupt .timer, interrupted := [start.context] } keys before ∧
      before.interrupted = [start.context] ∧
      before.step (.execute 0) = some { machine := resumed, interrupted := [] } := by
  obtain ⟨keys, before, execution, waits, serving, kept⟩ :=
    @timer_runs start.context [] 93 (by decide) (by decide) deep.clear
      { machine := start.interrupt .timer, interrupted := [start.context] } _ rfl
      (ServingAt.begin installed .timer) installed (by decide) (by decide)
  exact ⟨keys, before, _, execution.mono fun last => ⟨last.1, Machine.forall_keyCell last.2⟩,
    waits, serving.finish kept rfl waits 0⟩

end Handler

/-- The program of Project 2 with a number of words on its stack. -/
def recursing (depth : Nat) : Machine where
  context :=
    { running.context with
      registers := fun register =>
        if register = .sp then BitVec.ofNat 32 (base - depth)
        else if register = .ra then BitVec.ofNat 32 Label.factorial
        else 0 }
  memory := running.memory

theorem recursing_deep {depth : Nat} (inside : depth < base - Label.keyboard) :
    Deep (recursing depth).context depth := by
  have pointer : (address ((recursing depth).context.read .sp)).toNat = base - depth := by
    have small : base - depth < 2 ^ 24 := Nat.lt_of_le_of_lt (Nat.sub_le _ _) (by decide)
    have isPointer : (recursing depth).context.read .sp = BitVec.ofNat 32 (base - depth) := rfl
    rw [isPointer, address, BitVec.toNat_setWidth, BitVec.toNat_ofNat]
    omega
  have above : depth < base := Nat.lt_of_lt_of_le inside (Nat.sub_le _ _)
  refine ⟨by rw [pointer, Nat.sub_add_cancel (Nat.le_of_lt above)], fun offset isLive isCell => ?_⟩
  have position : (live (recursing depth).context offset).toNat = base - depth + offset := by
    rw [live, BitVec.toNat_add, pointer, BitVec.toNat_ofNat]
    simp only [base, Label.keyboard] at inside ⊢
    omega
  have between : Label.keyboard < base - depth + offset ∧ base - depth + offset < 0xfffffc := by
    simp only [base, Label.keyboard] at inside ⊢
    omega
  by_cases isPointer : live (recursing depth).context offset = 156
  · rw [← position, isPointer] at between
    exact absurd between.1 (by decide)
  · rw [← position] at between
    exact absurd (le_toNat_of_mem_cells isCell isPointer) (Nat.not_le_of_lt between.2)

/-- The bottom of a stack of 90 words holds the registers that a handler saves there: `$ra`, `$fp`
and the address in `$k0`. -/
def returning : Machine where
  context := (recursing 90).context
  memory cell :=
    if cell = 0x9ffffd ∨ cell = 0x9fffff then BitVec.ofNat 32 Label.factorial
    else running.memory cell

theorem live_unchanged_iff_returning :
    ∃ keys before resumed, Execution (Outside returning.context 90)
        { machine := returning.interrupt .timer, interrupted := [returning.context] }
        keys before ∧
      before.step (.execute 0) = some { machine := resumed, interrupted := [] } ∧
      ∀ offset < 90, resumed.memory (live returning.context offset) =
        returning.memory (live returning.context offset) := by
  have deep : Deep returning.context 90 := recursing_deep (by decide)
  have installed : Installed returning.memory := by decide +kernel
  have already : SavedOver returning 90 returning.memory := by
    intro index inside isLive
    have lengthEq : saved.length = 14 := rfl
    obtain rfl | rfl | rfl : index = 11 ∨ index = 12 ∨ index = 13 := by omega
    · rfl
    · rfl
    · rfl
  obtain ⟨keys, before, resumed, execution, waits, ends⟩ := exists_ends installed deep
  exact ⟨keys, before, resumed, execution, ends,
    (live_unchanged_iff installed deep execution waits ends).mpr already⟩

/-- A handler that interrupts a deep recursion overwrites the stack: with 88 live words, `$ra` is
stored over the last one. -/
theorem not_live_unchanged :
    ¬ ∀ {start resumed : Machine} {source : Source} {depth : Nat} {keys : List Word}
      {before : Config} {key : Word}, Installed start.memory → Deep start.context depth →
      Execution (Outside start.context depth)
        { machine := start.interrupt source, interrupted := [start.context] } keys before →
      before.interrupted = [start.context] →
      before.step (.execute key) = some { machine := resumed, interrupted := [] } →
      ∀ offset < depth, resumed.memory (live start.context offset) =
        start.memory (live start.context offset) := by
  intro unchanged
  have deep := recursing_deep (by decide : 88 < base - Label.keyboard)
  have installed : Installed (recursing 88).memory := running_installed
  obtain ⟨keys, before, resumed, execution, waits, ends⟩ := exists_ends installed deep
  have overwritten := (saved_of_ends installed deep execution waits ends).1 13 (by decide)
    (by decide)
  have same := unchanged installed deep execution waits ends 87 (by decide)
  have differs : (recursing 88).memory (live (recursing 88).context 87) ≠
      ((recursing 88).context.write .k0 (recursing 88).context.pc).read .ra := by decide
  exact differs (same.symm.trans overwritten)

end CS2200.Interrupts
