import CS2200.Interrupts.Analysis

/-!
# The handlers

A handler that respects the analysis goes on until it resumes what it interrupted. It changes no
cell that the handlers only read, and nothing in the save areas of other handlers.
-/

namespace CS2200.Interrupts

/-! ## One instruction -/

theorem point_add (index distance : Nat) :
    point index + BitVec.ofNat 32 distance = point (index + distance) := by
  rw [point, point, ← BitVec.ofNat_add, Nat.add_assoc]

theorem Context.next_pc {context : Context} {index : Nat} (here : context.pc = point index) :
    context.next.pc = point (index + 1) := by
  rw [Context.next, here]
  exact point_add index 1

/-- An instruction that the analysis follows leads to one of its successors. -/
theorem pc_of_execute {machine next : Machine} {key : Word} {instruction : Instruction}
    {knowledge learned : Knowledge} {index : Nat}
    (known : knowledge.after instruction = some learned)
    (executes : instruction.execute machine key = some next)
    (here : machine.context.pc = point index) :
    ∃ following ∈ successors index instruction, next.context.pc = point following := by
  have succ := Context.next_pc here
  cases instruction with
  | jalr | halt | reti => cases known
  | beq rx ry offset =>
      simp only [Knowledge.after, Option.ite_none_left_eq_some] at known
      have forward : offset.signExtend 32 = BitVec.ofNat 32 offset.toNat := by
        rw [BitVec.signExtend_eq_setWidth_of_msb_false (by simpa using known.1),
          BitVec.ofNat_toNat]
      simp only [Instruction.execute] at executes
      split at executes
      · cases executes
        refine ⟨index + 1 + offset.toNat, by simp [successors], ?_⟩
        rw [succ, forward, point_add]
      · cases executes
        exact ⟨index + 1, by simp [successors], succ⟩
  | _ =>
      cases executes
      exact ⟨index + 1, by simp [successors], succ⟩

private theorem exists_execute {knowledge learned : Knowledge} {instruction : Instruction}
    (known : knowledge.after instruction = some learned) (machine : Machine) (key : Word) :
    ∃ next, instruction.execute machine key = some next := by
  cases instruction with
  | jalr | halt | reti => cases known
  | beq rx ry offset =>
      simp only [Instruction.execute]
      split <;> exact ⟨_, rfl⟩
  | _ => exact ⟨_, rfl⟩

/-! ## Serving an interruption -/

/-- A context is at an instruction of the handler that interrupted another context, and what is
known there holds. -/
def ServingAt (index : Nat) (origin current : Context) (memory : Memory) : Prop :=
  ∃ knowledge, annotations[index]? = some knowledge ∧ current.pc = point index ∧
    knowledge.Holds origin current memory

/-- A context executes the handler that interrupted another context. -/
def Serving (origin current : Context) (memory : Memory) : Prop :=
  ∃ index, ServingAt index origin current memory

namespace ServingAt

variable {index : Nat} {origin : Context} {machine next : Machine}

theorem begin (installed : Installed machine.memory) (source : Source) :
    ServingAt source.handler machine.context (machine.interrupt source).context
      machine.memory := by
  refine ⟨begun, annotations_begin source, installed.vector source, rfl, ?_, nofun⟩
  intro register value notZero known
  obtain rfl := Option.some.inj known
  exact (BitVec.add_zero _).symm

theorem fetch (serving : ServingAt index origin machine.context machine.memory)
    (installed : Installed machine.memory) :
    ∃ instruction, handlers[index]? = some instruction ∧ machine.fetch = some instruction := by
  obtain ⟨knowledge, annotated, here, holds⟩ := serving
  obtain ⟨inside, -⟩ := List.getElem?_eq_some_iff.mp annotated
  rw [annotations_length] at inside
  have present : handlers[index]? = some handlers[index] := List.getElem?_eq_getElem inside
  exact ⟨_, present, installed.fetch present here⟩

/-- Before a handler ends, every register but `$k0` has its original value, and `$k0` has the
program counter. -/
theorem original (serving : ServingAt index origin machine.context machine.memory)
    (present : handlers[index]? = some .reti) (register : Register) :
    machine.context.read register = (origin.write .k0 origin.pc).read register := by
  obtain ⟨knowledge, annotated, -, holds⟩ := serving
  rcases consistent_cases annotated present with ⟨-, restored⟩ | ⟨goesOn, -⟩
  · exact holds.original restored register
  · exact absurd rfl goesOn

theorem finish {config : Config} {outer : List Context}
    (serving : ServingAt index origin config.machine.context config.machine.memory)
    (installed : Installed config.machine.memory) (present : handlers[index]? = some .reti)
    (waits : config.interrupted = origin :: outer) (key : Word) :
    config.step (.execute key) = some
      { machine :=
          { config.machine with
            context :=
              { config.machine.context with
                pc := (origin.write .k0 origin.pc).read .k0
                enabled := true } }
        interrupted := outer } := by
  obtain ⟨instruction, isThere, fetched⟩ := serving.fetch installed
  obtain rfl := Option.some.inj (present.symm.trans isThere)
  rw [Config.step, Machine.step, fetched, if_pos rfl, waits, ← serving.original present .k0]
  rfl

theorem proceed (serving : ServingAt index origin machine.context machine.memory)
    (installed : Installed machine.memory) (clear : Clear origin) {key : Word}
    (apart : ∀ cell ∈ machine.keyCell, ∀ index < saved.length, slot origin index ≠ cell)
    {instruction : Instruction} (present : handlers[index]? = some instruction)
    (fetched : machine.fetch = some instruction) (goesOn : instruction ≠ .reti) :
    ∃ next, machine.step key = some next ∧
      ∃ following ∈ successors index instruction,
        ServingAt following origin next.context next.memory := by
  obtain ⟨knowledge, annotated, here, holds⟩ := serving
  rcases consistent_cases annotated present with ⟨ends, -⟩ | ⟨-, learned, known, leads⟩
  · exact absurd ends goesOn
  obtain ⟨next, executes⟩ := exists_execute known machine key
  obtain ⟨following, follows, there⟩ := pc_of_execute known executes here
  obtain ⟨weak, annotatedThere, implies⟩ := leads following follows
  rw [Machine.keyCell, fetched] at apart
  have holdsThere := (holds.after installed.constants clear apart known executes).weaken implies
  refine ⟨next, ?_, following, follows, weak, annotatedThere, there, holdsThere⟩
  rw [Machine.step, fetched]
  exact executes

end ServingAt

namespace Serving

variable {origin : Context} {machine next : Machine}

/-- A handler resumes what it interrupted, or goes on. -/
theorem step (serving : Serving origin machine.context machine.memory)
    (installed : Installed machine.memory) (clear : Clear origin) {key : Word}
    (apart : ∀ cell ∈ machine.keyCell, ∀ index < saved.length, slot origin index ≠ cell)
    (executes : machine.step key = some next) :
    machine.fetch = some .reti ∧ Resumes origin next.context ∨
      machine.fetch ≠ some .reti ∧ Serving origin next.context next.memory := by
  obtain ⟨index, serving⟩ := serving
  obtain ⟨instruction, present, fetched⟩ := serving.fetch installed
  by_cases ends : instruction = .reti
  · subst ends
    rw [Machine.step, fetched] at executes
    cases executes
    refine .inl ⟨fetched, (serving.original present .k0).trans ?_, rfl, fun register other => ?_⟩
    · rw [Context.read_write, if_pos ⟨rfl, by decide⟩]
    · refine (serving.original present register).trans ?_
      rw [Context.read_write, if_neg fun both => other both.1]
  · obtain ⟨_, executed, following, -, there⟩ :=
      serving.proceed installed clear apart present fetched ends
    obtain rfl := Option.some.inj (executes.symm.trans executed)
    exact .inr ⟨fun isReti => ends (Option.some.inj (fetched.symm.trans isReti)), following, there⟩

/-- Where a handler may be interrupted, nothing depends on `$k0`. -/
theorem interruptible (serving : Serving origin machine.context machine.memory)
    (enabled : machine.context.enabled = true)
    (outside : ∀ index ∈ window, machine.context.pc ≠ point index) :
    ∃ index knowledge, annotations[index]? = some knowledge ∧
      machine.context.pc = point index ∧
      knowledge.Holds origin machine.context machine.memory ∧
      knowledge.registers .k0 = none ∧
      knowledge.registers .sp = some (.original .sp 100) := by
  obtain ⟨index, knowledge, annotated, here, holds⟩ := serving
  obtain ⟨inside, -⟩ := List.getElem?_eq_some_iff.mp annotated
  rw [annotations_length] at inside
  have allowed := (interruptible_iff index inside knowledge annotated
    (holds.enabled.symm.trans enabled)).mpr fun isWindow => outside index isWindow here
  simp only [Knowledge.interruptible, Bool.and_eq_true, decide_eq_true_eq] at allowed
  exact ⟨index, knowledge, annotated, here, holds, allowed⟩

theorem resume (serving : Serving origin machine.context machine.memory)
    (enabled : machine.context.enabled = true)
    (outside : ∀ index ∈ window, machine.context.pc ≠ point index) {resumed : Context}
    (resumes : Resumes machine.context resumed) : Serving origin resumed machine.memory := by
  obtain ⟨index, knowledge, annotated, here, holds, unknown, -⟩ :=
    serving.interruptible enabled outside
  obtain ⟨samePc, enabledAgain, sameRegisters⟩ := resumes
  refine ⟨index, knowledge, annotated, samePc.trans here, ?_, ?_, holds.slots⟩
  · exact enabledAgain.trans (enabled.symm.trans holds.enabled)
  · intro register value notZero known
    have other : register ≠ .k0 := by
      rintro rfl
      cases unknown.symm.trans known
    exact (sameRegisters register other).trans (holds.registers notZero known)

theorem pointer (serving : Serving origin machine.context machine.memory)
    (enabled : machine.context.enabled = true)
    (outside : ∀ index ∈ window, machine.context.pc ≠ point index) :
    machine.context.read .sp = origin.read .sp + 100 := by
  obtain ⟨index, knowledge, -, -, holds, -, known⟩ := serving.interruptible enabled outside
  rw [holds.registers (by decide) known, Value.eval, Context.read_write, if_neg (by decide)]

private theorem written (serving : Serving origin machine.context machine.memory)
    (installed : Installed machine.memory) {instruction : Instruction} {cell : Address}
    (fetched : machine.fetch = some instruction)
    (writes : instruction.written machine.context = some cell) :
    cell ∈ cells ∨ (∃ index < saved.length, cell = slot origin index) ∨
      cell ∈ machine.keyCell := by
  obtain ⟨index, serving⟩ := serving
  obtain ⟨found, present, fetch⟩ := serving.fetch installed
  obtain rfl := Option.some.inj (fetched.symm.trans fetch)
  obtain ⟨knowledge, annotated, -, holds⟩ := serving
  cases instruction with
  | sw rx offset ry =>
      obtain rfl := Option.some.inj writes
      rcases consistent_cases annotated present with ⟨ends, -⟩ | ⟨-, learned, known, -⟩
      · cases ends
      · rcases holds.stored known with isCell | isSlot
        · exact .inl isCell
        · exact .inr (.inl isSlot)
  | boni rx ry offset =>
      rw [Machine.keyCell, fetched]
      exact .inr (.inr writes)
  | _ => cases writes

theorem unchanged (serving : Serving origin machine.context machine.memory)
    (installed : Installed machine.memory) {key : Word} (executes : machine.step key = some next)
    {cell : Address} (notCell : cell ∉ cells)
    (notSlot : ∀ index < saved.length, cell ≠ slot origin index)
    (notKey : cell ∉ machine.keyCell) :
    next.memory cell = machine.memory cell := by
  obtain ⟨instruction, fetched, effect⟩ := Option.bind_eq_some_iff.mp executes
  refine Machine.memory_of_execute effect fun writes => ?_
  rcases serving.written installed fetched writes with isCell | ⟨index, inside, isSlot⟩ | isKey
  · exact notCell isCell
  · exact notSlot index inside isSlot
  · exact notKey isKey

theorem keeps (serving : Serving origin machine.context machine.memory)
    (installed : Installed machine.memory) (clear : Clear origin) {key : Word}
    (executes : machine.step key = some next) (apart : ∀ cell ∈ machine.keyCell, cell ∉ fixed) :
    Installed next.memory := by
  refine installed.congr fun cell isFixed => serving.unchanged installed executes ?_ ?_ ?_
  · exact notMem_cells_of_fixed isFixed
  · rintro index inside rfl
    exact clear index inside (List.mem_append_left _ isFixed)
  · exact fun isKey => apart cell isKey isFixed

theorem frame {current : Context} {memory changed : Memory}
    (serving : Serving origin current memory)
    (same : ∀ index < saved.length, changed (slot origin index) = memory (slot origin index)) :
    Serving origin current changed := by
  obtain ⟨index, knowledge, annotated, here, holds⟩ := serving
  exact ⟨index, knowledge, annotated, here, holds.frame same⟩

end Serving

/-! ## Progress -/

/-- Executions without an interrupt, with the words of the keyboard and a condition on every
instruction. -/
def Execution (allowed : Config → Prop) (start : Config) : List Word → Config → Prop :=
  Trace (fun before key after => before.step (.execute key) = some after ∧ allowed before) start

theorem Execution.run {permitted : Config → Prop} {allowed : Config → Event → Prop}
    (permits : ∀ config key, permitted config → allowed config (.execute key)) {start : Machine}
    {events : List Event} {before after : Config} {keys : List Word}
    (run : Run allowed start events before) (execution : Execution permitted before keys after) :
    Run allowed start (events ++ keys.map .execute) after := by
  induction execution with
  | nil => simpa using run
  | snoc _ last ih =>
      rw [List.map_append, ← List.append_assoc]
      exact ih.snoc ⟨last.1, permits _ _ last.2⟩

/-- The timer's handler goes forward, and skips nothing of the end. -/
theorem successors_timer : ∀ index < tiKeyhandler.length + tiInthandler.length - 1,
    tiKeyhandler.length ≤ index → ∀ instruction ∈ handlers[index]?, instruction ≠ .reti ∧
      ∀ following ∈ successors index instruction,
        index < following ∧ following ≤ max 77 (index + 1) := by
  decide +kernel

private theorem keyCell_timer {index : Nat} (timer : tiKeyhandler.length ≤ index)
    {instruction : Instruction} (present : handlers[index]? = some instruction)
    (context : Context) : instruction.keyCell context = none := by
  have stores : ∀ instruction ∈ tiInthandler, instruction.keyCell context = none := by
    simp [tiInthandler, save, countSecond, restore, la, Instruction.keyCell]
  rw [handlers, List.getElem?_append_right timer] at present
  exact stores instruction (List.mem_of_getElem? present)

/-- A timer handler that is not interrupted runs to every instruction of its end, and stores no word
of the keyboard. -/
theorem timer_runs {origin : Context} {outer : List Context} {target : Nat} (late : 77 ≤ target)
    (inside : target < handlers.length) (clear : Clear origin) {before : Config} {index : Nat}
    (waits : before.interrupted = origin :: outer)
    (serving : ServingAt index origin before.machine.context before.machine.memory)
    (installed : Installed before.machine.memory) (timer : tiKeyhandler.length ≤ index)
    (early : index ≤ target) :
    ∃ keys after, Execution (fun config => config.machine.keyCell = none) before keys after ∧
      after.interrupted = origin :: outer ∧
      ServingAt target origin after.machine.context after.machine.memory ∧
      Installed after.machine.memory := by
  induction distance : target - index using Nat.strongRecOn generalizing before index with
  | ind distance ih =>
      rcases Nat.eq_or_lt_of_le early with rfl | earlier
      · exact ⟨[], before, .nil, waits, serving, installed⟩
      obtain ⟨instruction, present, fetched⟩ := serving.fetch installed
      obtain ⟨goesOn, forward⟩ := successors_timer index (Nat.lt_of_lt_of_le earlier
        (Nat.le_sub_one_of_lt inside)) timer instruction present
      have noKey : before.machine.keyCell = none := by
        rw [Machine.keyCell, fetched]
        exact keyCell_timer timer present _
      obtain ⟨next, executes, following, follows, there⟩ :=
        serving.proceed installed clear (Machine.forall_keyCell noKey) present fetched goesOn
      have notReti : before.machine.fetch ≠ some .reti :=
        fun isReti => goesOn (Option.some.inj (fetched.symm.trans isReti))
      have steps := Config.step_execute notReti executes
      have kept : Installed next.memory :=
        Serving.keeps ⟨index, serving⟩ installed clear executes (Machine.forall_keyCell noKey)
      obtain ⟨further, near⟩ := forward following follows
      obtain ⟨keys, after, rest, reached⟩ := @ih (target - following) (by omega)
        { machine := next, interrupted := before.interrupted } following waits there kept
        (by omega) (by omega) rfl
      exact ⟨[0] ++ keys, after, Trace.append (Trace.nil.snoc ⟨steps, noKey⟩) rest, reached⟩

/-- A timer handler that is not interrupted reaches every instruction of its end. -/
theorem timer_reaches {allowed : Config → Event → Prop}
    (permits : ∀ config key, config.machine.keyCell = none → allowed config (.execute key))
    {start : Machine} {origin : Context} {outer : List Context} {target : Nat}
    (late : 77 ≤ target) (inside : target < handlers.length) (clear : Clear origin)
    {events : List Event} {before : Config} {index : Nat} (run : Run allowed start events before)
    (waits : before.interrupted = origin :: outer)
    (serving : ServingAt index origin before.machine.context before.machine.memory)
    (installed : Installed before.machine.memory) (timer : tiKeyhandler.length ≤ index)
    (early : index ≤ target) :
    ∃ events after, Run allowed start events after ∧ after.interrupted = origin :: outer ∧
      ServingAt target origin after.machine.context after.machine.memory ∧
      Installed after.machine.memory := by
  obtain ⟨keys, after, execution, reached⟩ :=
    timer_runs late inside clear waits serving installed timer early
  exact ⟨_, after, execution.run permits run, reached⟩

end CS2200.Interrupts
