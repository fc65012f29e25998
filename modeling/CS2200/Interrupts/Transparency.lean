import CS2200.Interrupts.Handlers
import CS2200.Library.Nesting
import Mathlib.Algebra.Ring.Nat

/-!
# Interrupts are transparent

In a run where no interrupt is taken between the restoring of `$k0` and `di`, every handler
resumes what it interrupted. The contexts that are interrupted are recorded on a stack; what a
handler does for its own context survives the handlers that interrupt it.
-/

namespace CS2200.Interrupts

/-! ## Runs -/

/-- The handlers are installed when the program is interrupted, and no save area overlaps what the
handlers need. -/
def Placed (config : Config) : Event → Prop
  | .execute _ => True
  | .interrupt _ =>
      (config.interrupted = [] → Installed config.machine.memory) ∧ Clear config.machine.context

/-- No handler is interrupted in its window. -/
def Timely (config : Config) : Event → Prop
  | .execute _ => True
  | .interrupt _ =>
      config.interrupted ≠ [] → ∀ index ∈ window, config.machine.context.pc ≠ point index

/-- A handler stores a word of the keyboard neither in a save area that is in use nor over
the handlers. -/
def Contained (config : Config) : Event → Prop
  | .execute _ =>
      config.interrupted ≠ [] → ∀ cell ∈ config.machine.keyCell,
        cell ∉ fixed ∧ ∀ origin ∈ config.interrupted, ∀ index < saved.length,
          slot origin index ≠ cell
  | .interrupt _ => True

/-- All three conditions. -/
def Careful (config : Config) (event : Event) : Prop :=
  Placed config event ∧ Timely config event ∧ Contained config event

/-! ## Save areas -/

/-- The save areas of the contexts that wait are clear, and each begins where the handler in the
next one has its stack pointer. -/
structure Stacked (waiting : List Context) : Prop where
  /-- A handler moves the stack pointer by 100. -/
  pointers : waiting.IsChain fun inner outer => inner.read .sp = outer.read .sp + 100
  /-- No save area overlaps what the handlers need. -/
  clear : ∀ origin ∈ waiting, Clear origin

private theorem Stacked.tail {origin : Context} {outer : List Context}
    (stacked : Stacked (origin :: outer)) : Stacked outer where
  pointers := stacked.pointers.of_cons
  clear waits present := stacked.clear waits (List.mem_cons_of_mem _ present)

private theorem Stacked.distance {waiting : List Context} (stacked : Stacked waiting) {depth : Nat}
    (inside : depth < waiting.length) :
    address (waiting[0].read .sp) =
      address (waiting[depth].read .sp) + BitVec.ofNat 24 (100 * depth) := by
  induction depth with
  | zero => exact (BitVec.add_zero _).symm
  | succ depth ih =>
      have next := List.isChain_iff_getElem.mp stacked.pointers depth inside
      have hundred : address 100 = BitVec.ofNat 24 100 := rfl
      rw [ih (Nat.lt_of_succ_lt inside), next, address_add, hundred, BitVec.add_assoc,
        ← BitVec.ofNat_add]
      congr 2
      omega

/-- Going around the memory in steps of 100 words, some area of 14 words overlaps any 94 words. -/
theorem exists_overlap {top depth : Nat} (around : 2 ^ 24 ≤ 100 * depth + 13) :
    ∃ between ≤ depth, ∃ index < 14, ∃ offset < 94, ∀ bottom,
      top = (bottom + 100 * between) % 2 ^ 24 →
        (bottom + (100 - index)) % 2 ^ 24 = 62 + offset := by
  let distance := (top + 38) % 2 ^ 24
  have distanceEq : distance = (top + 38) % 2 ^ 24 := rfl
  by_cases early : distance % 100 < 94
  · refine ⟨distance / 100, by omega, 0, by omega, distance % 100, early, fun bottom => ?_⟩
    omega
  · refine ⟨distance / 100, by omega, 6, by omega, distance % 100 - 6, by omega, fun bottom => ?_⟩
    omega

/-- The save areas of nested handlers are disjoint, since otherwise one of them would overlap the
code of the handlers. -/
theorem Stacked.slot_ne {waiting : List Context} (stacked : Stacked waiting) {depth : Nat}
    (positive : 0 < depth) (inside : depth < waiting.length) {left right : Nat}
    (leftInside : left < saved.length) (rightInside : right < saved.length) :
    slot waiting[0] left ≠ slot waiting[depth] right := by
  intro same
  have lengthEq : saved.length = 14 := rfl
  have position : ∀ between, (deep : between < waiting.length) →
      (address (waiting[0].read .sp)).toNat =
        ((address (waiting[between].read .sp)).toNat + 100 * between) % 2 ^ 24 := by
    intro between deep
    have distance := congrArg BitVec.toNat (stacked.distance deep)
    rwa [BitVec.toNat_add, BitVec.toNat_ofNat, Nat.add_mod_mod] at distance
  have around : 2 ^ 24 ≤ 100 * depth + 13 := by
    rw [slot, slot, stacked.distance inside, BitVec.add_assoc, ← BitVec.ofNat_add] at same
    have offsets := congrArg BitVec.toNat ((BitVec.add_right_inj _).mp same)
    simp only [BitVec.toNat_ofNat] at offsets
    by_contra short
    rcases Nat.lt_or_ge (100 * depth + (100 - left)) (2 ^ 24) with below | above <;> omega
  obtain ⟨between, less, index, indexInside, offset, isCode, overlaps⟩ :=
    @exists_overlap (address (waiting[0].read .sp)).toNat depth around
  have deep : between < waiting.length := Nat.lt_of_le_of_lt less inside
  have overlap : slot waiting[between] index = address (point offset) := by
    have meets := overlaps _ (position between deep)
    refine BitVec.eq_of_toNat_eq ?_
    rw [slot, BitVec.toNat_add, BitVec.toNat_ofNat, Nat.add_mod_mod, meets, point, address,
      BitVec.toNat_setWidth, BitVec.toNat_ofNat, Label.tiKeyhandler]
    omega
  refine stacked.clear _ (List.getElem_mem deep) index indexInside ?_
  rw [overlap]
  exact List.mem_append_left _ (mem_fixed_of_code isCode)

/-! ## Every reachable state -/

/-- While something is interrupted, the handlers are installed, the save areas are stacked and
every handler is served. -/
structure Sound (config : Config) : Prop where
  /-- The handlers are installed while one of them is executed. -/
  installed : config.interrupted ≠ [] → Installed config.machine.memory
  /-- The save areas are disjoint. -/
  stacked : Stacked config.interrupted
  /-- Every handler does what it has to do. -/
  nested : Nested Serving Resumes config.interrupted config.machine.context config.machine.memory

namespace Sound

variable {before after : Config}

theorem start (machine : Machine) : Sound { machine, interrupted := [] } where
  installed nonempty := absurd rfl nonempty
  stacked := ⟨.nil, nofun⟩
  nested := trivial

theorem interrupt (sound : Sound before) {source : Source}
    (placed : Placed before (.interrupt source)) (timely : Timely before (.interrupt source))
    (steps : before.step (.interrupt source) = some after) : Sound after := by
  obtain ⟨machine, waiting⟩ := before
  simp only [Config.step, Option.ite_none_right_eq_some, Option.some.injEq] at steps
  obtain ⟨enabled, rfl⟩ := steps
  obtain ⟨installedFirst, clear⟩ := placed
  have installed : Installed machine.memory := by
    by_cases first : waiting = []
    · exact installedFirst first
    · exact sound.installed first
  have outside : ∀ origin ∈ waiting.head?, ∀ index ∈ window, machine.context.pc ≠ point index := by
    intro origin waits
    refine timely fun none => ?_
    have none : waiting = [] := none
    subst none
    cases waits
  refine ⟨fun _ => installed, ⟨?_, ?_⟩, ?_⟩
  · cases waiting with
    | nil => exact .singleton _
    | cons origin outer =>
        exact .cons_cons (sound.nested.1.pointer enabled (outside origin rfl)) sound.stacked.pointers
  · rintro origin (_ | ⟨_, waits⟩)
    · exact clear
    · exact sound.stacked.clear origin waits
  · refine sound.nested.interrupt ?_ ⟨_, ServingAt.begin installed source⟩
    intro origin waits resumed resumes serving
    exact serving.resume enabled (outside origin waits) resumes

private theorem execute (sound : Sound before) {key : Word}
    (contained : Contained before (.execute key))
    (steps : before.step (.execute key) = some after) : Sound after := by
  obtain ⟨machine, waiting⟩ := before
  obtain ⟨next, executes, rfl⟩ := Option.map_eq_some_iff.mp steps
  cases waiting with
  | nil =>
      have none : (if machine.fetch = some .reti then [] else []) = ([] : List Context) := ite_self _
      simp only [List.tail_nil, none]
      exact start next
  | cons origin outer =>
      have stored := contained (List.cons_ne_nil _ _)
      have installed : Installed machine.memory := sound.installed (List.cons_ne_nil _ _)
      have stacked := sound.stacked
      have clear := stacked.clear origin List.mem_cons_self
      obtain ⟨serving, resume⟩ := sound.nested
      have installedAfter : Installed next.memory :=
        serving.keeps installed clear executes fun cell isKey => (stored cell isKey).1
      have resumeAfter : ∀ resumed, Resumes origin resumed →
          Nested Serving Resumes outer resumed next.memory := by
        intro resumed resumes
        refine (resume resumed resumes).frame fun waits present context outerServing =>
          outerServing.frame fun index inside => serving.unchanged installed executes ?_ ?_ ?_
        · exact fun isCell =>
            stacked.tail.clear waits present index inside (List.mem_append_right _ isCell)
        · intro other otherInside same
          obtain ⟨depth, deep, rfl⟩ := List.getElem_of_mem present
          exact stacked.slot_ne (Nat.succ_pos depth) (Nat.succ_lt_succ deep) otherInside inside
            same.symm
        · exact fun isKey =>
            (stored _ isKey).2 waits (List.mem_cons_of_mem _ present) index inside rfl
      have apart := fun cell isKey => (stored cell isKey).2 origin List.mem_cons_self
      rcases serving.step installed clear apart executes with ⟨ends, resumes⟩ | ⟨goesOn, goingOn⟩
      · simp only [if_pos ends, List.tail_cons]
        exact ⟨fun _ => installedAfter, stacked.tail, resumeAfter _ resumes⟩
      · simp only [if_neg goesOn]
        exact ⟨fun _ => installedAfter, stacked, goingOn, resumeAfter⟩

theorem of_run {start : Machine} {events : List Event} {config : Config}
    (run : Run Careful start events config) : Sound config := by
  refine run.invariant (Sound.start start) ?_
  rintro before (key | source) after sound ⟨steps, placed, timely, contained⟩
  · exact sound.execute contained steps
  · exact sound.interrupt placed timely steps

end Sound

/-- In every run where no handler is interrupted in its window, and where neither the save areas
nor the buffer of the keyboard overlap what is in use, a handler that ends resumes what it
interrupted, with every register but `$k0`. -/
theorem interrupts_transparent {start resumed : Machine} {events : List Event} {before : Config}
    {interrupted : Context} {outer : List Context} {key : Word}
    (run : Run Careful start events before) (waits : before.interrupted = interrupted :: outer)
    (ends : before.step (.execute key) = some { machine := resumed, interrupted := outer }) :
    Resumes interrupted resumed.context := by
  have sound := Sound.of_run run
  obtain ⟨machine, waiting⟩ := before
  obtain ⟨fetched, executes⟩ := Config.reti_of_step waits ends
  obtain rfl : waiting = interrupted :: outer := waits
  have apart : ∀ cell ∈ machine.keyCell, ∀ index < saved.length,
      slot interrupted index ≠ cell := Machine.forall_keyCell (Machine.keyCell_of_reti fetched)
  have clear := sound.stacked.clear interrupted List.mem_cons_self
  have installed : Installed machine.memory := sound.installed (List.cons_ne_nil _ _)
  rcases sound.nested.1.step installed clear apart executes with ⟨-, resumes⟩ | ⟨goesOn, -⟩
  · exact resumes
  · exact absurd fetched goesOn

/-- The program of Project 2 is about to compute the factorial. -/
def running : Machine where
  context :=
    { pc := BitVec.ofNat 32 Label.factorial
      registers := fun register => if register = .sp then 0xa00000 else 0
      enabled := true }
  memory cell :=
    if cell = 1 then point Source.timer.handler
    else if cell = 3 then point Source.keyboard.handler
    else image.getD cell.toNat 0

theorem running_installed : Installed running.memory := by decide +kernel

theorem running_clear : Clear running.context := by decide +kernel

private theorem clear_above_running {context : Context}
    (pointer : context.read .sp = running.context.read .sp + 100) : Clear context := by
  have above : ∀ index < saved.length,
      address 0xa00064 + BitVec.ofNat 24 (100 - index) ∉ fixed ++ cells := by decide +kernel
  intro index inside
  rw [slot, pointer]
  exact above index inside

/-- The timer interrupts its handler at the fourth register that is restored; both handlers end. -/
theorem interrupts_transparent_nested :
    ∃ events before inner between later final resumed, Run Careful running events before ∧
      before.interrupted = [inner, running.context] ∧
      before.step (.execute 0) =
        some { machine := between, interrupted := [running.context] } ∧
      Resumes inner between.context ∧
      Run Careful running (events ++ [.execute 0] ++ later) final ∧
      final.step (.execute 0) = some { machine := resumed, interrupted := [] } ∧
      Resumes running.context resumed.context := by
  have permits : ∀ (config : Config) (key : Word), config.machine.keyCell = none →
      Careful config (.execute key) := by
    intro config key noKey
    exact ⟨trivial, trivial, fun _ => Machine.forall_keyCell noKey⟩
  have first : Careful { machine := running, interrupted := [] } (.interrupt .timer) :=
    ⟨⟨fun _ => running_installed, running_clear⟩, absurd rfl, trivial⟩
  obtain ⟨_, middle, run, waits, ⟨knowledge, annotated, here, holds⟩, installed⟩ :=
    timer_reaches permits (by decide : 77 ≤ 80) (by decide) running_clear
      ((Run.nil running).interrupt rfl first) rfl (ServingAt.begin running_installed .timer)
      running_installed (by decide) (by decide)
  -- The handler has enabled interrupts again, and is not in its window yet.
  have known : ∀ knowledge ∈ annotations[80]?, knowledge.enabled = true ∧
      knowledge.registers .sp = some (.original .sp 100) := by decide +kernel
  obtain ⟨enabled, isPointer⟩ := known knowledge annotated
  have pointer : middle.machine.context.read .sp = running.context.read .sp + 100 := by
    rw [holds.registers (by decide) isPointer, Value.eval, Context.read_write, if_neg (by decide)]
  have outside : ∀ index ∈ window, middle.machine.context.pc ≠ point index := by
    rw [here]
    decide
  have clear := clear_above_running pointer
  have second : Careful middle (.interrupt .timer) :=
    ⟨⟨fun _ => installed, clear⟩, fun _ => outside, trivial⟩
  obtain ⟨events, before, nested, bothWait, serving, installed⟩ :=
    timer_reaches permits (by decide : 77 ≤ 93) (by decide) clear
      (run.interrupt (holds.enabled.trans enabled) second) (congrArg (List.cons _) waits)
      (ServingAt.begin installed .timer) installed (by decide) (by decide)
  obtain ⟨between, ends⟩ : ∃ between, before.step (.execute 0) =
      some { machine := between, interrupted := [running.context] } :=
    ⟨_, serving.finish installed rfl bothWait 0⟩
  have resumes := interrupts_transparent nested bothWait ends
  have noKey := Machine.keyCell_of_reti (Config.reti_of_step bothWait ends).1
  have continued := nested.snoc ⟨ends, permits before 0 noKey⟩
  -- The handler of the program's context goes on where it was interrupted.
  have sound := Sound.of_run continued
  obtain ⟨index, knowledge, annotated, there, holds⟩ := sound.nested.1
  obtain rfl : index = 80 := by
    obtain ⟨inside, -⟩ := List.getElem?_eq_some_iff.mp annotated
    rw [annotations_length] at inside
    have short : handlers.length = 94 := by decide
    have number := congrArg BitVec.toNat (there.symm.trans (resumes.1.trans here))
    simp only [point, BitVec.toNat_ofNat, Label.tiKeyhandler] at number
    omega
  obtain ⟨keys, final, execution, waits, serving, installed⟩ :=
    timer_runs (by decide : 77 ≤ 93) (by decide) running_clear rfl
      ⟨knowledge, annotated, there, holds⟩ (sound.installed (List.cons_ne_nil _ _)) (by decide)
      (by decide)
  have finished := execution.run permits continued
  have endsLast := serving.finish installed rfl waits 0
  exact ⟨events, before, _, between, _, final, _, nested, bothWait, ends, resumes, finished,
    endsLast, interrupts_transparent finished waits endsLast⟩

/-! ## The window -/

/-- A context at `di` in the timer's handler has its stack pointer back. -/
theorem clear_of_di {origin current : Context} {memory : Memory} (clear : Clear origin)
    (serving : ServingAt 92 origin current memory) :
    current.enabled = true ∧ Clear current := by
  obtain ⟨knowledge, annotated, -, holds⟩ := serving
  have known : ∀ knowledge ∈ annotations[92]?, knowledge.enabled = true ∧
      knowledge.registers .sp = some (.original .sp 0) := by decide +kernel
  obtain ⟨enabled, pointer⟩ := known knowledge annotated
  refine ⟨holds.enabled.trans enabled, ?_⟩
  have restored : current.read .sp = origin.read .sp := by
    rw [holds.registers (by decide) pointer, Value.eval, Context.read_write, if_neg (by decide)]
    exact BitVec.add_zero _
  intro index inside
  rw [slot, restored]
  exact clear index inside

/-- Whatever the timer interrupts, if the timer interrupts its handler at `di`, the handler resumes
this instruction when it ends. -/
theorem resumes_di {start : Machine} (installed : Installed start.memory)
    (clear : Clear start.context) (enabled : start.context.enabled = true) :
    ∃ events before resumed, Run Placed start events before ∧
      before.interrupted = [start.context] ∧
      before.step (.execute 0) = some { machine := resumed, interrupted := [] } ∧
      resumed.context.pc = point 92 := by
  have permits : ∀ (config : Config) (key : Word), config.machine.keyCell = none →
      Placed config (.execute key) := fun _ _ _ => trivial
  have first : Placed { machine := start, interrupted := [] } (.interrupt .timer) :=
    ⟨fun _ => installed, clear⟩
  obtain ⟨_, atDi, run, waits, serving, kept⟩ :=
    timer_reaches permits (by decide : 77 ≤ 92) (by decide) clear
      ((Run.nil start).interrupt enabled first) rfl (ServingAt.begin installed .timer) installed
      (by decide) (by decide)
  obtain ⟨stillEnabled, clearAgain⟩ := clear_of_di clear serving
  obtain ⟨-, -, here, -⟩ := serving
  have second : Placed atDi (.interrupt .timer) := ⟨fun _ => kept, clearAgain⟩
  obtain ⟨_, atReti, run, waits, serving, kept⟩ :=
    timer_reaches permits (by decide : 77 ≤ 93) (by decide) clearAgain
      (run.interrupt stillEnabled second) (congrArg (List.cons _) waits)
      (ServingAt.begin kept .timer) kept (by decide) (by decide)
  have returns := serving.finish kept rfl waits 0
  have saved : (atDi.machine.context.write .k0 atDi.machine.context.pc).read .k0 = point 92 := by
    rw [Context.read_write, if_pos ⟨rfl, by decide⟩, here]
  have original := (serving.original rfl .k0).trans saved
  rw [saved] at returns
  let back : Machine :=
    { atReti.machine with
      context := { atReti.machine.context with pc := point 92, enabled := true } }
  let disabled : Machine := { back with context := { back.context.next with enabled := false } }
  have keptBack : Installed back.memory := kept
  have keptDisabled : Installed disabled.memory := kept
  have isDi : back.fetch = some .di := keptBack.fetch rfl rfl
  have isReti : disabled.fetch = some .reti := keptDisabled.fetch rfl (point_add 92 1)
  have disables : back.step 0 = some disabled := by
    rw [Machine.step, isDi]
    rfl
  have goesOn : back.fetch ≠ some .reti := by
    rw [isDi]
    decide
  have atDiAgain := run.snoc ⟨returns, trivial⟩
  have atRetiAgain := atDiAgain.snoc ⟨Config.step_execute goesOn disables, trivial⟩
  let resumed : Machine :=
    { disabled with
      context := { disabled.context with pc := disabled.context.read .k0, enabled := true } }
  refine ⟨_, _, resumed, atRetiAgain, rfl, ?_, original⟩
  rw [Config.step, Machine.step, isReti, if_pos rfl]
  rfl

/-- Without the condition on the window, a handler need not resume what it interrupted. -/
theorem not_transparent :
    ¬ ∀ {start resumed : Machine} {events : List Event} {before : Config} {interrupted : Context}
      {outer : List Context} {key : Word}, Run Placed start events before →
      before.interrupted = interrupted :: outer →
      before.step (.execute key) = some { machine := resumed, interrupted := outer } →
      Resumes interrupted resumed.context := by
  intro transparent
  obtain ⟨events, before, resumed, run, waits, ends, pc⟩ :=
    resumes_di running_installed running_clear rfl
  have same := (transparent run waits ends).1
  rw [pc] at same
  exact absurd same (by decide)

end CS2200.Interrupts
