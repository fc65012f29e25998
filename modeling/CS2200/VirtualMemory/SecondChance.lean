import CS2200.VirtualMemory.ClockSweep

/-!
# Second chances

A sweep takes the first frame whose page has no used bit, and the page of frame 0, whose bit it has
just cleared, if there is none. This spares the pages that were accessed since their used bits were
cleared as long as an access sets the used bit. A page fault does, but an access to a resident page
leaves it as it is: in runs in which such an access finds the bit set, no page is evicted that was
accessed since its bit was cleared.

Pages are named by their page tables, since an identifier may be forked again.
-/

namespace CS2200.VirtualMemory

/-- The used bit of a page is cleared by the sweep of an action. -/
def Action.clears (config : Config) (os : Os) (action : Action) (table : Nat) (vpn : Vpn) : Bool :=
  (os.tables table vpn).used && !((action.swept config os).tables table vpn).used

/-- A state, and the pages that were accessed since the sweep last cleared their used bits. -/
structure History extends State where
  /-- The recently accessed pages. -/
  recent : Nat → Vpn → Bool

namespace History

/-- The start of a run: no page was accessed. -/
def init : History := { simInit with recent := fun _ _ => false }

/-- The recently accessed pages when the sweep of an action ends. -/
def recentAtChoice (config : Config) (history : History) (action : Action) (table : Nat)
    (vpn : Vpn) : Bool :=
  history.recent table vpn && !action.clears config history.toOs table vpn

/-- The recently accessed pages after an action. -/
def recentAfter (config : Config) (history : History) (action : Action) (table : Nat)
    (vpn : Vpn) : Bool :=
  decide (action.Touches config history.toOs table vpn) ||
    history.recentAtChoice config action table vpn

/-- One possible action that does not abort. -/
def Step (config : Config) (before : History) (action : Action) (after : History) : Prop :=
  PossibleStep config before.toState action after.toState ∧
    after.recent = before.recentAfter config action

/-- The history after one possible action. -/
def act (config : Config) (history : History) (action : Action) : Option History :=
  (possibleAct config history.toState action).map fun after =>
    { after with recent := history.recentAfter config action }

theorem step_of_act {config : Config} {before after : History} {action : Action}
    (acts : before.act config action = some after) : Step config before action after := by
  obtain ⟨final, possible, rfl⟩ := Option.map_eq_some_iff.mp acts
  simp only [possibleAct, Option.ite_none_right_eq_some, Option.map_eq_some_iff] at possible
  obtain ⟨possible, ⟨_, output⟩, performs, rfl⟩ := possible
  exact ⟨⟨possible, output, performs⟩, rfl⟩

end History

/-- A frame holds a page. -/
def Os.Holds (os : Os) (frame table : Nat) (vpn : Vpn) : Prop :=
  ∃ pcb, os.rlt frame = { pcb := some pcb, vpn } ∧ (os.procList pcb).pagetable = some table

/-- A page of a process is resident. -/
def Os.Resident (os : Os) (table : Nat) (vpn : Vpn) : Prop :=
  (∃ pcb, (os.procList pcb).pagetable = some table) ∧ (os.tables table vpn).valid = true

/-- If all frames are occupied, and `get_free_frame` chooses a resident page that was accessed since
its used bit was cleared, then so was every other resident page. -/
def History.SecondChance (config : Config) (history : History) (action : Action) : Prop :=
  history.full config = true → ∀ swept pfn,
    action.choice config history.toOs = some (swept, pfn) → ∀ table vpn,
      history.Holds pfn.toNat table vpn → history.Resident table vpn →
      history.recentAtChoice config action table vpn = true → ∀ other page,
        history.Resident other page → history.recentAtChoice config action other page = true

/-- An access to a resident page finds its used bit set. -/
def Action.findsUsed (config : Config) (os : Os) : Action → Bool
  | .fork _ | .switch _ => true
  | .load va | .store va _ =>
      os.currentPagetable.all fun table =>
        !(os.tables table (config.vaddrPagenum va)).valid ||
          (os.tables table (config.vaddrPagenum va)).used

/-! ## The victim has no used bit -/

section Victim

variable {config : Config} {os swept : Os} {frames : List Nat} {pfn : Pfn}

private theorem clockSweep_used (sweep : clockSweep os frames = some (swept, pfn)) {table : Nat}
    {vpn : Vpn}
    (unused : (os.tables table vpn).used = false) : (swept.tables table vpn).used = false := by
  induction frames generalizing os with
  | nil =>
      obtain ⟨rfl, -⟩ : os = swept ∧ 0 = pfn := by simpa [clockSweep] using sweep
      exact unused
  | cons frame frames ih =>
      simp only [clockSweep, bind, Option.bind_eq_some_iff] at sweep
      obtain ⟨pcb, -, victim, -, sweep⟩ := sweep
      split at sweep
      · refine ih sweep ?_
        by_cases here : table = victim ∧ vpn = (os.rlt frame).vpn
        · simp [Os.modifyPte, here]
        · rw [Os.modifyPte_other _ _ here]
          exact unused
      · obtain ⟨rfl, -⟩ : os = swept ∧ _ = pfn := by simpa using sweep
        exact unused

/-- After a sweep the pages in the frames that it has looked at have no used bits. The frame which it
takes is one of them. -/
theorem clockSweep_unused (sweep : clockSweep os frames = some (swept, pfn)) :
    ∃ looked, looked <+: frames ∧
      (∀ frame ∈ looked, ∀ table vpn, os.Holds frame table vpn →
        (swept.tables table vpn).used = false) ∧
      (looked = frames ∧ pfn = 0 ∨ ∃ frame ∈ looked, pfn = .ofNat frame) := by
  induction frames generalizing os with
  | nil =>
      obtain ⟨-, rfl⟩ : os = swept ∧ 0 = pfn := by simpa [clockSweep] using sweep
      exact ⟨[], List.prefix_rfl, fun frame member => absurd member List.not_mem_nil,
        .inl ⟨rfl, rfl⟩⟩
  | cons frame frames ih =>
      simp only [clockSweep, bind, Option.bind_eq_some_iff] at sweep
      obtain ⟨pcb, owner, victim, pagetable, sweep⟩ := sweep
      have held : ∀ {table vpn}, os.Holds frame table vpn →
          table = victim ∧ vpn = (os.rlt frame).vpn := by
        rintro table vpn ⟨owning, rlt, owningTable⟩
        rw [rlt] at owner ⊢
        obtain rfl := Option.some.inj owner
        exact ⟨Option.some.inj (owningTable.symm.trans pagetable), rfl⟩
      split at sweep
      case isTrue =>
        obtain ⟨looked, prefixed, unused, chosen⟩ := ih sweep
        refine ⟨frame :: looked, List.cons_prefix_cons.mpr ⟨rfl, prefixed⟩, ?_, ?_⟩
        · intro other member table vpn holds
          rcases List.mem_cons.mp member with rfl | later
          · obtain ⟨rfl, rfl⟩ := held holds
            exact clockSweep_used sweep (by simp)
          · exact unused other later table vpn holds
        · rcases chosen with ⟨rfl, rfl⟩ | ⟨other, member, rfl⟩
          · exact .inl ⟨rfl, rfl⟩
          · exact .inr ⟨other, List.mem_cons_of_mem frame member, rfl⟩
      case isFalse free =>
        obtain ⟨rfl, rfl⟩ : os = swept ∧ UInt16.ofNat frame = pfn := by simpa using sweep
        refine ⟨[frame], by simp, ?_, .inr ⟨frame, List.mem_singleton_self frame, rfl⟩⟩
        intro other member table vpn holds
        obtain rfl := List.mem_singleton.mp member
        obtain ⟨rfl, rfl⟩ := held holds
        simpa using free

/-- The page that `get_free_frame` takes from a full memory has no used bit. -/
theorem getFreeFrame_unused (positive : 0 < config.numFrames) (full : os.full config = true)
    (chosen : getFreeFrame config os = some (swept, pfn)) {table : Nat} {vpn : Vpn}
    (holds : os.Holds pfn.toNat table vpn) : (swept.tables table vpn).used = false := by
  have none : (List.range config.numFrames).find? (fun frame => (os.rlt frame).pcb = none) = none :=
    List.find?_eq_none.mpr fun frame member => by
      simpa using full_iff.mp full frame (List.mem_range.mp member)
  unfold getFreeFrame at chosen
  rw [none] at chosen
  obtain ⟨looked, prefixed, unused, taken⟩ := clockSweep_unused chosen
  refine unused pfn.toNat ?_ table vpn holds
  have initial : looked = List.range looked.length := by
    have taken := List.prefix_iff_eq_take.mp prefixed
    have short : looked.length ≤ config.numFrames := by simpa using prefixed.length_le
    rwa [List.take_range, Nat.min_eq_left short] at taken
  rcases taken with ⟨rfl, rfl⟩ | ⟨frame, member, rfl⟩
  · exact List.mem_range.mpr positive
  · -- The number of the frame is truncated: a smaller frame was looked at as well.
    rw [initial, List.mem_range] at member ⊢
    rw [UInt16.toNat_ofNat']
    exact (Nat.mod_le frame _).trans_lt member

end Victim

/-! ## Runs -/

section Runs

variable {config : Config} {before after history : History} {action : Action}
  {actions : List Action}

/-- Resident pages that were recently accessed have their used bits. -/
def History.RecentUsed (history : History) : Prop :=
  ∀ table vpn, (history.tables table vpn).valid = true → history.recent table vpn = true →
    (history.tables table vpn).used = true

/-- A recently accessed page that the sweep has not cleared has its used bit. -/
theorem History.RecentUsed.atChoice (used : history.RecentUsed) {swept : Os} {pfn : Pfn}
    (choice : action.choice config history.toOs = some (swept, pfn)) {table : Nat} {vpn : Vpn}
    (valid : (history.tables table vpn).valid = true)
    (recent : history.recentAtChoice config action table vpn = true) :
    (swept.tables table vpn).used = true := by
  obtain ⟨recent, kept⟩ := Bool.and_eq_true_iff.mp recent
  simpa [Action.clears, Action.swept, choice, used table vpn valid recent] using kept

private theorem Action.Touches.unique {os : Os} {table other : Nat} {vpn page : Vpn}
    (first : action.Touches config os table vpn) (second : action.Touches config os other page) :
    table = other ∧ vpn = page := by
  cases action with
  | fork | switch => exact first.elim
  | load | store =>
      exact ⟨Option.some.inj (first.1.symm.trans second.1), first.2.symm.trans second.2⟩

private theorem Action.Touches.findsUsed {os : Os} {table : Nat} {vpn : Vpn}
    (touches : action.Touches config os table vpn) (finds : action.findsUsed config os = true)
    (valid : (os.tables table vpn).valid = true) : (os.tables table vpn).used = true := by
  cases action with
  | fork | switch => exact touches.elim
  | load va | store va _ =>
      obtain ⟨register, rfl⟩ := touches
      simpa [Action.findsUsed, register, valid] using finds

/-- Every action keeps the TLB coherent, also if an identifier is forked again. -/
theorem act_tlbInvariant {before after : State} {output : Option Word}
    (invariant : TlbInvariant config before) (step : act config before action = some (after, output)) :
    TlbInvariant config after := by
  cases action with
  | fork pid =>
      obtain ⟨forked, fork, equal⟩ := Option.map_eq_some_iff.mp step
      obtain ⟨rfl, -⟩ := Prod.mk.inj equal
      exact procFork_tlbInvariant invariant fork
  | switch pid =>
      obtain ⟨switched, switch, equal⟩ := Option.map_eq_some_iff.mp step
      obtain ⟨rfl, -⟩ := Prod.mk.inj equal
      exact procSwitch_tlbInvariant invariant switch
  | load va =>
      obtain ⟨⟨loaded, data⟩, load, equal⟩ := Option.map_eq_some_iff.mp step
      obtain ⟨rfl, -⟩ := Prod.mk.inj equal
      exact memLoad_tlbInvariant invariant load
  | store va data =>
      obtain ⟨stored, store, equal⟩ := Option.map_eq_some_iff.mp step
      obtain ⟨rfl, -⟩ := Prod.mk.inj equal
      exact memStore_tlbInvariant invariant store

/-- An action that finds the used bit of a resident page set leaves those of recently accessed pages
set. -/
theorem History.Step.recentUsed (step : History.Step config before action after)
    (coherent : TlbCoherent config before.toState) (finds : action.findsUsed config before.toOs = true)
    (used : before.RecentUsed) : after.RecentUsed := by
  obtain ⟨⟨-, output, performs⟩, sameRecent⟩ := step
  intro table vpn valid recent
  rw [sameRecent, recentAfter, Bool.or_eq_true, decide_eq_true_eq] at recent
  rcases act_brought coherent performs with ⟨-, -, entries⟩ |
    ⟨swept, pfn, brought, page, choice, touches, -, -, entries⟩
  · have same := entries table vpn valid
    rw [same] at valid ⊢
    rcases recent with touches | recent
    · exact touches.findsUsed finds valid
    · exact used table vpn valid (Bool.and_eq_true_iff.mp recent).1
  · rcases entries table vpn valid with ⟨-, -, -, bit⟩ | ⟨other, same⟩
    · exact bit
    · rw [same] at valid ⊢
      rw [(Action.choice_usedOnly choice).valid] at valid
      rcases recent with touched | recent
      · exact absurd (touched.unique touches) other
      · exact used.atChoice choice valid recent

/-- If every access of a run to a resident page finds its used bit set, then after every part of the
run `get_free_frame` gives the recently accessed pages a second chance. -/
theorem second_chance (accepted : config.Accepted)
    (trace : Trace (fun before action after => History.Step config before action after ∧
      action.findsUsed config before.toOs = true) History.init actions history) (action : Action) :
    history.SecondChance config action := by
  obtain ⟨-, used⟩ : TlbInvariant config history.toState ∧ history.RecentUsed := by
    induction trace with
    | nil =>
        exact ⟨simInit_tlbInvariant config, fun table vpn valid => absurd valid Bool.false_ne_true⟩
    | snoc _ last ih =>
        obtain ⟨invariant, used⟩ := ih
        obtain ⟨step, finds⟩ := last
        obtain ⟨output, performs⟩ := step.1.2
        exact ⟨act_tlbInvariant invariant performs, step.recentUsed invariant.coherent finds used⟩
  intro full swept pfn choice table vpn holds resident recent
  have bit := used.atChoice choice resident.2 recent
  rw [getFreeFrame_unused accepted.numFrames_pos full (Action.choice_eq_some choice) holds] at bit
  cases bit

/-- A page that is accessed again while it has its used bit stays when another one is brought in. -/
theorem second_chance_fourFrames : ∃ history,
    Trace (fun before action after => History.Step fourFrames before action after ∧
        action.findsUsed fourFrames before.toOs = true) History.init
      [.fork 0, .switch 0, .load 0, .load 2, .load 4, .load 6, .load 8, .load 8] history ∧
    history.SecondChance fourFrames (.load 10) := by
  obtain ⟨history, folds⟩ := Option.isSome_iff_exists.mp (by decide +kernel :
    (List.foldlM (fun (before : History) (action : Action) =>
        if action.findsUsed fourFrames before.toOs = true then before.act fourFrames action else none)
      History.init
      [.fork 0, .switch 0, .load 0, .load 2, .load 4, .load 6, .load 8, .load 8]).isSome = true)
  have trace : Trace (fun before action after => History.Step fourFrames before action after ∧
      action.findsUsed fourFrames before.toOs = true) History.init _ history :=
    (Trace.of_foldlM folds).mono fun step => by
      obtain ⟨finds, performs⟩ := Option.ite_none_right_eq_some.mp step
      exact ⟨History.step_of_act performs, finds⟩
  exact ⟨history, trace, second_chance ⟨[.memSize 3], some "references", rfl⟩ trace (.load 10)⟩

end Runs

/-- The settings of `-m 3 -t 0`: four frames and no TLB. -/
def fourFramesNoTlb : Config := { fourFrames with tlbSize := 0 }

/-- A page fault clears the used bits of the pages in frames 1 to 3. Page 1 is loaded from and evicted
by the next page fault, although page 2 has not been accessed in between; the load hits in the TLB as
well as in the page table. -/
theorem recent_page_evicted :
    (fourFrames.Accepted ∧ ∃ history, Trace (History.Step fourFrames) History.init
        [.fork 0, .switch 0, .load 0, .load 2, .load 4, .load 6, .load 8, .load 2] history ∧
      ¬ history.SecondChance fourFrames (.load 10)) ∧
    fourFramesNoTlb.Accepted ∧ ∃ history, Trace (History.Step fourFramesNoTlb) History.init
        [.fork 0, .switch 0, .load 0, .load 2, .load 4, .load 6, .load 8, .load 2] history ∧
      ¬ history.SecondChance fourFramesNoTlb (.load 10) := by
  have evicted : ∀ config : Config,
      ([.fork 0, .switch 0, .load 0, .load 2, .load 4, .load 6, .load 8, .load 2].foldlM
          (History.act config) History.init).any (fun history =>
        (Action.choice config history.toOs (.load 10)).any fun found =>
          found.2 = 1 ∧ history.full config = true ∧ history.rlt 1 = { pcb := some 0, vpn := 1 } ∧
            (history.procList 0).pagetable = some 0 ∧ (history.tables 0 1).valid = true ∧
            (history.tables 0 2).valid = true ∧
            history.recentAtChoice config (.load 10) 0 1 = true ∧
            history.recentAtChoice config (.load 10) 0 2 = false) = true →
      ∃ history, Trace (History.Step config) History.init
          [.fork 0, .switch 0, .load 0, .load 2, .load 4, .load 6, .load 8, .load 2] history ∧
        ¬ history.SecondChance config (.load 10) := by
    intro config runs
    obtain ⟨history, folds, chooses⟩ := (Option.any_eq_true _ _).mp runs
    obtain ⟨⟨swept, pfn⟩, choice, evicts⟩ := (Option.any_eq_true _ _).mp chooses
    obtain ⟨rfl, full, rlt, pagetable, first, second, recent, older⟩ := of_decide_eq_true evicts
    refine ⟨history, (Trace.of_foldlM folds).mono History.step_of_act, fun chance => ?_⟩
    have spared := chance full swept 1 choice 0 1 ⟨0, rlt, pagetable⟩ ⟨⟨0, pagetable⟩, first⟩ recent
      0 2 ⟨⟨0, pagetable⟩, second⟩
    cases older.symm.trans spared
  exact ⟨⟨⟨[.memSize 3], some "references", rfl⟩, evicted _ (by decide +kernel)⟩,
    ⟨[.memSize 3, .tlbSize 0], some "references", rfl⟩, evicted _ (by decide +kernel)⟩

end CS2200.VirtualMemory
