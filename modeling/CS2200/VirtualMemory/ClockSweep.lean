import CS2200.Library.Sweep
import CS2200.VirtualMemory.Steps

/-!
# Used bits of frames

As long as frames and page tables are inverse to each other, the sweep of `get_free_frame` is a
sweep over the frames, each of which has the used bit of its page. In any run, besides the sweep
only a page fault changes used bits of resident pages, for the page that it brings in: an access to
a resident page leaves its used bit alone.
-/

namespace CS2200.VirtualMemory

/-- The used bit of the page in a frame. -/
def Os.frameUsed (os : Os) (frame : Nat) : Bool :=
  ((os.rlt frame).pcb.bind fun pcb => os.pte pcb (os.rlt frame).vpn).any Pte.used

/-- No frame is free. -/
def Os.full (config : Config) (os : Os) : Bool :=
  (List.range config.numFrames).all fun frame => (os.rlt frame).pcb.isSome

/-- The settings of `-m 3`: four frames of two bytes. -/
def fourFrames : Config := { Config.defaults with memSize := 8 }

/-- The frames that the clock sweep looks at. -/
def clockExamined (os : Os) : List Nat → List Nat
  | [] => []
  | frame :: frames =>
      match (os.rlt frame).pcb.bind fun pcb => (os.procList pcb).pagetable with
      | none => [frame]
      | some table =>
          let vpn := (os.rlt frame).vpn
          if (os.tables table vpn).used then
            frame :: clockExamined (os.modifyPte table vpn fun pte => { pte with used := false })
              frames
          else [frame]

/-! ## One sweep -/

section Sweep

variable {config : Config} {os swept : Os} {frames : List Nat} {pfn : Pfn}

theorem full_iff : os.full config = true ↔ ∀ frame < config.numFrames, (os.rlt frame).pcb ≠ none := by
  simp [Os.full, Option.isSome_iff_ne_none]

theorem Os.frameUsed_of_entry {frame pcb : Nat} {vpn : Vpn} {pte : Pte}
    (rlt : os.rlt frame = { pcb := some pcb, vpn }) (entry : os.pte pcb vpn = some pte) :
    os.frameUsed frame = pte.used := by
  simp [Os.frameUsed, rlt, entry]

private theorem Owned.frameUsed_clear (owned : Owned config noHole os)
    (processes : Processes config os)
    {frame pcb table : Nat} (owner : (os.rlt frame).pcb = some pcb)
    (pagetable : (os.procList pcb).pagetable = some table) (other : Nat) :
    (os.modifyPte table (os.rlt frame).vpn fun pte => { pte with used := false }).frameUsed other =
      (decide (other ≠ frame) && os.frameUsed other) := by
  have entries := processes.pte_modifyPte pagetable (os.rlt frame).vpn
    fun pte => { pte with used := false }
  cases owns : (os.rlt other).pcb with
  | none => simp [Os.frameUsed, Os.modifyPte, owns]
  | some owning =>
      obtain ⟨pte, entry, -, number⟩ := owned.owner id owns
      have rlt : os.rlt other = { pcb := some owning, vpn := (os.rlt other).vpn } := by rw [← owns]
      have sameRlt : (os.modifyPte table (os.rlt frame).vpn
          fun pte => { pte with used := false }).rlt other =
            { pcb := some owning, vpn := (os.rlt other).vpn } := rlt
      by_cases here : other = frame
      · subst here
        obtain rfl := Option.some.inj (owner.symm.trans owns)
        have cleared := entries pcb (os.rlt other).vpn
        rw [if_pos ⟨rfl, rfl⟩, entry, Option.map_some] at cleared
        rw [Os.frameUsed_of_entry sameRlt cleared]
        simp
      · have kept := entries owning (os.rlt other).vpn
        rw [if_neg, entry] at kept
        · rw [Os.frameUsed_of_entry sameRlt kept, Os.frameUsed_of_entry rlt entry]
          simp [here]
        · rintro ⟨rfl, same⟩
          obtain ⟨victim, victimEntry, -, victimNumber⟩ := owned.owner id owner
          rw [same, victimEntry] at entry
          obtain rfl := Option.some.inj entry
          exact here (number.symm.trans victimNumber)

/-- The clock sweep over occupied frames is a sweep over their used bits. -/
theorem clockSweep_spec (owned : Owned config noHole os) (processes : Processes config os)
    (nodup : frames.Nodup) (occupied : ∀ frame ∈ frames, (os.rlt frame).pcb ≠ none)
    (sweep : clockSweep os frames = some (swept, pfn)) :
    pfn = .ofNat ((Sweep.stop os.frameUsed frames).getD 0) ∧
      clockExamined os frames = Sweep.examined os.frameUsed frames ∧
      ∀ frame, swept.frameUsed frame =
        (os.frameUsed frame && decide (frame ∉ Sweep.examined os.frameUsed frames)) := by
  induction frames generalizing os with
  | nil =>
      obtain ⟨rfl, rfl⟩ : os = swept ∧ 0 = pfn := by simpa [clockSweep] using sweep
      exact ⟨rfl, rfl, fun frame => by simp [Sweep.examined]⟩
  | cons frame frames ih =>
      obtain ⟨notLater, nodup⟩ := List.nodup_cons.mp nodup
      obtain ⟨pcb, owner⟩ := Option.ne_none_iff_exists'.mp (occupied frame List.mem_cons_self)
      obtain ⟨table, pagetable, -⟩ := owned.ownerTable owner
      have used : os.frameUsed frame = (os.tables table (os.rlt frame).vpn).used := by
        simp [Os.frameUsed, Os.pte, owner, pagetable]
      simp only [clockSweep, owner, pagetable, bind, Option.bind_some] at sweep
      simp only [clockExamined, owner, pagetable, Option.bind_some, Sweep.examined, used,
        Sweep.stop, List.find?_cons]
      split at sweep
      case isFalse free =>
        obtain ⟨rfl, rfl⟩ : os = swept ∧ UInt16.ofNat frame = pfn := by simpa using sweep
        have bit : (os.tables table (os.rlt frame).vpn).used = false := by simpa using free
        simp only [bit, Bool.not_false, Option.getD_some, Bool.false_eq_true, if_false,
          List.mem_singleton, true_and]
        intro other
        by_cases here : other = frame
        · subst here
          simp [used, bit]
        · simp [here]
      case isTrue bit =>
        have clear := owned.frameUsed_clear processes owner pagetable
        have agree : ∀ other ∈ frames,
            (os.modifyPte table (os.rlt frame).vpn
              fun pte => { pte with used := false }).frameUsed other = os.frameUsed other := by
          intro other member
          simp [clear, ne_of_mem_of_not_mem member notLater]
        have only := UsedOnly.clear os table (os.rlt frame).vpn
        obtain ⟨chosen, looked, bits⟩ := ih (owned.of_usedOnly only)
          (processes.of_sameProcesses only.sameProcesses) nodup
          (fun other member => occupied other (List.mem_cons_of_mem frame member)) sweep
        have sameStop : Sweep.stop (os.modifyPte table (os.rlt frame).vpn
            fun pte => { pte with used := false }).frameUsed frames =
              frames.find? fun slot => !os.frameUsed slot := Sweep.stop_congr agree
        rw [Sweep.examined_congr agree] at looked bits
        rw [sameStop] at chosen
        simp only [bit, Bool.not_true, if_true, looked]
        refine ⟨chosen, trivial, fun other => ?_⟩
        rw [bits, clear]
        by_cases here : other = frame
        · simp [here]
        · simp [here]

private theorem Owned.lt_of_occupied (owned : Owned config noHole os) {frame : Nat}
    (occupied : (os.rlt frame).pcb ≠ none) : frame < 65536 := by
  obtain ⟨pcb, owner⟩ := Option.ne_none_iff_exists'.mp occupied
  obtain ⟨pte, -, -, rfl⟩ := owned.owner id owner
  exact pte.pfn.toNat_lt

/-- In a full memory `get_free_frame` sweeps over the frames. -/
theorem getFreeFrame_spec (owned : Owned config noHole os) (processes : Processes config os)
    (full : os.full config = true) (chosen : getFreeFrame config os = some (swept, pfn)) :
    { taken := pfn.toNat, examined := clockExamined os (List.range config.numFrames) } =
        Sweep.sweep 0 (List.range config.numFrames) os.frameUsed ∧
      ∀ frame, swept.frameUsed frame = (os.frameUsed frame &&
        decide (frame ∉ Sweep.examined os.frameUsed (List.range config.numFrames))) := by
  have occupied := full_iff.mp full
  have none : (List.range config.numFrames).find? (fun frame => (os.rlt frame).pcb = none) = none :=
    List.find?_eq_none.mpr fun frame member => by
      simpa using occupied frame (List.mem_range.mp member)
  unfold getFreeFrame at chosen
  rw [none] at chosen
  obtain ⟨rfl, looked, bits⟩ := clockSweep_spec owned processes List.nodup_range
    (fun frame member => occupied frame (List.mem_range.mp member)) chosen
  refine ⟨?_, bits⟩
  have small : (Sweep.stop os.frameUsed (List.range config.numFrames)).getD 0 < 65536 := by
    cases stops : Sweep.stop os.frameUsed (List.range config.numFrames) with
    | none => decide
    | some frame =>
        have inside := List.mem_range.mp (List.mem_of_find?_eq_some stops)
        exact owned.lt_of_occupied (occupied frame inside)
  rw [looked, Sweep.sweep, UInt16.toNat_ofNat', Nat.mod_eq_of_lt small]

end Sweep

/-! ## One action -/

/-- Whether an action finds its page absent in the current page table. -/
def Action.faults (config : Config) (os : Os) : Action → Bool
  | .fork _ | .switch _ => false
  | .load va | .store va _ =>
      os.currentPagetable.any fun table => !(os.tables table (config.vaddrPagenum va)).valid

/-- What `get_free_frame` does in an action that faults. -/
def Action.choice (config : Config) (os : Os) (action : Action) : Option (Os × Pfn) :=
  if action.faults config os then getFreeFrame config os else none

/-- The state after the sweep of an action, if there is one. -/
def Action.swept (config : Config) (os : Os) (action : Action) : Os :=
  (action.choice config os).elim os Prod.fst

/-- An action accesses a page of the current page table. -/
def Action.Touches (config : Config) (os : Os) (table : Nat) (vpn : Vpn) : Action → Prop
  | .fork _ | .switch _ => False
  | .load va | .store va _ => os.currentPagetable = some table ∧ config.vaddrPagenum va = vpn

instance (config : Config) (os : Os) (table : Nat) (vpn : Vpn) : (action : Action) →
    Decidable (action.Touches config os table vpn)
  | .fork _ | .switch _ => inferInstanceAs (Decidable False)
  | .load _ | .store _ _ => inferInstanceAs (Decidable (_ ∧ _))

/-- A page fault brings a page in: it gets the chosen frame and a used bit, and the other resident
pages have their entries from after the sweep. -/
structure Brought (before : Os) (table : Nat) (vpn : Vpn) (swept : Os) (pfn : Pfn) (after : Os) :
    Prop where
  /-- The page was absent. -/
  absent : (before.tables table vpn).valid = false
  /-- The frame belongs to the running process. -/
  rlt : ∃ current, before.current = some current ∧
    after.rlt = Function.update before.rlt pfn.toNat { pcb := some current, vpn }
  /-- The entries of resident pages. -/
  entries : ∀ other page, (after.tables other page).valid = true →
    (other = table ∧ page = vpn ∧ (after.tables other page).pfn = pfn ∧
        (after.tables other page).used = true) ∨
      ¬(other = table ∧ page = vpn) ∧ after.tables other page = swept.tables other page

section Brought

variable {config : Config} {before after : State} {vpn : Vpn} {pfn : Pfn} {write : Bool}

private theorem pagefaultHandler_brought {table : Nat}
    (register : before.currentPagetable = some table)
    (absent : (before.tables table vpn).valid = false)
    (step : pagefaultHandler config before vpn write = some (after, pfn)) :
    ∃ swept, getFreeFrame config before.toOs = some (swept, pfn) ∧
      Brought before.toOs table vpn swept pfn after.toOs := by
  obtain ⟨-, swept, evicted, installed, free, -, evict, install, rfl⟩ :=
    pagefaultHandler_eq_some.mp step
  have only := getFreeFrame_usedOnly free
  have same := evictVictim_sameProcesses evict
  obtain ⟨current, filled, running, register', rfl⟩ := installPage_eq_some.mp install
  obtain ⟨rlt, kept⟩ : evicted.rlt = swept.rlt ∧ ∀ other page,
      (evicted.tables other page).valid = true →
        evicted.tables other page = swept.tables other page := by
    rcases evictVictim_cases evict with ⟨rfl, -⟩ | ⟨victim, owned, -, -, -, rfl⟩
    · exact ⟨rfl, fun _ _ _ => rfl⟩
    · refine ⟨evictPage_rlt .., fun other page valid => ?_⟩
      simp only [tlbClearone, evictPage_tables] at valid ⊢
      refine Os.modifyPte_other _ _ fun here => ?_
      obtain ⟨rfl, rfl⟩ := here
      simp at valid
  obtain rfl : table = filled := Option.some.inj
    ((register.symm.trans only.currentPagetable.symm).trans
      (same.currentPagetable.symm.trans register'))
  refine ⟨swept, free, absent, ⟨current, ?_, ?_⟩, fun other page valid => ?_⟩
  · rw [← only.current, ← same.current, running]
  · rw [pageFromDisk_rlt, ← only.rlt, ← rlt]
    rfl
  · rw [pageFromDisk_tables] at valid ⊢
    by_cases here : other = table ∧ page = vpn
    · obtain ⟨rfl, rfl⟩ := here
      simp [assignFrame]
    · rw [assignFrame_other _ _ _ _ here] at valid ⊢
      exact .inr ⟨here, kept other page valid⟩

/-- The translation for an action finds its page, or a page fault brings it in. -/
theorem tlbLookup_brought {action : Action} (coherent : TlbCoherent config before)
    (step : tlbLookup config before vpn write = some (after, pfn))
    (faults : action.faults config before.toOs =
      before.currentPagetable.any fun table => !(before.tables table vpn).valid) :
    (action.choice config before.toOs = none ∧ after.toOs = before.toOs) ∨
      ∃ swept table, action.choice config before.toOs = some (swept, pfn) ∧
        before.currentPagetable = some table ∧
        Brought before.toOs table vpn swept pfn after.toOs := by
  have outside := tlbLookup_outsideTlb coherent vpn write
  rw [step, Option.map_some, eq_comm, Option.map_eq_some_iff] at outside
  obtain ⟨⟨looked, frame⟩, lookup, equal⟩ := outside
  obtain ⟨same, rfl⟩ : looked.toOs = after.toOs ∧ frame = pfn := by simpa [outsideTlb] using equal
  rw [← same]
  simp only [pagetableLookup, bind, Option.bind_eq_some_iff] at lookup
  obtain ⟨table, register, lookup⟩ := lookup
  split at lookup
  case isTrue valid =>
    obtain ⟨rfl, -⟩ : before = looked ∧ _ = frame := by simpa using lookup
    exact .inl ⟨by simp [Action.choice, faults, register, valid], rfl⟩
  case isFalse invalid =>
    obtain ⟨swept, free, absent, rlt, entries⟩ := @pagefaultHandler_brought config
      { before with countPagefaults := before.countPagefaults + 1 } _ _ _ _ _ register
      (by simpa using invalid) lookup
    have same : SamePages before.toOs
        { before.toOs with countPagefaults := before.countPagefaults + 1 } :=
      ⟨rfl, rfl, rfl, rfl, rfl⟩
    rw [same.getFreeFrame_eq, Option.map_eq_some_iff] at free
    obtain ⟨⟨plain, chosen⟩, free, equal⟩ := free
    obtain ⟨rfl, rfl⟩ := Prod.mk.inj equal
    refine .inr ⟨plain, table, ?_, register, absent, rlt, entries⟩
    rw [Action.choice, if_pos (by simp [faults, register, invalid]), free]

theorem Action.choice_eq_some {action : Action} {os swept : Os}
    (choice : action.choice config os = some (swept, pfn)) :
    getFreeFrame config os = some (swept, pfn) := by
  unfold Action.choice at choice
  split at choice
  · exact choice
  · cases choice

theorem Action.choice_usedOnly {action : Action} {os swept : Os}
    (choice : action.choice config os = some (swept, pfn)) : UsedOnly os swept :=
  getFreeFrame_usedOnly (Action.choice_eq_some choice)

/-- An action of any run leaves frames and the entries of resident pages alone, or a page fault
brings a page in. -/
theorem act_brought {action : Action} {output : Option Word} (coherent : TlbCoherent config before)
    (step : act config before action = some (after, output)) :
    (action.choice config before.toOs = none ∧ after.rlt = before.rlt ∧
        ∀ table vpn, (after.tables table vpn).valid = true →
          after.tables table vpn = before.tables table vpn) ∨
      ∃ swept pfn table vpn, action.choice config before.toOs = some (swept, pfn) ∧
        action.Touches config before.toOs table vpn ∧
        Brought before.toOs table vpn swept pfn after.toOs := by
  cases action with
  | fork pid =>
      obtain ⟨forked, fork, equal⟩ := Option.map_eq_some_iff.mp step
      obtain ⟨rfl, -⟩ := Prod.mk.inj equal
      unfold procFork at fork
      split at fork
      case isFalse => cases fork
      case isTrue =>
        obtain rfl := Option.some.inj fork
        refine .inl ⟨rfl, rfl, fun table vpn valid => ?_⟩
        by_cases new : table = before.allocated
        · simp [new, Pte.zero] at valid
        · simp [Function.update_of_ne new]
  | switch pid =>
      obtain ⟨switched, switch, equal⟩ := Option.map_eq_some_iff.mp step
      obtain ⟨rfl, -⟩ := Prod.mk.inj equal
      unfold procSwitch at switch
      split at switch
      case isFalse => cases switch
      case isTrue =>
        simp only [bind, Option.bind_eq_some_iff, Option.some.injEq] at switch
        obtain ⟨table, -, rfl⟩ := switch
        exact .inl ⟨rfl, rfl, fun _ _ _ => rfl⟩
  | load va =>
      obtain ⟨⟨loaded, data⟩, load, equal⟩ := Option.map_eq_some_iff.mp step
      obtain ⟨rfl, -⟩ := Prod.mk.inj equal
      simp only [memLoad, bind, Option.bind_eq_some_iff, Option.some.injEq, Prod.mk.injEq,
        Prod.exists] at load
      obtain ⟨looked, pfn, lookup, rfl, -⟩ := load
      rcases @tlbLookup_brought _ _ _ _ _ _ (.load va) coherent lookup rfl with
        ⟨none, same⟩ | ⟨swept, table, choice, register, absent, rlt, entries⟩
      · exact .inl ⟨none, by rw [← same], fun _ _ _ => by rw [← same]⟩
      · exact .inr ⟨swept, pfn, table, _, choice, ⟨register, rfl⟩, absent, rlt, entries⟩
  | store va data =>
      obtain ⟨stored, store, equal⟩ := Option.map_eq_some_iff.mp step
      obtain ⟨rfl, -⟩ := Prod.mk.inj equal
      simp only [memStore, bind, Option.bind_eq_some_iff, Option.some.injEq, Prod.exists] at store
      obtain ⟨looked, pfn, lookup, rfl⟩ := store
      rcases @tlbLookup_brought _ _ _ _ _ _ (.store va data) coherent lookup rfl with
        ⟨none, same⟩ | ⟨swept, table, choice, register, absent, rlt, entries⟩
      · exact .inl ⟨none, by rw [← same], fun _ _ _ => by rw [← same]⟩
      · exact .inr ⟨swept, pfn, table, _, choice, ⟨register, rfl⟩, absent, rlt, entries⟩

end Brought

section CleanSteps

variable {config : Config} {before after : State} {action : Action}

private theorem Effect.tableBefore (effect : Effect config before.toOs action after.toOs)
    {pcb : Nat}
    {vpn : Vpn} {pte : Pte} (entry : after.pte pcb vpn = some pte) (valid : pte.valid = true) :
    ∃ table, (before.procList pcb).pagetable = some table ∧ after.tables table vpn = pte := by
  obtain ⟨table, pagetable, same⟩ := Os.pte_eq_some.mp entry
  refine ⟨table, ?_, same⟩
  generalize after.toOs = final at *
  cases effect with
  | @fork pid _ _ _ _ _ _ entries procList =>
      have other : pcb ≠ pid.toNat := by
        rintro rfl
        rw [entries, if_pos rfl] at entry
        obtain rfl := Option.some.inj entry
        cases valid
      rwa [procList, Function.update_of_ne other] at pagetable
  | switch same => rwa [same.procList] at pagetable
  | load running step same => rwa [same.procList, step.sameProcesses.procList] at pagetable
  | store running step _ _ _ same =>
      rwa [same.procList, step.sameProcesses.procList] at pagetable

/-- A clean step leaves frames and the entries of resident pages alone, or a page fault brings in a
page of the running process that was absent. -/
theorem CleanStep.used (step : CleanStep config before action after)
    (effect : Effect config before.toOs action after.toOs) (invariant : Invariant config before) :
    (action.choice config before.toOs = none ∧ after.rlt = before.rlt ∧
        ∀ pcb page pte, after.pte pcb page = some pte → pte.valid = true →
          before.pte pcb page = some pte) ∨
      ∃ swept pfn current vpn, action.choice config before.toOs = some (swept, pfn) ∧
        (∀ pte, before.pte current vpn = some pte → pte.valid = false) ∧
        after.rlt = Function.update before.rlt pfn.toNat { pcb := some current, vpn } ∧
        ∀ pcb page pte, after.pte pcb page = some pte → pte.valid = true →
          (pcb = current ∧ page = vpn ∧ pte.pfn = pfn ∧ pte.used = true) ∨
            swept.pte pcb page = some pte := by
  obtain ⟨⟨-, output, performs⟩, -⟩ := step
  rcases act_brought invariant.coherent performs with ⟨none, rlt, entries⟩ |
    ⟨swept, pfn, table, vpn, choice, touches, absent, ⟨current, running, rlt⟩, entries⟩
  · refine .inl ⟨none, rlt, fun pcb page pte entry valid => ?_⟩
    obtain ⟨table, pagetable, rfl⟩ := effect.tableBefore entry valid
    exact Os.pte_eq_some.mpr ⟨table, pagetable, (entries table page valid).symm⟩
  · obtain ⟨own, register, pagetable⟩ := invariant.processes.register running
    obtain rfl : own = table := by
      cases action with
      | fork | switch => exact touches.elim
      | load | store => exact Option.some.inj (register.symm.trans touches.1)
    refine .inr ⟨swept, pfn, current, vpn, choice, fun pte entry => ?_, rlt,
      fun pcb page pte entry valid => ?_⟩
    · obtain rfl := Option.some.inj ((Os.pte_of_forked pagetable vpn).symm.trans entry)
      exact absent
    · obtain ⟨table, owning, rfl⟩ := effect.tableBefore entry valid
      rcases entries table page valid with ⟨rfl, rfl, frame, used⟩ | ⟨-, same⟩
      · exact .inl ⟨invariant.processes.injective owning pagetable, rfl, frame, used⟩
      · refine .inr (Os.pte_eq_some.mpr ⟨table, ?_, same.symm⟩)
        rwa [(Action.choice_usedOnly choice).procList]

/-- After a clean step the page in a frame has just been brought in, or was in the frame before and
keeps its used bit from after the sweep. -/
theorem CleanStep.frameUsed (step : CleanStep config before action after)
    (effect : Effect config before.toOs action after.toOs) (invariant : Invariant config before)
    (owned : Owned config noHole after.toOs) {frame : Nat}
    (occupied : (after.rlt frame).pcb ≠ none) :
    (∃ swept pfn, action.choice config before.toOs = some (swept, pfn) ∧ pfn.toNat = frame ∧
        after.frameUsed frame = true) ∨
      (∀ swept pfn, action.choice config before.toOs = some (swept, pfn) → pfn.toNat ≠ frame) ∧
        after.rlt frame = before.rlt frame ∧
          after.frameUsed frame = (action.swept config before.toOs).frameUsed frame := by
  obtain ⟨pcb, owner⟩ := Option.ne_none_iff_exists'.mp occupied
  obtain ⟨pte, entry, valid, number⟩ := owned.owner id owner
  have rlt : after.rlt frame = { pcb := some pcb, vpn := (after.rlt frame).vpn } := by rw [← owner]
  have bit := Os.frameUsed_of_entry rlt entry
  rcases step.used effect invariant with ⟨none, same, entries⟩ |
    ⟨swept, pfn, current, vpn, choice, absent, update, entries⟩
  · refine .inr ⟨fun swept pfn choice => ?_, by rw [same], ?_⟩
    · cases none.symm.trans choice
    · have before := entries _ _ _ entry valid
      rw [bit, Action.swept, none, Option.elim_none]
      rw [same] at rlt before
      exact (Os.frameUsed_of_entry rlt before).symm
  · have only := Action.choice_usedOnly choice
    by_cases here : pfn.toNat = frame
    · refine .inl ⟨swept, pfn, choice, here, ?_⟩
      rw [bit]
      rcases entries _ _ _ entry valid with ⟨-, -, -, used⟩ | kept
      · exact used
      · rw [update, ← here, Function.update_self] at owner kept
        obtain rfl := Option.some.inj owner
        obtain ⟨old, oldEntry, -, sameValid, -⟩ := only.pte kept
        rw [absent old oldEntry, valid] at sameValid
        cases sameValid
    · have same : after.rlt frame = before.rlt frame := by
        rw [update, Function.update_of_ne (Ne.symm here)]
      refine .inr ⟨fun swept' pfn' choice' => ?_, same, ?_⟩
      · obtain ⟨-, rfl⟩ := Prod.mk.inj (Option.some.inj (choice.symm.trans choice'))
        exact here
      · rcases entries _ _ _ entry valid with ⟨-, -, sameFrame, -⟩ | kept
        · exact absurd (sameFrame ▸ number) here
        · rw [bit, Action.swept, choice, Option.elim_some]
          rw [same] at rlt kept
          exact (Os.frameUsed_of_entry (only.rlt ▸ rlt) kept).symm

end CleanSteps

end CS2200.VirtualMemory
