import CS2200.VirtualMemory.Steps

/-!
# Dirty bits

Eviction consults the dirty bit of the page table entry only. A page fault sets it to the kind of
the access, and nothing else ever changes it: a store that hits in the page table or in the TLB
leaves it alone. The dirty bits are therefore sound in a run exactly when every store of the run
finds its page absent or dirty already.
-/

namespace CS2200.VirtualMemory

/-- A legal run after which a page has been the target of a store since the last page fault that
brought it in. -/
inductive StoredSinceFault (config : Config) (pcb : Nat) (vpn : Vpn) : List Action → State → Prop
  | store {earlier : List Action} {before after : State} {va : VAddr} {data : Word} :
      Trace (LegalStep config) simInit earlier before →
      LegalStep config before (.store va data) after →
      (Action.store va data).Accesses config before.toOs pcb vpn →
      StoredSinceFault config pcb vpn (earlier ++ [.store va data]) after
  | keep {earlier : List Action} {before after : State} {action : Action} :
      StoredSinceFault config pcb vpn earlier before →
      LegalStep config before action after →
      ¬action.BringsIn config before.toOs pcb vpn →
      StoredSinceFault config pcb vpn (earlier ++ [action]) after

/-- If `pagefault_handler` chooses a frame for an absent page of the running process, it saves the
page which the frame holds. -/
def SavesVictim (config : Config) (state : State) (pcb : Nat) (vpn : Vpn) (pfn : Pfn) : Prop :=
  ∀ current request write after, state.current = some current →
    (∀ pte, state.pte current request = some pte → pte.valid = false) →
    pagefaultHandler config state request write = some (after, pfn) →
    { pid := (state.procList pcb).pid, vpn, data := state.page config pfn } ∈ after.swapfile

/-- After every part of a run the resident pages that were stored to since they were brought in are
dirty, so that they will be saved. -/
def DirtySound (config : Config) (actions : List Action) : Prop :=
  ∀ earlier, earlier <+: actions → ∀ state, Trace (LegalStep config) simInit earlier state →
    ∀ pcb vpn pte, state.pte pcb vpn = some pte → pte.valid = true →
      StoredSinceFault config pcb vpn earlier state →
      pte.dirty = true ∧ SavesVictim config state pcb vpn pte.pfn

/-- Every store of a run finds its page absent or dirty. -/
def StoresDirty (config : Config) (actions : List Action) : Prop :=
  ∀ earlier va data, earlier ++ [.store va data] <+: actions →
    ∀ before, Trace (LegalStep config) simInit earlier before →
      ∀ current pte, before.current = some current →
        before.pte current (config.vaddrPagenum va) = some pte → pte.valid = true →
        pte.dirty = true

section Saved

variable {config : Config} {before after : Os} {pfn : Pfn}

private theorem Vacated.saves (step : Vacated config before pfn after)
    (owned : Owned config noHole before)
    {pcb : Nat} {vpn : Vpn} {pte : Pte} (entry : before.pte pcb vpn = some pte)
    (valid : pte.valid = true) (dirty : pte.dirty = true) (frame : pte.pfn = pfn) :
    { pid := (before.procList pcb).pid, vpn, data := before.page config pfn } ∈ after.swapfile := by
  have resident := (owned.resident entry valid).2.2
  rw [frame] at resident
  cases step with
  | free vacant => simp [resident] at vacant
  | @evicted victim table owner pagetable =>
      obtain rfl : pcb = victim := by simpa [resident] using owner
      obtain rfl := Option.some.inj ((Os.pte_of_forked pagetable vpn).symm.trans entry)
      rw [resident, evictPage_swapfile, if_pos dirty]
      exact List.mem_cons_self

private theorem Faulted.saves {current : Nat} {request : Vpn} {write : Bool} {swept vacated : Os}
    (fault : Faulted config before current request write pfn swept vacated after)
    (owned : Owned config noHole before) (processes : Processes config before)
    (absent : ∀ pte, before.pte current request = some pte → pte.valid = false)
    {pcb : Nat} {vpn : Vpn} {pte : Pte} (entry : before.pte pcb vpn = some pte)
    (valid : pte.valid = true) (dirty : pte.dirty = true) (frame : pte.pfn = pfn) :
    { pid := (before.procList pcb).pid, vpn, data := before.page config pfn } ∈ after.swapfile := by
  obtain ⟨swept', sweptEntry, sweptPfn, sweptValid, sweptDirty⟩ := fault.only.symm.pte entry
  have saved := fault.vacates.saves (owned.of_usedOnly fault.only) sweptEntry
    (sweptValid.trans valid) (sweptDirty.trans dirty) (sweptPfn.trans frame)
  have page : swept.page config pfn = before.page config pfn := by
    simp only [Os.page, fault.only.memory]
  rw [fault.only.procList, page] at saved
  obtain ⟨table, pagetable, rfl⟩ := fault.filled
  obtain ⟨owning, owningTable, -⟩ := Os.pte_eq_some.mp entry
  rw [pageFromDisk_swapfile]
  refine (List.mem_eraseP_of_neg ?_).mpr saved
  rw [SwapPage.holds_iff]
  rintro ⟨samePid, rfl⟩
  refine processes.pid_ne owningTable pagetable ?_ samePid
  rintro rfl
  rw [absent pte entry] at valid
  cases valid

/-- A resident dirty page is saved when its frame is chosen. -/
theorem Invariant.savesVictim {state : State} (invariant : Invariant config state)
    {pcb : Nat} {vpn : Vpn} {pte : Pte} (entry : state.pte pcb vpn = some pte)
    (valid : pte.valid = true) (dirty : pte.dirty = true) :
    SavesVictim config state pcb vpn pte.pfn := by
  intro current request write final running absent handler
  obtain ⟨swept, vacated, fault⟩ := invariant.faulted running handler
  exact fault.saves invariant.owned invariant.processes absent entry valid dirty rfl

end Saved

section Sound

variable {config : Config} {actions : List Action} {state : State}

private theorem StoredSinceFault.trace {pcb : Nat} {vpn : Vpn}
    (stored : StoredSinceFault config pcb vpn actions state) :
    Trace (LegalStep config) simInit actions state := by
  induction stored with
  | store earlier step => exact earlier.snoc step
  | keep _ step _ ih => exact ih.snoc step

/-- While stores find their pages absent or dirty, the pages that they leave are dirty. -/
theorem StoredSinceFault.dirty (accepted : config.Accepted) {pcb : Nat} {vpn : Vpn}
    (stored : StoredSinceFault config pcb vpn actions state) (stores : StoresDirty config actions)
    {pte : Pte} (entry : state.pte pcb vpn = some pte) (valid : pte.valid = true) :
    pte.dirty = true := by
  induction stored generalizing pte with
  | store earlier step accesses =>
      have consistent := Consistent.of_trace accepted earlier
      obtain ⟨-, effect⟩ := (step.clean consistent).effect consistent accepted
      obtain ⟨running, rfl⟩ := accesses
      rcases effect.entry consistent.invariant.processes entry valid with
        ⟨-, dirty⟩ | ⟨old, oldEntry, oldValid, -, sameDirty⟩
      · exact dirty
      · rw [← sameDirty]
        exact stores _ _ _ List.prefix_rfl _ earlier _ _ running oldEntry oldValid
  | keep earlier step resident ih =>
      have consistent := Consistent.of_trace accepted earlier.trace
      obtain ⟨-, effect⟩ := (step.clean consistent).effect consistent accepted
      rcases effect.entry consistent.invariant.processes entry valid with
        ⟨brought, -⟩ | ⟨old, oldEntry, oldValid, -, sameDirty⟩
      · exact absurd brought resident
      · rw [← sameDirty]
        exact ih (fun first va data part => stores first va data
          (part.trans (List.prefix_append _ _))) oldEntry oldValid

private theorem Consistent.store_resident (consistent : Consistent config state)
    (accepted : config.Accepted) {current : Nat} (running : state.current = some current)
    {va : VAddr} (data : Word) {pte : Pte}
    (entry : state.pte current (config.vaddrPagenum va) = some pte) (valid : pte.valid = true) :
    ∃ after, LegalStep config state (.store va data) after ∧
      after.pte current (config.vaddrPagenum va) = some pte := by
  obtain ⟨after, store, -, effect⟩ := consistent.act_store accepted running va data
  refine ⟨after, ⟨by simp [Action.Legal, running], none, store⟩, ?_⟩
  generalize after.toOs = final at *
  cases effect with
  | store running' step _ _ _ same =>
      obtain rfl := Option.some.inj (running.symm.trans running')
      rw [same.pte]
      cases step with
      | resident => exact entry
      | faulted absent =>
          rw [absent pte entry] at valid
          cases valid

/-- In a run with sound dirty bits every store finds its page absent or dirty. -/
theorem DirtySound.storesDirty (sound : DirtySound config actions) (accepted : config.Accepted) :
    StoresDirty config actions := by
  intro earlier va data part before trace current pte running entry valid
  have consistent := Consistent.of_trace accepted trace
  obtain ⟨after, step, kept⟩ := consistent.store_resident accepted running data entry valid
  exact (sound _ part after (trace.snoc step) current _ pte kept valid
    (.store trace step ⟨running, rfl⟩)).1

/-- The dirty bits of a run are sound if and only if every store of the run finds its page absent
or dirty. -/
theorem dirtySound_iff_storesDirty (accepted : config.Accepted) (actions : List Action) :
    DirtySound config actions ↔ StoresDirty config actions := by
  refine ⟨fun sound => sound.storesDirty accepted, fun stores earlier part state trace pcb vpn pte
    entry valid stored => ?_⟩
  have dirty := stored.dirty accepted
    (fun first va data inner => stores first va data (inner.trans part)) entry valid
  exact ⟨dirty,
    (Consistent.of_trace accepted trace).invariant.savesVictim entry valid dirty⟩

/-- A process that stores to a page, and reads it afterwards. -/
theorem dirtySound_iff_storesDirty_oneFrame :
    DirtySound oneFrame [.fork 0, .switch 0, .store 0 1, .load 0] ↔
      StoresDirty oneFrame [.fork 0, .switch 0, .store 0 1, .load 0] :=
  dirtySound_iff_storesDirty ⟨[.memSize 1], some "references", rfl⟩ _

end Sound

/-- The settings of `-m 1 -t 0`: one frame and no TLB. -/
def noTlb : Config := { oneFrame with tlbSize := 0 }

/-- A store to a page which a load brought in leaves the page table entry clean, when it hits in the
TLB as well as when it hits in the page table. -/
theorem dirty_bit_missed :
    (oneFrame.Accepted ∧ ¬DirtySound oneFrame [.fork 0, .switch 0, .load 0, .store 0 1]) ∧
      noTlb.Accepted ∧ ¬DirtySound noTlb [.fork 0, .switch 0, .load 0, .store 0 1] := by
  have missed : ∀ {config : Config}, config.Accepted →
      ([.fork 0, .switch 0, .load 0].foldlM (legalAct config) simInit).any (fun state =>
        state.current = some 0 ∧ (state.pte 0 (config.vaddrPagenum 0)).any fun pte =>
          pte.valid && !pte.dirty) = true →
      ¬DirtySound config [.fork 0, .switch 0, .load 0, .store 0 1] := by
    intro config accepted runs sound
    obtain ⟨state, folds, clean⟩ := (Option.any_eq_true _ _).mp runs
    obtain ⟨running, any⟩ := of_decide_eq_true clean
    obtain ⟨pte, entry, valid⟩ := (Option.any_eq_true _ _).mp any
    obtain ⟨valid, notDirty⟩ := Bool.and_eq_true_iff.mp valid
    have dirty := sound.storesDirty accepted _ 0 1 List.prefix_rfl state
      (legalTrace_of_foldlM folds) 0 pte running entry valid
    simp [dirty] at notDirty
  have one : oneFrame.Accepted := ⟨[.memSize 1], some "references", rfl⟩
  have without : noTlb.Accepted := ⟨[.memSize 1, .tlbSize 0], some "references", rfl⟩
  exact ⟨⟨one, missed one (by decide +kernel)⟩, without, missed without (by decide +kernel)⟩

end CS2200.VirtualMemory
