import CS2200.Library.Trace
import CS2200.VirtualMemory.Progress

/-!
# Frame ownership

The reverse lookup table and the page tables are inverse to each other. During a page fault the
victim frame belongs to nobody, so the invariant is stated relative to a set of frames, the hole,
which is empty between commands.
-/

namespace CS2200.VirtualMemory

/-! ## Legal actions -/

/-- Entry of a page in the page table of a process, if the process has one. -/
def Os.pte (os : Os) (pcb : Nat) (vpn : Vpn) : Option Pte :=
  (os.procList pcb).pagetable.map fun table => os.tables table vpn

/-- A call of the simulator by its driver. -/
inductive Action where
  /-- `proc_fork`. -/
  | fork (pid : UInt32)
  /-- `proc_switch`. -/
  | switch (pid : UInt32)
  /-- `mem_load`. -/
  | load (va : VAddr)
  /-- `mem_store`. -/
  | store (va : VAddr) (data : Word)
  deriving DecidableEq, Repr

/-- Perform one action. -/
def act (config : Config) (state : State) : Action → Option (State × Option Word)
  | .fork pid => (procFork config state pid).map fun after => (after, none)
  | .switch pid => (procSwitch config state pid).map fun after => (after, none)
  | .load va => (memLoad config state va).map fun result => (result.1, some result.2)
  | .store va data => (memStore config state va data).map fun after => (after, none)

/-- Forks use identifiers in range that were not forked before, switches go to forked processes,
and accesses are made by a running process. -/
def Action.Legal (config : Config) (state : State) : Action → Prop
  | .fork pid => pid.toNat < config.maxJobs ∧ (state.procList pid.toNat).pagetable = none
  | .switch pid => (state.procList pid.toNat).pagetable ≠ none
  | .load _ | .store _ _ => state.current ≠ none

/-- One legal action that does not abort. -/
def LegalStep (config : Config) (before : State) (action : Action) (after : State) : Prop :=
  action.Legal config before ∧ ∃ output, act config before action = some (after, output)

instance (config : Config) (state : State) : (action : Action) →
    Decidable (action.Legal config state)
  | .fork _ => inferInstanceAs (Decidable (_ ∧ _))
  | .switch _ => inferInstanceAs (Decidable (_ ≠ _))
  | .load _ | .store _ _ => inferInstanceAs (Decidable (_ ≠ _))

/-- The state after one legal action. -/
def legalAct (config : Config) (state : State) (action : Action) : Option State :=
  if action.Legal config state then (act config state action).map Prod.fst else none

theorem legalAct_eq_some {config : Config} {before after : State} {action : Action} :
    legalAct config before action = some after ↔ LegalStep config before action after := by
  simp [legalAct, LegalStep, Option.ite_none_right_eq_some]

theorem legalTrace_of_foldlM {config : Config} {actions : List Action} {state : State}
    (folds : actions.foldlM (legalAct config) simInit = some state) :
    Trace (LegalStep config) simInit actions state :=
  (Trace.of_foldlM folds).mono legalAct_eq_some.mp

/-! ## The invariant -/

/-- Process control blocks and their page tables. -/
structure Processes (config : Config) (os : Os) : Prop where
  /-- Page table pointers designate allocated tables. -/
  allocated : os.Allocated
  /-- No two processes share a page table. -/
  injective : ∀ {first second table}, (os.procList first).pagetable = some table →
    (os.procList second).pagetable = some table → first = second
  /-- A forked process stores its own identifier, which is in range. -/
  pid : ∀ {pcb table}, (os.procList pcb).pagetable = some table →
    (os.procList pcb).pid.toNat = pcb ∧ pcb < config.maxJobs
  /-- The page table register belongs to the running process. -/
  register : ∀ {current}, os.current = some current →
    ∃ table, os.currentPagetable = some table ∧ (os.procList current).pagetable = some table
  /-- The page table register is set only with a running process. -/
  idle : os.current = none → os.currentPagetable = none

/-- Outside `hole`, the reverse lookup table and the valid page table entries are inverse. -/
structure Owned (config : Config) (hole : Nat → Prop) (os : Os) : Prop where
  /-- The owner of a frame has a valid entry for it. -/
  owner : ∀ {frame pcb}, ¬hole frame → (os.rlt frame).pcb = some pcb →
    ∃ pte, os.pte pcb (os.rlt frame).vpn = some pte ∧ pte.valid = true ∧ pte.pfn.toNat = frame
  /-- A valid entry designates a frame that its process owns. -/
  resident : ∀ {pcb vpn pte}, os.pte pcb vpn = some pte → pte.valid = true →
    ¬hole pte.pfn.toNat ∧ pte.pfn.toNat < config.numFrames ∧
      os.rlt pte.pfn.toNat = { pcb := some pcb, vpn }

/-- No frame is in transit. -/
abbrev noHole : Nat → Prop := fun _ => False

theorem Processes.of_sameProcesses {config : Config} {before after : Os}
    (processes : Processes config before) (same : SameProcesses before after) :
    Processes config after where
  allocated := processes.allocated.of_sameProcesses same
  injective := by
    rw [same.procList]
    exact processes.injective
  pid := by
    rw [same.procList]
    exact processes.pid
  register := by
    rw [same.current, same.currentPagetable, same.procList]
    exact processes.register
  idle := by
    rw [same.current, same.currentPagetable]
    exact processes.idle

theorem Os.pte_eq_some {os : Os} {pcb : Nat} {vpn : Vpn} {pte : Pte} :
    os.pte pcb vpn = some pte ↔
      ∃ table, (os.procList pcb).pagetable = some table ∧ os.tables table vpn = pte := by
  simp [Os.pte]

theorem Processes.pte_modifyPte {config : Config} {os : Os} (processes : Processes config os)
    {owner table : Nat} (pagetable : (os.procList owner).pagetable = some table) (page : Vpn)
    (change : Pte → Pte) (pcb : Nat) (vpn : Vpn) :
    (os.modifyPte table page change).pte pcb vpn =
      if pcb = owner ∧ vpn = page then (os.pte pcb vpn).map change else os.pte pcb vpn := by
  simp only [Os.pte, Os.modifyPte]
  cases other : (os.procList pcb).pagetable with
  | none => simp
  | some otherTable =>
      have same : otherTable = table ↔ pcb = owner := by
        constructor
        · rintro rfl
          exact processes.injective other pagetable
        · rintro rfl
          exact Option.some.inj (other.symm.trans pagetable)
      simp only [Option.map_some, same]
      split <;> rfl

theorem Processes.pte_evictPage {config : Config} {os : Os} (processes : Processes config os)
    {owner table : Nat} (pagetable : (os.procList owner).pagetable = some table) (frame : Pfn)
    (page : Vpn) (pcb : Nat) (vpn : Vpn) :
    (evictPage config os frame owner table page).pte pcb vpn =
      if pcb = owner ∧ vpn = page then
        (os.pte pcb vpn).map fun pte => { pte with valid := false }
      else os.pte pcb vpn := by
  rw [← processes.pte_modifyPte pagetable]
  simp [Os.pte, Os.modifyPte]

theorem Processes.pte_assignFrame {config : Config} {os : Os} (processes : Processes config os)
    {owner table : Nat} (pagetable : (os.procList owner).pagetable = some table) (frame : Pfn)
    (page : Vpn) (write : Bool) (pcb : Nat) (vpn : Vpn) :
    (assignFrame os owner table frame page write).pte pcb vpn =
      if pcb = owner ∧ vpn = page then
        (os.pte pcb vpn).map fun _ => { pfn := frame, valid := true, used := true, dirty := write }
      else os.pte pcb vpn := by
  rw [← processes.pte_modifyPte pagetable]
  rfl

@[simp] theorem pageFromDisk_pte (config : Config) (os : Os) (frame : Pfn) (page : Vpn)
    (pid : UInt32) (pcb : Nat) (vpn : Vpn) :
    (pageFromDisk config os frame page pid).pte pcb vpn = os.pte pcb vpn := by
  simp [Os.pte]

/-! ## Page faults keep frame ownership -/

section Fault

variable {config : Config} {before after : Os} {hole : Nat → Prop}

theorem UsedOnly.pte (only : UsedOnly before after) {pcb : Nat} {vpn : Vpn} {pte : Pte}
    (entry : after.pte pcb vpn = some pte) :
    ∃ old, before.pte pcb vpn = some old ∧ old.pfn = pte.pfn ∧ old.valid = pte.valid ∧
      old.dirty = pte.dirty := by
  obtain ⟨table, pagetable, rfl⟩ := Os.pte_eq_some.mp entry
  rw [only.procList] at pagetable
  exact ⟨_, Os.pte_eq_some.mpr ⟨table, pagetable, rfl⟩, (only.pfn _ _).symm,
    (only.valid _ _).symm, (only.dirty _ _).symm⟩

theorem UsedOnly.symm (only : UsedOnly before after) : UsedOnly after before where
  rest := by rw [only.rest]
  pfn table vpn := (only.pfn table vpn).symm
  valid table vpn := (only.valid table vpn).symm
  dirty table vpn := (only.dirty table vpn).symm

theorem Owned.of_usedOnly (owned : Owned config hole before) (only : UsedOnly before after) :
    Owned config hole after where
  owner {frame pcb} outside owner := by
    rw [only.rlt] at owner ⊢
    obtain ⟨old, entry, valid, equal⟩ := owned.owner outside owner
    obtain ⟨pte, entry, samePfn, sameValid, -⟩ := only.symm.pte entry
    exact ⟨pte, entry, sameValid.trans valid, samePfn ▸ equal⟩
  resident entry valid := by
    obtain ⟨old, oldEntry, samePfn, sameValid, -⟩ := only.pte entry
    rw [only.rlt, ← samePfn]
    exact owned.resident oldEntry (sameValid.trans valid)

/-- A frame that nobody owns may be taken out of the map. -/
theorem Owned.vacant (owned : Owned config noHole before) {frame : Nat}
    (free : (before.rlt frame).pcb = none) : Owned config (· = frame) before where
  owner _ owner := owned.owner id owner
  resident {pcb vpn pte} entry valid := by
    obtain ⟨-, inRange, rlt⟩ := owned.resident entry valid
    refine ⟨fun equal => ?_, inRange, rlt⟩
    rw [← equal, rlt] at free
    cases free

/-- Evicting the page in a frame takes the frame out of the map. -/
theorem Owned.evict (owned : Owned config noHole before) (processes : Processes config before)
    {frame : Pfn} {pcb table : Nat}
    (owner : (before.rlt frame.toNat).pcb = some pcb)
    (pagetable : (before.procList pcb).pagetable = some table) :
    Owned config (· = frame.toNat)
      (evictPage config before frame pcb table (before.rlt frame.toNat).vpn) := by
  have entries := processes.pte_evictPage pagetable frame (before.rlt frame.toNat).vpn
  refine ⟨fun {other owning} outside owns => ?_, fun {other vpn pte} entry valid => ?_⟩
  · rw [evictPage_rlt] at owns ⊢
    obtain ⟨pte, entry, valid, equal⟩ := owned.owner id owns
    refine ⟨pte, ?_, valid, equal⟩
    rw [entries, if_neg, entry]
    rintro ⟨rfl, sameVpn⟩
    obtain ⟨victim, victimEntry, -, victimFrame⟩ := owned.owner id owner
    rw [sameVpn, victimEntry] at entry
    obtain rfl : victim = pte := Option.some.inj entry
    exact outside (equal.symm.trans victimFrame)
  · rw [entries] at entry
    rw [evictPage_rlt]
    split at entry
    · obtain ⟨old, -, rfl⟩ := Option.map_eq_some_iff.mp entry
      cases valid
    case isFalse spared =>
      obtain ⟨-, inRange, rlt⟩ := owned.resident entry valid
      refine ⟨fun equal => spared ?_, inRange, rlt⟩
      rw [equal] at rlt
      rw [rlt] at owner
      exact ⟨Option.some.inj owner, by rw [rlt]⟩

/-- Assigning the frame in transit to an absent page closes the hole. -/
theorem Owned.assign {frame : Pfn} (owned : Owned config (· = frame.toNat) before)
    (processes : Processes config before) {current table : Nat} {vpn : Vpn} (write : Bool)
    (pagetable : (before.procList current).pagetable = some table)
    (absent : (before.tables table vpn).valid = false)
    (inRange : frame.toNat < config.numFrames) :
    Owned config noHole (assignFrame before current table frame vpn write) := by
  have entries := processes.pte_assignFrame pagetable frame vpn write
  have absentEntry : before.pte current vpn = some (before.tables table vpn) :=
    Os.pte_eq_some.mpr ⟨table, pagetable, rfl⟩
  have rlt : (assignFrame before current table frame vpn write).rlt =
      Function.update before.rlt frame.toNat { pcb := some current, vpn } := rfl
  refine ⟨fun {other owning} _ owns => ?_, fun {other page pte} entry valid => ?_⟩
  · rw [rlt] at owns ⊢
    by_cases here : other = frame.toNat
    · subst here
      obtain rfl : current = owning := by simpa using owns
      refine ⟨{ pfn := frame, valid := true, used := true, dirty := write }, ?_, rfl, rfl⟩
      simp [entries, absentEntry]
    · rw [Function.update_of_ne here] at owns ⊢
      obtain ⟨old, oldEntry, oldValid, oldFrame⟩ := owned.owner here owns
      refine ⟨old, ?_, oldValid, oldFrame⟩
      rw [entries, if_neg, oldEntry]
      rintro ⟨rfl, sameVpn⟩
      rw [sameVpn, absentEntry] at oldEntry
      obtain rfl := Option.some.inj oldEntry
      rw [absent] at oldValid
      cases oldValid
  · rw [rlt]
    rw [entries] at entry
    split at entry
    case isTrue same =>
      obtain ⟨old, -, rfl⟩ := Option.map_eq_some_iff.mp entry
      obtain ⟨rfl, rfl⟩ := same
      exact ⟨id, inRange, by simp⟩
    case isFalse =>
      obtain ⟨outside, oldRange, oldRlt⟩ := owned.resident entry valid
      exact ⟨id, oldRange, by rw [Function.update_of_ne outside, oldRlt]⟩

end Fault

/-! ## Page faults do not abort -/

section Total

variable {config : Config} {os : Os}

theorem Owned.ownerTable (owned : Owned config noHole os) {frame pcb : Nat}
    (owner : (os.rlt frame).pcb = some pcb) :
    ∃ table, (os.procList pcb).pagetable = some table ∧
      (os.tables table (os.rlt frame).vpn).valid = true := by
  obtain ⟨pte, entry, valid, -⟩ := owned.owner id owner
  obtain ⟨table, pagetable, rfl⟩ := Os.pte_eq_some.mp entry
  exact ⟨table, pagetable, valid⟩

theorem Owned.ownersForked (owned : Owned config noHole os) : os.OwnersForked := by
  intro frame pcb owner
  obtain ⟨table, pagetable, -⟩ := owned.ownerTable owner
  exact ⟨table, pagetable⟩

end Total

/-- What holds between actions. -/
structure Invariant (config : Config) (state : State) : Prop where
  /-- Process control blocks and page tables. -/
  processes : Processes config state.toOs
  /-- Frames and valid page table entries. -/
  owned : Owned config noHole state.toOs
  /-- The TLB repeats the current page table. -/
  coherent : TlbCoherent config state

/-- How the victim frame is vacated: it was free, or its page is evicted. -/
inductive Vacated (config : Config) (os : Os) (pfn : Pfn) : Os → Prop
  | free : (os.rlt pfn.toNat).pcb = none → Vacated config os pfn os
  | evicted {pcb table : Nat} :
      (os.rlt pfn.toNat).pcb = some pcb →
      (os.procList pcb).pagetable = some table →
      Vacated config os pfn (evictPage config os pfn pcb table (os.rlt pfn.toNat).vpn)

/-- A page fault outside the TLB: choose a frame, vacate it, assign it and fill it. -/
structure Faulted (config : Config) (before : Os) (current : Nat) (vpn : Vpn) (write : Bool)
    (pfn : Pfn) (swept vacated after : Os) : Prop where
  /-- The frame chosen by `get_free_frame`. -/
  free : getFreeFrame config before = some (swept, pfn)
  /-- The frame number is in range. -/
  inRange : pfn.toNat < config.numFrames
  /-- The frame is vacated. -/
  vacates : Vacated config swept pfn vacated
  /-- The frame is assigned to the requested page and filled from the swap list. -/
  filled : ∃ table, (before.procList current).pagetable = some table ∧
    after = pageFromDisk config (assignFrame vacated current table pfn vpn write) pfn vpn
      (before.procList current).pid

theorem Vacated.sameProcesses {config : Config} {os vacated : Os} {pfn : Pfn}
    (step : Vacated config os pfn vacated) : SameProcesses os vacated := by
  cases step with
  | free => exact .refl _
  | evicted => exact ⟨by simp, by simp, by simp, by simp⟩

theorem Vacated.owned {config : Config} {os vacated : Os} {pfn : Pfn}
    (step : Vacated config os pfn vacated) (owned : Owned config noHole os)
    (processes : Processes config os) : Owned config (· = pfn.toNat) vacated := by
  cases step with
  | free vacant => exact owned.vacant vacant
  | evicted owner pagetable => exact owned.evict processes owner pagetable

theorem UsedOnly.sameProcesses {before after : Os} (only : UsedOnly before after) :
    SameProcesses before after :=
  ⟨only.procList, only.allocated, only.current, only.currentPagetable⟩

section Faulted

variable {config : Config} {before swept vacated after : Os} {current : Nat} {vpn : Vpn}
  {write : Bool} {pfn : Pfn}

theorem Faulted.only (fault : Faulted config before current vpn write pfn swept vacated after) :
    UsedOnly before swept :=
  getFreeFrame_usedOnly fault.free

private theorem Faulted.sameProcesses
    (fault : Faulted config before current vpn write pfn swept vacated after) :
    SameProcesses before after := by
  obtain ⟨table, -, rfl⟩ := fault.filled
  refine (fault.only.sameProcesses.trans fault.vacates.sameProcesses).trans ⟨?_, ?_, ?_, ?_⟩ <;>
    simp [assignFrame, Os.modifyPte]

theorem Vacated.absent {table : Nat} (step : Vacated config before pfn vacated)
    (absent : (before.tables table vpn).valid = false) :
    (vacated.tables table vpn).valid = false := by
  cases step with
  | free => exact absent
  | @evicted _ victim =>
      by_cases same : table = victim ∧ vpn = (before.rlt pfn.toNat).vpn
      · simp [Os.modifyPte, same]
      · rw [evictPage_tables, Os.modifyPte_other _ _ same]
        exact absent

theorem Faulted.owned
    (fault : Faulted config before current vpn write pfn swept vacated after)
    (owned : Owned config noHole before) (processes : Processes config before)
    (absent : ∀ pte, before.pte current vpn = some pte → pte.valid = false) :
    Owned config noHole after := by
  obtain ⟨table, pagetable, rfl⟩ := fault.filled
  have sweep := fault.only.sameProcesses
  have vacate := fault.vacates.sameProcesses
  have sweptProcesses := processes.of_sameProcesses sweep
  have hole := fault.vacates.owned (owned.of_usedOnly fault.only) sweptProcesses
  have assigned : Owned config noHole (assignFrame vacated current table pfn vpn write) := by
    refine hole.assign (sweptProcesses.of_sameProcesses vacate) write ?_ ?_ fault.inRange
    · rwa [(sweep.trans vacate).procList]
    · apply fault.vacates.absent
      rw [fault.only.valid]
      exact absent _ (Os.pte_eq_some.mpr ⟨table, pagetable, rfl⟩)
  refine ⟨fun outside owner => ?_, fun entry valid => ?_⟩
  · simp only [pageFromDisk_rlt, pageFromDisk_pte] at owner ⊢
    exact assigned.owner outside owner
  · simp only [pageFromDisk_rlt, pageFromDisk_pte] at entry ⊢
    exact assigned.resident entry valid

end Faulted

namespace Invariant

variable {config : Config} {before after : State} {vpn : Vpn} {pfn : Pfn} {write : Bool}

private theorem tlb (invariant : Invariant config before) : TlbInvariant config before :=
  ⟨invariant.coherent, invariant.processes.allocated⟩

/-- The invariant of what does not abort is a part of this one. -/
theorem ready (invariant : Invariant config before) : Ready config before.toOs where
  owners := invariant.owned.ownersForked
  running runs := by
    obtain ⟨table, register, pagetable⟩ := invariant.processes.register runs
    exact ⟨⟨table, pagetable⟩, by simp [register]⟩
  pid forked := (invariant.processes.pid forked).1

private theorem vacated {state evicted : State} (owned : Owned config noHole state.toOs)
    (evict : evictVictim config state pfn = some evicted) :
    Vacated config state.toOs pfn evicted.toOs := by
  rcases evictVictim_cases evict with ⟨rfl, absent⟩ | ⟨pcb, table, owner, pagetable, -, rfl⟩
  · cases owner : (evicted.rlt pfn.toNat).pcb with
    | none => exact .free owner
    | some pcb =>
        obtain ⟨table, pagetable, valid⟩ := owned.ownerTable owner
        obtain ⟨same, samePagetable, invalid⟩ := absent pcb owner
        obtain rfl := Option.some.inj (pagetable.symm.trans samePagetable)
        rw [valid] at invalid
        cases invalid
  · exact .evicted owner pagetable

/-- The calls that `pagefault_handler` makes for the running process. -/
theorem of_pagefaultHandler (invariant : Invariant config before) {current : Nat}
    (running : before.current = some current)
    (handler : pagefaultHandler config before vpn write = some (after, pfn)) :
    ∃ swept evicted table, getFreeFrame config before.toOs = some (swept, pfn) ∧
      pfn.toNat < config.numFrames ∧
      evictVictim config { before with toOs := swept } pfn = some evicted ∧
      Vacated config swept pfn evicted.toOs ∧
      (before.procList current).pagetable = some table ∧
      after.toOs = pageFromDisk config (assignFrame evicted.toOs current table pfn vpn write) pfn
        vpn (before.procList current).pid := by
  obtain ⟨-, swept, evicted, installed, free, inRange, evict, install, rfl⟩ :=
    pagefaultHandler_eq_some.mp handler
  have only := getFreeFrame_usedOnly free
  have vacates : Vacated config swept pfn evicted.toOs :=
    vacated (invariant.owned.of_usedOnly only) evict
  have same := only.sameProcesses.trans vacates.sameProcesses
  obtain ⟨owner, table, runs, register, rfl⟩ := installPage_eq_some.mp install
  rw [same.current] at runs
  obtain rfl := Option.some.inj (running.symm.trans runs)
  rw [same.currentPagetable] at register
  obtain ⟨own, sameRegister, pagetable⟩ := invariant.processes.register running
  obtain rfl := Option.some.inj (register.symm.trans sameRegister)
  exact ⟨swept, evicted, table, free, inRange, evict, vacates, pagetable, by rw [same.procList]⟩

theorem faulted (invariant : Invariant config before) {current : Nat}
    (running : before.current = some current)
    (handler : pagefaultHandler config before vpn write = some (after, pfn)) :
    ∃ swept vacated, Faulted config before.toOs current vpn write pfn swept vacated after.toOs := by
  obtain ⟨swept, evicted, table, free, inRange, -, vacates, pagetable, filled⟩ :=
    invariant.of_pagefaultHandler running handler
  exact ⟨swept, evicted.toOs, free, inRange, vacates, table, pagetable, filled⟩

end Invariant

/-! ## Translations and actions -/

/-- A translation outside the TLB: the page is resident, or it is brought in by a page fault. -/
inductive Translated (config : Config) (before : Os) (current : Nat) (vpn : Vpn) (write : Bool)
    (pfn : Pfn) : Os → Prop
  | resident {pte : Pte} :
      before.pte current vpn = some pte → pte.valid = true → pte.pfn = pfn →
      Translated config before current vpn write pfn before
  | faulted {swept vacated after : Os} :
      (∀ pte, before.pte current vpn = some pte → pte.valid = false) →
      Faulted config { before with countPagefaults := before.countPagefaults + 1 } current vpn
        write pfn swept vacated after →
      Translated config before current vpn write pfn after

section Translated

variable {config : Config} {before after : Os} {current : Nat} {vpn : Vpn} {write : Bool}
  {pfn : Pfn}

theorem Translated.sameProcesses (step : Translated config before current vpn write pfn after) :
    SameProcesses before after := by
  cases step with
  | resident => exact .refl _
  | faulted absent fault =>
      have same := fault.sameProcesses
      exact ⟨same.procList, same.allocated, same.current, same.currentPagetable⟩

theorem Translated.owned (step : Translated config before current vpn write pfn after)
    (owned : Owned config noHole before) (processes : Processes config before) :
    Owned config noHole after := by
  cases step with
  | resident => exact owned
  | faulted absent fault =>
      exact fault.owned ⟨owned.owner, owned.resident⟩
        (processes.of_sameProcesses ⟨rfl, rfl, rfl, rfl⟩) absent

end Translated

namespace Invariant

variable {config : Config} {before after : State}

theorem counted (invariant : Invariant config before) :
    Invariant config { before with countPagefaults := before.countPagefaults + 1 } where
  processes := invariant.processes.of_sameProcesses ⟨rfl, rfl, rfl, rfl⟩
  owned := ⟨invariant.owned.owner, invariant.owned.resident⟩
  coherent := invariant.coherent.shrink (fun _ _ _ => rfl) fun _ _ _ translates => translates

theorem translated (invariant : Invariant config before) {current : Nat}
    (running : before.current = some current) {vpn : Vpn} {write : Bool} {pfn : Pfn}
    (lookup : pagetableLookup config before vpn write = some (after, pfn)) :
    Translated config before.toOs current vpn write pfn after.toOs := by
  obtain ⟨table, register, pagetable⟩ := invariant.processes.register running
  have entry : before.pte current vpn = some (before.tables table vpn) :=
    Os.pte_eq_some.mpr ⟨table, pagetable, rfl⟩
  obtain ⟨own, sameRegister, lookup⟩ := Option.bind_eq_some_iff.mp lookup
  obtain rfl := Option.some.inj (register.symm.trans sameRegister)
  split at lookup
  case isTrue valid =>
    obtain ⟨rfl, found⟩ := Prod.mk.inj (Option.some.inj lookup)
    exact .resident entry valid found
  case isFalse absent =>
    obtain ⟨swept, vacated, fault⟩ := invariant.counted.faulted running lookup
    refine .faulted (fun pte found => ?_) fault
    obtain rfl := Option.some.inj (entry.symm.trans found)
    simpa using absent

/-- Translation does not abort, keeps the invariant, and is one of the two cases of `Translated`
outside the TLB. -/
theorem tlbLookup_total (invariant : Invariant config before) (positive : 0 < config.numFrames)
    {current : Nat} (running : before.current = some current) (vpn : Vpn) (write : Bool) :
    ∃ after pfn, tlbLookup config before vpn write = some (after, pfn) ∧
      Translated config before.toOs current vpn write pfn after.toOs ∧
      Invariant config after ∧ after.Translates vpn pfn := by
  obtain ⟨looked, pfn, lookup⟩ :=
    invariant.ready.pagetableLookup_isSome positive running vpn write
  have translated := invariant.translated running lookup
  have outside := tlbLookup_outsideTlb invariant.coherent vpn write
  rw [lookup, Option.map_some, Option.map_eq_some_iff] at outside
  obtain ⟨⟨after, frame⟩, step, equal⟩ := outside
  obtain ⟨same, rfl⟩ : after.toOs = looked.toOs ∧ frame = pfn := by simpa [outsideTlb] using equal
  obtain ⟨coherent, translates⟩ := tlbLookup_coherent invariant.coherent step
  rw [← same] at translated
  exact ⟨after, frame, step, translated,
    ⟨invariant.processes.of_sameProcesses translated.sameProcesses,
      translated.owned invariant.owned invariant.processes, coherent⟩, translates⟩

theorem of_memory (invariant : Invariant config before)
    (same : after = { before with
      memory := after.memory, countReads := after.countReads, countWrites := after.countWrites }) :
    Invariant config after := by
  rw [same]
  exact ⟨invariant.processes.of_sameProcesses ⟨rfl, rfl, rfl, rfl⟩,
    ⟨invariant.owned.owner, invariant.owned.resident⟩,
    invariant.coherent.shrink (fun _ _ _ => rfl) fun _ _ _ translates => translates⟩

private theorem memLoad (invariant : Invariant config before) (positive : 0 < config.numFrames)
    {va : VAddr} {data : Word} (running : before.current ≠ none)
    (step : memLoad config before va = some (after, data)) : Invariant config after := by
  obtain ⟨current, running⟩ := Option.ne_none_iff_exists'.mp running
  obtain ⟨looked, pfn, lookup, -, kept, -⟩ :=
    invariant.tlbLookup_total positive running (config.vaddrPagenum va) false
  simp only [VirtualMemory.memLoad, lookup, bind, Option.bind_some, Option.some.injEq,
    Prod.mk.injEq] at step
  obtain ⟨rfl, -⟩ := step
  exact kept.of_memory rfl

private theorem memStore (invariant : Invariant config before) (positive : 0 < config.numFrames)
    {va : VAddr} {data : Word} (running : before.current ≠ none)
    (step : memStore config before va data = some after) : Invariant config after := by
  obtain ⟨current, running⟩ := Option.ne_none_iff_exists'.mp running
  obtain ⟨looked, pfn, lookup, -, kept, -⟩ :=
    invariant.tlbLookup_total positive running (config.vaddrPagenum va) true
  simp only [VirtualMemory.memStore, lookup, bind, Option.bind_some, Option.some.injEq] at step
  subst step
  exact kept.of_memory rfl

/-- Switching to a forked process loads its page table and empties the TLB. -/
theorem procSwitch (invariant : Invariant config before) {pid : UInt32}
    (forked : (before.procList pid.toNat).pagetable ≠ none)
    (step : procSwitch config before pid = some after) : Invariant config after := by
  obtain ⟨table, pagetable⟩ := Option.ne_none_iff_exists'.mp forked
  unfold VirtualMemory.procSwitch at step
  split at step
  case isFalse => cases step
  case isTrue =>
    simp only [pagetable, bind, Option.bind_some, Option.some.injEq] at step
    subst step
    have old := invariant.processes
    refine ⟨⟨⟨old.allocated.procList, fun register current => ?_⟩, old.injective, old.pid,
      fun running => ?_, fun idle => ?_⟩, ⟨invariant.owned.owner, invariant.owned.resident⟩,
      ⟨fun i inside valid => ?_, fun i inside _ _ valid => ?_⟩⟩
    · obtain rfl : table = register := Option.some.inj current
      exact old.allocated.procList _ _ pagetable
    · obtain rfl := Option.some.inj running
      exact ⟨table, rfl, pagetable⟩
    · cases idle
    · rw [tlbClearall_invalid _ inside] at valid
      cases valid
    · rw [tlbClearall_invalid _ inside] at valid
      cases valid

theorem procFork_pte (allocated : before.Allocated) {pid : UInt32}
    (step : procFork config before pid = some after) (pcb : Nat) (vpn : Vpn) :
    after.pte pcb vpn = if pcb = pid.toNat then some .zero else before.pte pcb vpn := by
  unfold VirtualMemory.procFork at step
  split at step
  case isFalse => cases step
  case isTrue =>
    obtain rfl := Option.some.inj step
    by_cases forked : pcb = pid.toNat
    · simp [Os.pte, forked]
    · simp only [Os.pte, Function.update_of_ne forked, if_neg forked]
      cases pagetable : (before.procList pcb).pagetable with
      | none => rfl
      | some table =>
          have older := allocated.procList _ _ pagetable
          simp [Function.update_of_ne older.ne]

theorem procFork_unowned (invariant : Invariant config before) {pid : UInt32}
    (idle : before.current ≠ some pid.toNat)
    (unowned : ∀ frame, (before.rlt frame).pcb ≠ some pid.toNat)
    (step : procFork config before pid = some after) : Invariant config after := by
  have tlbKept := procFork_tlbInvariant invariant.tlb step
  have entries := procFork_pte invariant.processes.allocated step
  unfold VirtualMemory.procFork at step
  split at step
  case isFalse => cases step
  case isTrue inRange =>
    obtain rfl := Option.some.inj step
    have old := invariant.processes
    refine ⟨⟨tlbKept.allocated, ?_, ?_, ?_, old.idle⟩, ⟨?_, ?_⟩, tlbKept.coherent⟩
    · intro first second table firstTable secondTable
      by_cases firstForked : first = pid.toNat <;> by_cases secondForked : second = pid.toNat
      · rw [firstForked, secondForked]
      · subst firstForked
        obtain rfl : before.allocated = table := by simpa using firstTable
        have older := old.allocated.procList second _ (by simpa [secondForked] using secondTable)
        exact absurd older (lt_irrefl _)
      · subst secondForked
        obtain rfl : before.allocated = table := by simpa using secondTable
        have older := old.allocated.procList first _ (by simpa [firstForked] using firstTable)
        exact absurd older (lt_irrefl _)
      · exact old.injective (by simpa [firstForked] using firstTable)
          (by simpa [secondForked] using secondTable)
    · intro pcb table pagetable
      by_cases forked : pcb = pid.toNat
      · subst forked
        simpa using inRange
      · simpa [forked] using old.pid (by simpa [forked] using pagetable)
    · intro current running
      obtain ⟨table, register, pagetable⟩ := old.register running
      have other : current ≠ pid.toNat := by
        rintro rfl
        exact idle running
      exact ⟨table, register, by simpa [other] using pagetable⟩
    · intro frame pcb _ owner
      obtain ⟨pte, entry, valid, equal⟩ := invariant.owned.owner id owner
      refine ⟨pte, ?_, valid, equal⟩
      rw [entries, if_neg]
      · exact entry
      · rintro rfl
        exact unowned frame owner
    · intro pcb vpn pte entry valid
      rw [entries] at entry
      split at entry
      · obtain rfl := Option.some.inj entry
        cases valid
      · exact invariant.owned.resident entry valid

theorem idle_of_fresh (invariant : Invariant config before) {pcb : Nat}
    (fresh : (before.procList pcb).pagetable = none) : before.current ≠ some pcb := by
  intro running
  obtain ⟨table, -, pagetable⟩ := invariant.processes.register running
  rw [fresh] at pagetable
  cases pagetable

theorem unowned_of_fresh (invariant : Invariant config before) {pcb : Nat}
    (fresh : (before.procList pcb).pagetable = none) (frame : Nat) :
    (before.rlt frame).pcb ≠ some pcb := by
  intro owner
  obtain ⟨table, pagetable, -⟩ := invariant.owned.ownerTable owner
  rw [fresh] at pagetable
  cases pagetable

private theorem procFork (invariant : Invariant config before) {pid : UInt32}
    (fresh : (before.procList pid.toNat).pagetable = none)
    (step : procFork config before pid = some after) : Invariant config after :=
  invariant.procFork_unowned (invariant.idle_of_fresh fresh) (invariant.unowned_of_fresh fresh) step

theorem simInit (config : Config) : Invariant config simInit where
  processes :=
    { allocated := (simInit_tlbInvariant config).allocated
      injective := by simp [VirtualMemory.simInit]
      pid := by simp [VirtualMemory.simInit]
      register := by simp [VirtualMemory.simInit]
      idle := fun _ => rfl }
  owned :=
    { owner := by simp [VirtualMemory.simInit]
      resident := by simp [VirtualMemory.simInit, Os.pte] }
  coherent := (simInit_tlbInvariant config).coherent

private theorem act (invariant : Invariant config before) (positive : 0 < config.numFrames)
    {action : Action} {output : Option Word} (legal : action.Legal config before)
    (step : act config before action = some (after, output)) : Invariant config after := by
  cases action with
  | fork pid =>
      obtain ⟨forked, fork, equal⟩ := Option.map_eq_some_iff.mp step
      obtain ⟨rfl, -⟩ := Prod.mk.inj equal
      exact invariant.procFork legal.2 fork
  | switch pid =>
      obtain ⟨switched, switch, equal⟩ := Option.map_eq_some_iff.mp step
      obtain ⟨rfl, -⟩ := Prod.mk.inj equal
      exact invariant.procSwitch legal switch
  | load va =>
      obtain ⟨⟨loaded, data⟩, load, equal⟩ := Option.map_eq_some_iff.mp step
      obtain ⟨rfl, -⟩ := Prod.mk.inj equal
      exact invariant.memLoad positive legal load
  | store va data =>
      obtain ⟨stored, store, equal⟩ := Option.map_eq_some_iff.mp step
      obtain ⟨rfl, -⟩ := Prod.mk.inj equal
      exact invariant.memStore positive legal store

private theorem translates_lt (invariant : Invariant config after) {vpn : Vpn} {pfn : Pfn}
    (running : after.current ≠ none) (translates : after.Translates vpn pfn) :
    pfn.toNat < config.numFrames := by
  obtain ⟨current, running⟩ := Option.ne_none_iff_exists'.mp running
  obtain ⟨table, register, pagetable⟩ := invariant.processes.register running
  obtain ⟨designated, register', valid, rfl⟩ := translates
  obtain rfl := Option.some.inj (register.symm.trans register')
  exact (invariant.owned.resident (Os.pte_eq_some.mpr ⟨table, pagetable, rfl⟩) valid).2.1

private theorem physicalAddress_lt (invariant : Invariant config after) (accepted : config.Accepted)
    {vpn : Vpn} {pfn : Pfn} (running : after.current ≠ none)
    (translates : after.Translates vpn pfn) (va : VAddr) :
    physicalAddress config pfn va < config.memSize := by
  have frame := invariant.translates_lt running translates
  calc physicalAddress config pfn va
      < pfn.toNat * config.pageSize + config.pageSize :=
        Nat.add_lt_add_left (accepted.vaddrOffset_lt va) _
    _ = (pfn.toNat + 1) * config.pageSize := (Nat.succ_mul _ _).symm
    _ ≤ config.numFrames * config.pageSize := Nat.mul_le_mul_right _ frame
    _ = config.memSize := accepted.numFrames_mul

/-- Every access translates, through the assertions of `pagefault_handler`, to an address inside
memory. -/
theorem access (invariant : Invariant config before) (accepted : config.Accepted)
    (running : before.current ≠ none) (va : VAddr) (write : Bool) :
    ∃ after pfn, tlbLookup config before (config.vaddrPagenum va) write = some (after, pfn) ∧
      physicalAddress config pfn va < config.memSize := by
  obtain ⟨current, isCurrent⟩ := Option.ne_none_iff_exists'.mp running
  obtain ⟨after, pfn, lookup, step, kept, translates⟩ :=
    invariant.tlbLookup_total accepted.numFrames_pos isCurrent (config.vaddrPagenum va) write
  refine ⟨after, pfn, lookup, kept.physicalAddress_lt accepted ?_ translates va⟩
  rwa [step.sameProcesses.current]

private theorem act_isSome (invariant : Invariant config before) (accepted : config.Accepted)
    {action : Action} (legal : action.Legal config before) :
    (VirtualMemory.act config before action).isSome := by
  cases action with
  | fork pid => simp [VirtualMemory.act, VirtualMemory.procFork, legal.1]
  | switch pid =>
      obtain ⟨table, pagetable⟩ := Option.ne_none_iff_exists'.mp legal
      have inRange := (invariant.processes.pid pagetable).2
      simp [VirtualMemory.act, VirtualMemory.procSwitch, inRange, pagetable]
  | load va =>
      obtain ⟨looked, pfn, lookup, -⟩ := invariant.access accepted legal va false
      simp [VirtualMemory.act, VirtualMemory.memLoad, lookup]
  | store va data =>
      obtain ⟨looked, pfn, lookup, -⟩ := invariant.access accepted legal va true
      simp [VirtualMemory.act, VirtualMemory.memStore, lookup]

theorem act_total (invariant : Invariant config before) (accepted : config.Accepted)
    {action : Action} (legal : action.Legal config before) :
    ∃ after, LegalStep config before action after := by
  obtain ⟨⟨after, output⟩, step⟩ := Option.isSome_iff_exists.mp
    (invariant.act_isSome accepted legal)
  exact ⟨after, legal, output, step⟩

end Invariant

/-! ## Frame ownership in every reachable state -/

private theorem Invariant.of_trace {config : Config} (accepted : config.Accepted)
    {actions : List Action} {state : State}
    (trace : Trace (LegalStep config) VirtualMemory.simInit actions state) :
    Invariant config state :=
  trace.invariant (.simInit config) fun invariant ⟨legal, _, step⟩ =>
    invariant.act accepted.numFrames_pos legal step

/-- In every state that legal actions reach: the owner of a frame has a valid page table entry for
it; a valid entry has a frame in range that the reverse lookup table gives to its page, so that no
two pages share a frame; the accesses of a running process pass every assertion and stay inside the
page table and memory; and every legal action can be taken. -/
theorem frame_ownership {config : Config} (accepted : config.Accepted) {actions : List Action}
    {state : State} (trace : Trace (LegalStep config) simInit actions state) :
    (∀ frame pcb, (state.rlt frame).pcb = some pcb →
      ∃ pte, state.pte pcb (state.rlt frame).vpn = some pte ∧ pte.valid = true ∧
        pte.pfn.toNat = frame) ∧
    (∀ pcb vpn pte, state.pte pcb vpn = some pte → pte.valid = true →
      pte.pfn.toNat < config.numFrames ∧
        state.rlt pte.pfn.toNat = { pcb := some pcb, vpn }) ∧
    (∀ pcb vpn pte pcb' vpn' pte', state.pte pcb vpn = some pte → pte.valid = true →
      state.pte pcb' vpn' = some pte' → pte'.valid = true → pte.pfn = pte'.pfn →
      pcb = pcb' ∧ vpn = vpn') ∧
    (state.current ≠ none → ∀ va write, (config.vaddrPagenum va).toNat < config.numPte ∧
      ∃ after pfn, tlbLookup config state (config.vaddrPagenum va) write = some (after, pfn) ∧
        physicalAddress config pfn va < config.memSize) ∧
    ∀ action : Action, action.Legal config state → ∃ after, LegalStep config state action after := by
  have invariant := Invariant.of_trace accepted trace
  refine ⟨fun frame pcb owner => invariant.owned.owner id owner,
    fun pcb vpn pte entry valid => (invariant.owned.resident entry valid).2, ?_, ?_,
    fun action legal => invariant.act_total accepted legal⟩
  · intro pcb vpn pte pcb' vpn' pte' entry valid entry' valid' shared
    have first := (invariant.owned.resident entry valid).2.2
    have second := (invariant.owned.resident entry' valid').2.2
    rw [shared, second] at first
    simpa [eq_comm] using first
  · exact fun running va write =>
      ⟨accepted.vaddrPagenum_lt va, invariant.access accepted running va write⟩

/-- Two processes under the default settings. -/
theorem frame_ownership_defaults :
    ∃ state, Trace (LegalStep .defaults) simInit
        [.fork 0, .fork 1, .switch 0, .load 5, .switch 1, .store 7 3] state ∧
      ∀ va write, ∃ after pfn,
        tlbLookup .defaults state (Config.defaults.vaddrPagenum va) write = some (after, pfn) ∧
          physicalAddress .defaults pfn va < Config.defaults.memSize := by
  obtain ⟨state, folds, running⟩ := (Option.any_eq_true _ _).mp (by decide +kernel :
    (List.foldlM (legalAct .defaults) simInit
      [.fork 0, .fork 1, .switch 0, .load 5, .switch 1, .store 7 3]).any
        (fun state => state.current ≠ none) = true)
  have accepted : Config.defaults.Accepted := ⟨[], some "references", rfl⟩
  have trace := legalTrace_of_foldlM folds
  exact ⟨state, trace, fun va write =>
    ((frame_ownership accepted trace).2.2.2.1 (of_decide_eq_true running) va write).2⟩

end CS2200.VirtualMemory
