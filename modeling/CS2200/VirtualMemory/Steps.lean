import CS2200.VirtualMemory.Coherence

/-!
# What one action does

The driver may fork an identifier again. As long as frames, swap list and page table register hold
nothing of the earlier process, such a fork behaves like the fork of a new identifier. For runs in
which all forks are of this kind, this file says what each action does to the operating system's
part of the state, and what becomes of every byte of every page.
-/

namespace CS2200.VirtualMemory

/-! ## Actions that may fork an identifier again -/

/-- Forks use identifiers in range, switches go to forked processes, and accesses are made by a
running process. -/
def Action.Possible (config : Config) (state : State) : Action → Prop
  | .fork pid => pid.toNat < config.maxJobs
  | .switch pid => (state.procList pid.toNat).pagetable ≠ none
  | .load _ | .store _ _ => state.current ≠ none

/-- One possible action that does not abort. -/
def PossibleStep (config : Config) (before : State) (action : Action) (after : State) : Prop :=
  action.Possible config before ∧ ∃ output, act config before action = some (after, output)

instance (config : Config) (state : State) : (action : Action) →
    Decidable (action.Possible config state)
  | .fork _ => inferInstanceAs (Decidable (_ < _))
  | .switch _ => inferInstanceAs (Decidable (_ ≠ _))
  | .load _ | .store _ _ => inferInstanceAs (Decidable (_ ≠ _))

/-- The state after one possible action. -/
def possibleAct (config : Config) (state : State) (action : Action) : Option State :=
  if action.Possible config state then (act config state action).map Prod.fst else none

theorem possibleTrace_of_foldlM {config : Config} {actions : List Action} {state : State}
    (folds : actions.foldlM (possibleAct config) simInit = some state) :
    Trace (PossibleStep config) simInit actions state :=
  (Trace.of_foldlM folds).mono fun step => by
    simpa [possibleAct, PossibleStep, Option.ite_none_right_eq_some] using step

/-- An action that forks, if anything, a process of which nothing is left. -/
def CleanStep (config : Config) (before : State) (action : Action) (after : State) : Prop :=
  PossibleStep config before action after ∧ ∀ pid, action = .fork pid → before.Unused pid

/-- What an action does to the operating system's part of the state. -/
inductive Effect (config : Config) (before : Os) : Action → Os → Prop
  | fork {pid : UInt32} {after : Os} :
      before.Unused pid → after.memory = before.memory → after.rlt = before.rlt →
      after.swapfile = before.swapfile → after.current = before.current →
      (∀ pcb vpn, after.pte pcb vpn = if pcb = pid.toNat then some .zero else before.pte pcb vpn) →
      after.procList = Function.update before.procList pid.toNat
        { pid, pagetable := some before.allocated } →
      Effect config before (.fork pid) after
  | switch {pid : UInt32} {after : Os} :
      SamePages before after → after.current = some pid.toNat →
      Effect config before (.switch pid) after
  | load {va : VAddr} {current : Nat} {pfn : Pfn} {looked after : Os} :
      before.current = some current →
      Translated config before current (config.vaddrPagenum va) false pfn looked →
      SamePages looked after → after.current = before.current →
      Effect config before (.load va) after
  | store {va : VAddr} {data : Word} {current : Nat} {pte : Pte} {looked after : Os} :
      before.current = some current →
      Translated config before current (config.vaddrPagenum va) true pte.pfn looked →
      Owned config noHole looked →
      looked.pte current (config.vaddrPagenum va) = some pte → pte.valid = true →
      SamePages { looked with
        memory := Function.update looked.memory (physicalAddress config pte.pfn va) data } after →
      after.current = before.current →
      Effect config before (.store va data) after

section Effects

variable {config : Config} {before after : State} {action : Action}

theorem Translated.target {current : Nat} {vpn : Vpn} {write : Bool} {pfn : Pfn} {looked : Os}
    (step : Translated config before.toOs current vpn write pfn looked)
    (consistent : Consistent config before) (running : before.current = some current) {k : Nat}
    (inside : k < config.pageSize) :
    looked.content config current vpn k = before.content config current vpn k := by
  obtain ⟨table, -, pagetable⟩ := consistent.invariant.processes.register running
  obtain ⟨own, -⟩ := consistent.invariant.processes.pid pagetable
  have carried : Carried config before.toOs (before.procList current).pid vpn
      { before with toOs := looked }.toOs :=
    Translated.carried (by rwa [own]) consistent (by rw [own, pagetable]; exact nofun)
  have target := carried.target inside
  rwa [own] at target

theorem Consistent.act_load (consistent : Consistent config before) (accepted : config.Accepted)
    {current : Nat} (running : before.current = some current) (va : VAddr) :
    ∃ after, act config before (.load va) = some (after,
        some (before.content config current (config.vaddrPagenum va) (config.vaddrOffset va))) ∧
      Consistent config after ∧ Effect config before.toOs (.load va) after.toOs := by
  obtain ⟨looked, _, pte, lookup, kept, step, entry, valid, rfl⟩ :=
    consistent.lookup accepted running va false
  have same : SamePages looked.toOs { looked.toOs with countReads := looked.countReads + 1 } :=
    ⟨rfl, rfl, rfl, rfl, rfl⟩
  refine ⟨{ looked with countReads := looked.countReads + 1 }, ?_,
    kept.of_samePages (kept.invariant.of_memory rfl) same,
    .load running step same step.sameProcesses.current⟩
  rw [← step.target consistent running (accepted.vaddrOffset_lt va),
    Os.content_resident entry valid]
  simp [act, memLoad, lookup, physicalAddress]

theorem Consistent.act_store (consistent : Consistent config before) (accepted : config.Accepted)
    {current : Nat} (running : before.current = some current) (va : VAddr) (data : Word) :
    ∃ after, act config before (.store va data) = some (after, none) ∧
      Consistent config after ∧ Effect config before.toOs (.store va data) after.toOs := by
  obtain ⟨looked, _, pte, lookup, kept, step, entry, valid, rfl⟩ :=
    consistent.lookup accepted running va true
  refine ⟨{ looked with
    countWrites := looked.countWrites + 1
    memory := Function.update looked.memory (physicalAddress config pte.pfn va) data }, ?_,
    ⟨kept.invariant.of_memory rfl, ⟨kept.swapped.unique, kept.swapped.absent⟩, kept.inTable⟩,
    .store running step kept.invariant.owned entry valid ⟨rfl, rfl, rfl, rfl, rfl⟩
      step.sameProcesses.current⟩
  simp [act, memStore, lookup]

private theorem Consistent.procSwitch (consistent : Consistent config before) {pid : UInt32}
    (forked : (before.procList pid.toNat).pagetable ≠ none)
    (step : procSwitch config before pid = some after) :
    Consistent config after ∧ Effect config before.toOs (.switch pid) after.toOs := by
  have kept := consistent.invariant.procSwitch forked step
  obtain ⟨table, pagetable⟩ := Option.ne_none_iff_exists'.mp forked
  unfold VirtualMemory.procSwitch at step
  split at step
  case isFalse => cases step
  case isTrue =>
    simp only [pagetable, bind, Option.bind_some, Option.some.injEq] at step
    subst step
    exact ⟨consistent.of_samePages kept ⟨rfl, rfl, rfl, rfl, rfl⟩,
      .switch ⟨rfl, rfl, rfl, rfl, rfl⟩ rfl⟩

private theorem Consistent.forkEffect (consistent : Consistent config before) {pid : UInt32}
    (unused : before.Unused pid) (step : VirtualMemory.procFork config before pid = some after) :
    Effect config before.toOs (.fork pid) after.toOs := by
  have entries := Invariant.procFork_pte consistent.invariant.processes.allocated step
  unfold VirtualMemory.procFork at step
  split at step
  case isFalse => cases step
  case isTrue =>
    obtain rfl := Option.some.inj step
    exact .fork unused rfl rfl rfl rfl entries rfl

/-- A clean step keeps the invariant and has the effect of its action. -/
theorem CleanStep.effect (step : CleanStep config before action after)
    (consistent : Consistent config before) (accepted : config.Accepted) :
    Consistent config after ∧ Effect config before.toOs action after.toOs := by
  obtain ⟨⟨possible, output, performs⟩, unused⟩ := step
  cases action with
  | fork pid =>
      obtain ⟨forked, fork, equal⟩ := Option.map_eq_some_iff.mp performs
      obtain ⟨rfl, -⟩ := Prod.mk.inj equal
      exact ⟨(consistent.procFork (unused pid rfl) fork).1,
        consistent.forkEffect (unused pid rfl) fork⟩
  | switch pid =>
      obtain ⟨switched, switch, equal⟩ := Option.map_eq_some_iff.mp performs
      obtain ⟨rfl, -⟩ := Prod.mk.inj equal
      exact consistent.procSwitch possible switch
  | load va =>
      obtain ⟨current, running⟩ := Option.ne_none_iff_exists'.mp possible
      obtain ⟨loaded, load, kept⟩ := consistent.act_load accepted running va
      obtain ⟨rfl, -⟩ := Prod.mk.inj (Option.some.inj (performs.symm.trans load))
      exact kept
  | store va data =>
      obtain ⟨current, running⟩ := Option.ne_none_iff_exists'.mp possible
      obtain ⟨stored, store, kept⟩ := consistent.act_store accepted running va data
      obtain ⟨rfl, -⟩ := Prod.mk.inj (Option.some.inj (performs.symm.trans store))
      exact kept

/-- Nothing is left of an identifier that was not forked before. -/
theorem LegalStep.clean (step : LegalStep config before action after)
    (consistent : Consistent config before) : CleanStep config before action after := by
  obtain ⟨legal, output, performs⟩ := step
  refine ⟨⟨?_, output, performs⟩, ?_⟩
  · cases action with
    | fork pid => exact legal.1
    | switch pid => exact legal
    | load va => exact legal
    | store va data => exact legal
  · rintro pid rfl
    exact consistent.unused_of_fresh legal.2

theorem Effect.unused {os forked : Os} {pid : UInt32} (effect : Effect config os (.fork pid) forked) :
    forked.Unused pid := by
  cases effect with
  | fork unused memory rlt swapfile current =>
      exact ⟨by rw [current]; exact unused.idle, by rw [rlt]; exact unused.unowned,
        by rw [swapfile]; exact unused.unsaved⟩

end Effects

/-! ## Runs -/

section Runs

variable {config : Config} {actions : List Action} {state : State}

theorem Consistent.of_cleanTrace (accepted : config.Accepted)
    (trace : Trace (CleanStep config) VirtualMemory.simInit actions state) :
    Consistent config state :=
  trace.invariant (.simInit accepted) fun consistent step => (step.effect consistent accepted).1

private theorem Consistent.of_legalTrace {start : State} (accepted : config.Accepted)
    (consistent : Consistent config start)
    (trace : Trace (LegalStep config) start actions state) : Consistent config state :=
  trace.invariant consistent fun kept step => ((step.clean kept).effect kept accepted).1

theorem Consistent.of_trace (accepted : config.Accepted)
    (trace : Trace (LegalStep config) VirtualMemory.simInit actions state) :
    Consistent config state :=
  .of_legalTrace accepted (.simInit accepted) trace

theorem cleanTrace_of_trace (accepted : config.Accepted)
    (trace : Trace (LegalStep config) simInit actions state) :
    Trace (CleanStep config) simInit actions state := by
  induction trace with
  | nil => exact .nil
  | snoc earlier step ih => exact ih.snoc (step.clean (.of_trace accepted earlier))

/-- The process that runs after a sequence of actions. -/
def running (actions : List Action) : Option UInt32 :=
  actions.foldl
    (fun pid action =>
      match action with
      | .switch next => some next
      | .fork _ | .load _ | .store _ _ => pid)
    none

private theorem running_snoc (actions : List Action) (action : Action) :
    running (actions ++ [action]) =
      match action with
      | .switch next => some next
      | .fork _ | .load _ | .store _ _ => running actions := by
  cases action <;> simp [running, List.foldl_append]

theorem current_eq_running (accepted : config.Accepted)
    (trace : Trace (CleanStep config) simInit actions state) :
    state.current = (running actions).map UInt32.toNat := by
  induction trace with
  | nil => rfl
  | snoc earlier step ih =>
      obtain ⟨-, effect⟩ := step.effect (.of_cleanTrace accepted earlier) accepted
      rw [running_snoc]
      cases effect with
      | fork _ _ _ _ current => rw [current, ih]
      | switch _ current => exact current
      | load _ _ _ current => rw [current, ih]
      | store _ _ _ _ _ _ current => rw [current, ih]

end Runs

/-! ## Bytes -/

section Bytes

variable {config : Config} {before after : State} {action : Action}

/-- A translation leaves the bytes of a page alone, and a clean page in its frame, or forgets the
page. -/
theorem Translated.content {current : Nat} {vpn : Vpn} {write : Bool} {pfn : Pfn} {looked : Os}
    (step : Translated config before.toOs current vpn write pfn looked)
    (consistent : Consistent config before) {pcb table : Nat}
    (forked : (before.procList pcb).pagetable = some table) (page : Vpn) :
    ((∀ pte, before.pte pcb page = some pte → pte.valid = true → pte.dirty = false →
        ∃ kept, looked.pte pcb page = some kept ∧ kept.valid = true) ∧
      ∀ {k}, k < config.pageSize →
        looked.content config pcb page k = before.content config pcb page k) ∨
    ∀ {k}, k < config.pageSize → looked.content config pcb page k = 0 := by
  obtain ⟨⟨processes, owned, -⟩, swapped, -⟩ := consistent
  have lookedOwned := step.owned owned processes
  generalize before.toOs = os at *
  cases step with
  | resident => exact .inl ⟨fun pte entry valid _ => ⟨pte, entry, valid⟩, fun _ => rfl⟩
  | @faulted swept vacated _ absent fault =>
      have countedOwned : Owned config noHole
          { os with countPagefaults := os.countPagefaults + 1 } := ⟨owned.owner, owned.resident⟩
      have countedProcesses : Processes config
          { os with countPagefaults := os.countPagefaults + 1 } :=
        processes.of_sameProcesses ⟨rfl, rfl, rfl, rfl⟩
      by_cases forgets : os.Forgets pfn pcb page
      · exact .inr fun inside => fault.content_forgotten ⟨swapped.unique, swapped.absent⟩
          countedOwned countedProcesses absent forked forgets inside
      · refine .inl ⟨fun pte entry valid clean => ?_, fun inside =>
          fault.content_kept countedOwned countedProcesses absent forked forgets inside⟩
        have resident := (owned.resident entry valid).2.2
        have elsewhere : pte.pfn.toNat ≠ pfn.toNat := fun same =>
          forgets ⟨by rw [← same, resident], pte, entry, clean⟩
        have rlt : looked.rlt pte.pfn.toNat = { pcb := some pcb, vpn := page } := by
          rw [fault.rlt, Function.update_of_ne elsewhere]
          exact resident
        obtain ⟨kept, keptEntry, keptValid, -⟩ := lookedOwned.owner id (by rw [rlt])
        rw [rlt] at keptEntry
        exact ⟨kept, keptEntry, keptValid⟩

/-- After an action a byte is zero, what it was before, or what the action stored there. -/
theorem Effect.content (effect : Effect config before.toOs action after.toOs)
    (consistent : Consistent config before) (accepted : config.Accepted) {pcb table : Nat}
    (forked : (after.procList pcb).pagetable = some table) (page : Vpn) {k : Nat}
    (inside : k < config.pageSize) :
    after.content config pcb page k = 0 ∨
    ((before.procList pcb).pagetable = some table ∧ (∀ pid, action = .fork pid → pcb ≠ pid.toNat) ∧
      after.content config pcb page k = before.content config pcb page k) ∨
    ∃ va, action = .store va (after.content config pcb page k) ∧ before.current = some pcb ∧
      page = config.vaddrPagenum va ∧ k = config.vaddrOffset va := by
  generalize after.toOs = final at *
  cases effect with
  | @fork pid _ unused memory rlt swapfile current entries procList =>
      by_cases same : pcb = pid.toNat
      · refine .inl ?_
        rw [Os.content_absent]
        · refine Os.saved_eq_zero (fun saved member => ?_) k
          rw [swapfile] at member
          rintro ⟨samePid, -⟩
          rw [procList, same, Function.update_self] at samePid
          exact unused.unsaved saved member samePid
        · intro pte entry
          rw [entries, if_pos same] at entry
          obtain rfl := Option.some.inj entry
          rfl
      · rw [procList, Function.update_of_ne same] at forked
        refine .inr (.inl ⟨forked, ?_, ?_⟩)
        · rintro _ ⟨⟩
          exact same
        · simp only [Os.content, Os.saved, entries, if_neg same, memory, swapfile, procList,
            Function.update_of_ne same]
  | switch same current =>
      refine .inr (.inl ⟨by rwa [← same.procList], fun _ forks => ?_, by rw [same.content]⟩)
      cases forks
  | load running step same current =>
      rw [same.procList, step.sameProcesses.procList] at forked
      rw [same.content]
      rcases step.content consistent forked page with ⟨-, kept⟩ | zero
      · refine .inr (.inl ⟨forked, fun _ forks => ?_, kept inside⟩)
        cases forks
      · exact .inl (zero inside)
  | @store va data owner pte _ _ running step owned entry valid same current =>
      have beforeForked : (before.procList pcb).pagetable = some table := by
        rwa [same.procList, step.sameProcesses.procList] at forked
      have written := Os.content_write owned accepted entry valid data pcb page inside
      rw [← same.content] at written
      by_cases here : pcb = owner ∧ page = config.vaddrPagenum va ∧ k = config.vaddrOffset va
      · rw [if_pos here] at written
        obtain ⟨rfl, rfl, rfl⟩ := here
        exact .inr (.inr ⟨_, by rw [written], running, rfl, rfl⟩)
      · rw [written, if_neg here]
        rcases step.content consistent beforeForked page with ⟨-, kept⟩ | zero
        · refine .inr (.inl ⟨beforeForked, fun _ forks => ?_, kept inside⟩)
          cases forks
        · exact .inl (zero inside)

end Bytes

/-! ## Page table entries -/

/-- An action of the running process accesses one of its pages. -/
def Action.Accesses (config : Config) (os : Os) (pcb : Nat) (vpn : Vpn) : Action → Prop
  | .fork _ | .switch _ => False
  | .load va | .store va _ => os.current = some pcb ∧ config.vaddrPagenum va = vpn

/-- The second argument of the translation that an action asks for. -/
def Action.write : Action → Bool
  | .fork _ | .switch _ | .load _ => false
  | .store _ _ => true

/-- An action accesses a page that is not resident, so that a page fault brings it in. -/
def Action.BringsIn (config : Config) (os : Os) (pcb : Nat) (vpn : Vpn) (action : Action) : Prop :=
  action.Accesses config os pcb vpn ∧ ∀ pte, os.pte pcb vpn = some pte → pte.valid = false

section Entries

variable {config : Config} {before after : State} {action : Action}

theorem Faulted.entry {os swept vacated faulted : Os} {current : Nat} {vpn : Vpn} {write : Bool}
    {pfn : Pfn} (fault : Faulted config os current vpn write pfn swept vacated faulted)
    (processes : Processes config os) :
    faulted.pte current vpn = some { pfn, valid := true, used := true, dirty := write } := by
  obtain ⟨table, pagetable, rfl⟩ := fault.filled
  have same := fault.only.sameProcesses.trans fault.vacates.sameProcesses
  have owning : (vacated.procList current).pagetable = some table := by rwa [same.procList]
  rw [pageFromDisk_pte, (processes.of_sameProcesses same).pte_assignFrame owning,
    if_pos ⟨rfl, rfl⟩, Os.pte_of_forked owning, Option.map_some]

/-- A resident page was brought in by the fault, or its entry was there after the sweep. -/
theorem Faulted.entry_swept {os swept vacated faulted : Os} {current : Nat} {vpn : Vpn}
    {write : Bool} {pfn : Pfn}
    (fault : Faulted config os current vpn write pfn swept vacated faulted)
    (processes : Processes config os) {pcb : Nat} {page : Vpn} {pte : Pte}
    (entry : faulted.pte pcb page = some pte) (valid : pte.valid = true) :
    (pcb = current ∧ page = vpn ∧ pte = { pfn, valid := true, used := true, dirty := write }) ∨
      swept.pte pcb page = some pte := by
  obtain ⟨table, pagetable, rfl⟩ := fault.filled
  have sweep := fault.only.sameProcesses
  have same := sweep.trans fault.vacates.sameProcesses
  have sweptProcesses := processes.of_sameProcesses sweep
  have vacatedProcesses := sweptProcesses.of_sameProcesses fault.vacates.sameProcesses
  rw [pageFromDisk_pte, vacatedProcesses.pte_assignFrame (by rwa [same.procList])] at entry
  split at entry
  case isTrue here =>
    obtain ⟨rfl, rfl⟩ := here
    obtain ⟨old, -, rfl⟩ := Option.map_eq_some_iff.mp entry
    exact .inl ⟨rfl, rfl, rfl⟩
  case isFalse =>
    refine .inr ?_
    cases fault.vacates with
    | free => exact entry
    | evicted owner owning =>
        rw [sweptProcesses.pte_evictPage owning] at entry
        split at entry
        · obtain ⟨old, -, rfl⟩ := Option.map_eq_some_iff.mp entry
          cases valid
        · exact entry

/-- A resident page was brought in by the translation or had the same frame and dirty bit before. -/
theorem Translated.entry {os looked : Os} {current : Nat} {vpn : Vpn} {write : Bool} {pfn : Pfn}
    (step : Translated config os current vpn write pfn looked)
    (processes : Processes config os) {pcb : Nat} {page : Vpn} {pte : Pte}
    (entry : looked.pte pcb page = some pte) (valid : pte.valid = true) :
    (pcb = current ∧ page = vpn ∧ (∀ old, os.pte pcb page = some old → old.valid = false) ∧
      pte = { pfn, valid := true, used := true, dirty := write }) ∨
    ∃ old, os.pte pcb page = some old ∧ old.valid = true ∧ old.pfn = pte.pfn ∧
      old.dirty = pte.dirty := by
  cases step with
  | resident => exact .inr ⟨pte, entry, valid, rfl, rfl⟩
  | @faulted swept vacated _ absent fault =>
      have counted : Processes config { os with countPagefaults := os.countPagefaults + 1 } :=
        processes.of_sameProcesses ⟨rfl, rfl, rfl, rfl⟩
      rcases fault.entry_swept counted entry valid with ⟨rfl, rfl, rfl⟩ | kept
      · exact .inl ⟨rfl, rfl, absent, rfl⟩
      · obtain ⟨old, oldEntry, samePfn, sameValid, sameDirty⟩ := fault.only.pte kept
        exact .inr ⟨old, oldEntry, sameValid.trans valid, samePfn, sameDirty⟩

/-- A resident page was brought in by the action, with the dirty bit of the access, or had the same
frame and dirty bit before. -/
theorem Effect.entry (effect : Effect config before.toOs action after.toOs)
    (processes : Processes config before.toOs) {pcb : Nat} {page : Vpn} {pte : Pte}
    (entry : after.pte pcb page = some pte) (valid : pte.valid = true) :
    (action.BringsIn config before.toOs pcb page ∧ pte.dirty = action.write) ∨
    ∃ old, before.pte pcb page = some old ∧ old.valid = true ∧ old.pfn = pte.pfn ∧
      old.dirty = pte.dirty := by
  generalize before.toOs = os at *
  generalize after.toOs = final at *
  cases effect with
  | fork _ _ _ _ _ entries =>
      rw [entries] at entry
      split at entry
      · obtain rfl := Option.some.inj entry
        cases valid
      · exact .inr ⟨pte, entry, valid, rfl, rfl⟩
  | switch same =>
      rw [same.pte] at entry
      exact .inr ⟨pte, entry, valid, rfl, rfl⟩
  | load running step same =>
      rw [same.pte] at entry
      refine (step.entry processes entry valid).imp_left ?_
      rintro ⟨rfl, rfl, absent, rfl⟩
      exact ⟨⟨⟨running, rfl⟩, absent⟩, rfl⟩
  | store running step _ _ _ same =>
      rw [same.pte] at entry
      refine (step.entry processes entry valid).imp_left ?_
      rintro ⟨rfl, rfl, absent, rfl⟩
      exact ⟨⟨⟨running, rfl⟩, absent⟩, rfl⟩

end Entries

end CS2200.VirtualMemory
