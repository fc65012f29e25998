import CS2200.VirtualMemory.Steps

/-!
# Evicting a clean page

A clean page is evicted without being saved. This is harmless only if a copy of it is left in the
swap list; but restoring a page unlinks its entry, so none ever is. A page that a load brings in and
no store touches comes back after its eviction with its bytes if and only if they were all zero.
-/

namespace CS2200.VirtualMemory

/-- A legal action that does not store to a page. -/
def Untouched (config : Config) (pcb : Nat) (vpn : Vpn) (before : State) (action : Action)
    (after : State) : Prop :=
  LegalStep config before action after ∧
    (action.write = true → ¬action.Accesses config before.toOs pcb vpn)

/-- After a legal run a load by the process `current` brings a page in with a page fault. No store
touches the page from then on, it is evicted, and an access brings it in again. -/
structure CleanReload (config : Config) (current : Nat) (va : VAddr) (before broughtIn : State)
    (pfn : Pfn) (reloaded : State) (pfn' : Pfn) : Prop where
  /-- The state before the load is reached by legal actions. -/
  reached : ∃ earlier, Trace (LegalStep config) simInit earlier before
  /-- The process is running. -/
  running : before.current = some current
  /-- The page is not resident before the load. -/
  absent : ∀ pte, before.pte current (config.vaddrPagenum va) = some pte → pte.valid = false
  /-- The translation of the load brings the page in. -/
  fault : tlbLookup config before (config.vaddrPagenum va) false = some (broughtIn, pfn)
  /-- After the load and a run that does not store to the page, the process is running again, the
  page has been evicted, and the translation of an access brings it in. -/
  reload : ∃ loaded middle evicted write, LegalStep config before (.load va) loaded ∧
    Trace (Untouched config current (config.vaddrPagenum va)) loaded middle evicted ∧
    evicted.current = some current ∧
    (∀ pte, evicted.pte current (config.vaddrPagenum va) = some pte → pte.valid = false) ∧
    tlbLookup config evicted (config.vaddrPagenum va) write = some (reloaded, pfn')

/-- A page is in its frame, clean and with its original bytes, or it reads as zero. -/
def CleanOrZero (config : Config) (pcb : Nat) (vpn : Vpn) (original : Nat → Word) (os : Os) : Prop :=
  (∃ table, (os.procList pcb).pagetable = some table) ∧
    ((∃ pte, os.pte pcb vpn = some pte ∧ pte.valid = true ∧ pte.dirty = false ∧
        ∀ {k}, k < config.pageSize → os.content config pcb vpn k = original k) ∨
      ∀ {k}, k < config.pageSize → os.content config pcb vpn k = 0)

section CleanOrZero

variable {config : Config} {pcb : Nat} {vpn : Vpn} {original : Nat → Word}

theorem CleanOrZero.of_samePages {before after : Os}
    (clean : CleanOrZero config pcb vpn original before) (same : SamePages before after) :
    CleanOrZero config pcb vpn original after := by
  unfold CleanOrZero
  rw [same.procList, same.pte, same.content]
  exact clean

private theorem CleanOrZero.translated {before : State} {current : Nat} {page : Vpn} {write : Bool}
    {pfn : Pfn} {looked : Os} (clean : CleanOrZero config pcb vpn original before.toOs)
    (step : Translated config before.toOs current page write pfn looked)
    (consistent : Consistent config before) : CleanOrZero config pcb vpn original looked := by
  obtain ⟨⟨table, forked⟩, clean⟩ := clean
  refine ⟨⟨table, by rwa [step.sameProcesses.procList]⟩, ?_⟩
  rcases step.content consistent forked vpn with ⟨resident, kept⟩ | zero
  · rcases clean with ⟨pte, entry, valid, notDirty, bytes⟩ | zero
    · obtain ⟨stays, staysEntry, staysValid⟩ := resident pte entry valid notDirty
      refine .inl ⟨stays, staysEntry, staysValid, ?_, fun inside => (kept inside).trans (bytes inside)⟩
      rcases step.entry consistent.invariant.processes staysEntry staysValid with
        ⟨-, -, absent, -⟩ | ⟨old, oldEntry, -, -, sameDirty⟩
      · rw [absent pte entry] at valid
        cases valid
      · rw [← sameDirty, ← notDirty]
        exact congrArg Pte.dirty (Option.some.inj (oldEntry.symm.trans entry))
    · exact .inr fun inside => (kept inside).trans (zero inside)
  · exact .inr zero

/-- An action that does not store to the page leaves it clean and unchanged, or zero. -/
theorem CleanOrZero.untouched {before after : State} {action : Action}
    (clean : CleanOrZero config pcb vpn original before.toOs) (accepted : config.Accepted)
    (consistent : Consistent config before)
    (step : Untouched config pcb vpn before action after) :
    CleanOrZero config pcb vpn original after.toOs := by
  obtain ⟨step, untouched⟩ := step
  obtain ⟨-, effect⟩ := (step.clean consistent).effect consistent accepted
  have legal := step.1
  generalize after.toOs = final at *
  cases effect with
  | @fork pid _ unused memory rlt swapfile current entries procList =>
      obtain ⟨⟨table, forked⟩, clean⟩ := clean
      have other : pcb ≠ pid.toNat := by
        rintro rfl
        rw [legal.2] at forked
        cases forked
      have content : final.content config pcb vpn = before.content config pcb vpn := by
        funext k
        simp only [Os.content, Os.saved, entries, if_neg other, memory, swapfile, procList,
          Function.update_of_ne other]
      unfold CleanOrZero
      rw [procList, Function.update_of_ne other, entries, if_neg other, content]
      exact ⟨⟨table, forked⟩, clean⟩
  | switch same => exact clean.of_samePages same
  | load running translated same => exact (clean.translated translated consistent).of_samePages same
  | @store va data owner pte looked _ running translated owned entry valid same =>
      refine CleanOrZero.of_samePages ?_ same
      have looked := clean.translated translated consistent
      have bytes : ∀ {k}, k < config.pageSize → _ = _ := fun {k} inside =>
        Os.content_write owned accepted entry valid data pcb vpn inside
      obtain ⟨forked, looked⟩ := looked
      have elsewhere : ∀ k, ¬(pcb = owner ∧ vpn = config.vaddrPagenum va ∧
          k = config.vaddrOffset va) := by
        rintro k ⟨rfl, rfl, -⟩
        exact untouched rfl ⟨running, rfl⟩
      refine ⟨forked, looked.imp ?_ ?_⟩
      · rintro ⟨kept, keptEntry, keptValid, clean, same⟩
        refine ⟨kept, keptEntry, keptValid, clean, fun {k} inside => ?_⟩
        rw [bytes inside, if_neg (elsewhere k), same inside]
      · intro zero k inside
        rw [bytes inside, if_neg (elsewhere k), zero inside]

private theorem CleanOrZero.of_trace {first last : State} {actions : List Action}
    (clean : CleanOrZero config pcb vpn original first.toOs) (accepted : config.Accepted)
    (consistent : Consistent config first)
    (trace : Trace (Untouched config pcb vpn) first actions last) :
    Consistent config last ∧ CleanOrZero config pcb vpn original last.toOs := by
  induction trace with
  | nil => exact ⟨consistent, clean⟩
  | snoc _ step ih =>
      obtain ⟨kept, clean⟩ := ih
      exact ⟨((step.1.clean kept).effect kept accepted).1, clean.untouched accepted kept step⟩

end CleanOrZero

section Reload

variable {config : Config} {current : Nat} {va : VAddr} {before broughtIn reloaded : State}
  {pfn pfn' : Pfn}

private theorem Consistent.lookup_page (consistent : Consistent config before)
    (accepted : config.Accepted)
    (running : before.current = some current) {write : Bool} {after : State}
    (lookup : tlbLookup config before (config.vaddrPagenum va) write = some (after, pfn)) :
    after.page config pfn = (List.range config.pageSize).map
      (before.content config current (config.vaddrPagenum va)) := by
  obtain ⟨looked, frame, pte, lookup', -, step, entry, valid, rfl⟩ :=
    consistent.lookup accepted running va write
  obtain ⟨rfl, rfl⟩ := Prod.mk.inj (Option.some.inj (lookup.symm.trans lookup'))
  refine List.map_congr_left fun k member => ?_
  rw [← step.target consistent running (List.mem_range.mp member),
    Os.content_resident entry valid]

/-- The page that the load brings in is clean. -/
theorem Consistent.load_clean (consistent : Consistent config before) (accepted : config.Accepted)
    (running : before.current = some current)
    (absent : ∀ pte, before.pte current (config.vaddrPagenum va) = some pte → pte.valid = false)
    {loaded : State} (load : LegalStep config before (.load va) loaded) :
    CleanOrZero config current (config.vaddrPagenum va)
      (before.content config current (config.vaddrPagenum va)) loaded.toOs := by
  obtain ⟨-, effect⟩ := (load.clean consistent).effect consistent accepted
  obtain ⟨table, -, forked⟩ := consistent.invariant.processes.register running
  have processes := consistent.invariant.processes
  generalize loaded.toOs = final at *
  cases effect with
  | load running' step same =>
      obtain rfl := Option.some.inj (running.symm.trans running')
      refine CleanOrZero.of_samePages ⟨⟨table, by rwa [step.sameProcesses.procList]⟩, ?_⟩ same
      refine .inl ?_
      have target : ∀ {k}, k < config.pageSize → _ := fun inside =>
        step.target consistent running inside
      cases step with
      | resident entry valid =>
          rw [absent _ entry] at valid
          cases valid
      | faulted _ fault =>
          exact ⟨_, fault.entry (processes.of_sameProcesses ⟨rfl, rfl, rfl, rfl⟩), rfl, rfl, target⟩

/-- A clean page comes back after its eviction with the bytes it had before, for any number of
evictions in between, if and only if it was brought in without a saved byte other than zero. -/
theorem clean_reload_iff (accepted : config.Accepted)
    (reload : CleanReload config current va before broughtIn pfn reloaded pfn') :
    reloaded.page config pfn' = broughtIn.page config pfn ↔
      ∀ k < config.pageSize,
        before.saved (before.procList current).pid (config.vaddrPagenum va) k = 0 := by
  obtain ⟨⟨earlier, reached⟩, running, absent, fault, loaded, middle, evicted, write, load,
    untouched, runningAgain, gone, lookup⟩ := reload
  have consistent := Consistent.of_trace accepted reached
  have start := consistent.load_clean accepted running absent load
  obtain ⟨evictedConsistent, -, clean⟩ := start.of_trace accepted
    ((load.clean consistent).effect consistent accepted).1 untouched
  have zero : ∀ {k}, k < config.pageSize →
      evicted.content config current (config.vaddrPagenum va) k = 0 := by
    rcases clean with ⟨pte, entry, valid, -⟩ | zero
    · rw [gone pte entry] at valid
      cases valid
    · exact zero
  rw [evictedConsistent.lookup_page accepted runningAgain lookup,
    consistent.lookup_page accepted running fault, List.map_inj_left]
  simp only [List.mem_range]
  refine forall₂_congr fun k inside => ?_
  rw [zero inside, Os.content_absent absent, eq_comm]

/-- A run in which process 0 loads from two pages in turn, and the first page is evicted. -/
theorem cleanReload_of_run (config : Config) (earlier : List Action) (va other : VAddr)
    (first second : List Word)
    (runs : (earlier.foldlM (legalAct config) simInit).any (fun before =>
      (tlbLookup config before (config.vaddrPagenum va) false).any fun fault =>
        (legalAct config before (.load va)).any fun loaded =>
          (legalAct config loaded (.load other)).any fun evicted =>
            (tlbLookup config evicted (config.vaddrPagenum va) false).any fun again =>
              before.current = some 0 ∧ evicted.current = some 0 ∧
                (before.pte 0 (config.vaddrPagenum va)).all (fun pte => !pte.valid) ∧
                (evicted.pte 0 (config.vaddrPagenum va)).all (fun pte => !pte.valid) ∧
                fault.1.page config fault.2 = first ∧ again.1.page config again.2 = second) = true) :
    ∃ before broughtIn pfn reloaded pfn',
      CleanReload config 0 va before broughtIn pfn reloaded pfn' ∧
        broughtIn.page config pfn = first ∧ reloaded.page config pfn' = second := by
  simp only [Option.any_eq_true, decide_eq_true_eq] at runs
  obtain ⟨before, folds, ⟨broughtIn, pfn⟩, fault, loaded, load, evicted, evict, ⟨reloaded, pfn'⟩,
    again, running, runningAgain, absent, gone, rfl, rfl⟩ := runs
  refine ⟨before, broughtIn, pfn, reloaded, pfn', ⟨⟨earlier, legalTrace_of_foldlM folds⟩, running,
    fun pte entry => ?_, fault, loaded, _, evicted, false, legalAct_eq_some.mp load,
    .snoc .nil ⟨legalAct_eq_some.mp evict, nofun⟩, runningAgain, fun pte entry => ?_, again⟩,
    rfl, rfl⟩
  · simpa [entry] using absent
  · simpa [entry] using gone

/-- A page that was never stored to comes back with its zeros. -/
theorem clean_reload_iff_oneFrame :
    ∃ before broughtIn pfn reloaded pfn',
      CleanReload oneFrame 0 0 before broughtIn pfn reloaded pfn' ∧
        (reloaded.page oneFrame pfn' = broughtIn.page oneFrame pfn ↔
          ∀ k < oneFrame.pageSize,
            before.saved (before.procList 0).pid (oneFrame.vaddrPagenum 0) k = 0) := by
  have accepted : oneFrame.Accepted := ⟨[.memSize 1], some "references", rfl⟩
  obtain ⟨before, broughtIn, pfn, reloaded, pfn', reload, -⟩ :=
    cleanReload_of_run oneFrame [.fork 0, .switch 0] 0 2 [0, 0] [0, 0] (by decide +kernel)
  exact ⟨before, broughtIn, pfn, reloaded, pfn', reload, clean_reload_iff accepted reload⟩

end Reload

/-- A page that was evicted dirty and read back loses its bytes at the next eviction. -/
theorem clean_eviction_loses :
    oneFrame.Accepted ∧ ∃ before broughtIn pfn reloaded pfn',
      CleanReload oneFrame 0 0 before broughtIn pfn reloaded pfn' ∧
        broughtIn.page oneFrame pfn = [1, 0] ∧ reloaded.page oneFrame pfn' = [0, 0] :=
  ⟨⟨[.memSize 1], some "references", rfl⟩,
    cleanReload_of_run oneFrame [.fork 0, .switch 0, .store 0 1, .load 2] 0 2 [1, 0] [0, 0]
      (by decide +kernel)⟩

end CS2200.VirtualMemory
