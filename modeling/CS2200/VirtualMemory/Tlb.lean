import CS2200.VirtualMemory.Effects

/-!
# The TLB is transparent

Two facts make the TLB invisible. Every valid TLB entry repeats a valid entry of the current page
table, and neither the page-table path nor the fault path reads the TLB. The first is an invariant
of all command sequences, forks of running processes included: a fault changes the entry of a page
in the current page table only together with a `tlb_clearone` of that page.
-/

namespace CS2200.VirtualMemory

/-- Replace the number of TLB entries. -/
def Config.withTlb (config : Config) (size : Nat) : Config := { config with tlbSize := size }

/-- The page table register designates a valid entry for `vpn` with frame `pfn`. -/
def Os.Translates (os : Os) (vpn : Vpn) (pfn : Pfn) : Prop :=
  ∃ table, os.currentPagetable = some table ∧ (os.tables table vpn).valid = true ∧
    (os.tables table vpn).pfn = pfn

/-- Valid TLB entries repeat the current page table, and no page has two of them. -/
structure TlbCoherent (config : Config) (state : State) : Prop where
  /-- A valid entry agrees with the current page table. -/
  translates : ∀ i < config.tlbSize, (state.tlb i).valid = true →
    state.Translates (state.tlb i).vpn (state.tlb i).pfn
  /-- A page has at most one valid entry. -/
  unique : ∀ i < config.tlbSize, ∀ j < config.tlbSize, (state.tlb i).valid = true →
    (state.tlb j).valid = true → (state.tlb i).vpn = (state.tlb j).vpn → i = j

/-- No valid TLB entry holds `vpn`. -/
def TlbMisses (config : Config) (state : State) (vpn : Vpn) : Prop :=
  ∀ i < config.tlbSize, (state.tlb i).valid = true → (state.tlb i).vpn ≠ vpn

/-- Page table pointers designate allocated tables. -/
structure Os.Allocated (os : Os) : Prop where
  /-- Pointers in process control blocks. -/
  procList : ∀ pcb table, (os.procList pcb).pagetable = some table → table < os.allocated
  /-- The page table register. -/
  register : ∀ table, os.currentPagetable = some table → table < os.allocated

/-! ## Searching and filling the TLB -/

theorem tlbFind_eq_some {config : Config} {state : State} {property : Tlbe → Bool} {i : Nat}
    (found : tlbFind config state property = some i) :
    i < config.tlbSize ∧ property (state.tlb i) = true := by
  unfold tlbFind at found
  exact ⟨List.mem_range.mp (List.mem_of_find?_eq_some found), by simpa using List.find?_some found⟩

theorem tlbFind_eq_none {config : Config} {state : State} {property : Tlbe → Bool} :
    tlbFind config state property = none ↔
      ∀ i < config.tlbSize, property (state.tlb i) = false := by
  simp [tlbFind]

section Fill

variable {config : Config} {state : State} {vpn : Vpn} {pfn : Pfn}

@[simp] theorem tlbSet_toOs (index : Nat) (entry : Tlbe) :
    (tlbSet state index entry).toOs = state.toOs := rfl

@[simp] theorem tlbSweep_toOs (entry : Tlbe) (indices : List Nat) :
    (tlbSweep state entry indices).toOs = state.toOs := by
  induction indices generalizing state with
  | nil => rfl
  | cons i rest ih =>
      unfold tlbSweep
      split
      · rw [ih, tlbSet_toOs]
      · rfl

@[simp] theorem tlbInstall_toOs (write : Bool) :
    (tlbInstall config state vpn pfn write).toOs = state.toOs := by
  unfold tlbInstall
  split <;> simp

private theorem TlbCoherent.clearUsed (coherent : TlbCoherent config state) (index : Nat) :
    TlbCoherent config (tlbSet state index { state.tlb index with used := false }) := by
  have same : ∀ i, ∃ used, (tlbSet state index { state.tlb index with used := false }).tlb i =
      { state.tlb i with used := used } := by
    intro i
    by_cases here : i = index
    · subst here
      exact ⟨false, by simp [tlbSet]⟩
    · exact ⟨(state.tlb i).used, by simp [tlbSet, here]⟩
  refine ⟨fun i inside valid => ?_, fun i iInside j jInside iValid jValid equal => ?_⟩
  · obtain ⟨used, entry⟩ := same i
    rw [entry] at valid ⊢
    exact coherent.translates i inside valid
  · obtain ⟨iUsed, iEntry⟩ := same i
    obtain ⟨jUsed, jEntry⟩ := same j
    rw [iEntry] at iValid equal
    rw [jEntry] at jValid equal
    exact coherent.unique i iInside j jInside iValid jValid equal

private theorem TlbMisses.clearUsed (miss : TlbMisses config state vpn) (index : Nat) :
    TlbMisses config (tlbSet state index { state.tlb index with used := false }) vpn := by
  intro i inside valid
  by_cases here : i = index
  · subst here
    simp only [tlbSet, Function.update_self] at valid ⊢
    exact miss i inside valid
  · simp only [tlbSet, ne_eq, here, not_false_eq_true, Function.update_of_ne] at valid ⊢
    exact miss i inside valid

/-- Entering a translation of a page that no valid entry holds keeps the TLB coherent. -/
private theorem TlbCoherent.set (coherent : TlbCoherent config state)
    (miss : TlbMisses config state vpn) (translates : state.Translates vpn pfn) (index : Nat)
    (write : Bool) :
    TlbCoherent config
      (tlbSet state index { vpn, pfn, dirty := write, valid := true, used := true }) := by
  refine ⟨fun i inside valid => ?_, fun i iInside j jInside iValid jValid equal => ?_⟩
  · by_cases here : i = index
    · subst here
      simpa [tlbSet] using translates
    · simp only [tlbSet, ne_eq, here, not_false_eq_true, Function.update_of_ne] at valid ⊢
      exact coherent.translates i inside valid
  · by_cases iHere : i = index <;> by_cases jHere : j = index
    · rw [iHere, jHere]
    · subst iHere
      simp only [tlbSet, Function.update_self, ne_eq, jHere, not_false_eq_true,
        Function.update_of_ne] at jValid equal
      exact absurd equal.symm (miss j jInside jValid)
    · subst jHere
      simp only [tlbSet, Function.update_self, ne_eq, iHere, not_false_eq_true,
        Function.update_of_ne] at iValid equal
      exact absurd equal (miss i iInside iValid)
    · simp only [tlbSet, ne_eq, iHere, jHere, not_false_eq_true, Function.update_of_ne]
        at iValid jValid equal
      exact coherent.unique i iInside j jInside iValid jValid equal

private theorem TlbCoherent.sweep (coherent : TlbCoherent config state)
    (miss : TlbMisses config state vpn) (translates : state.Translates vpn pfn) (write : Bool)
    (indices : List Nat) :
    TlbCoherent config
      (tlbSweep state { vpn, pfn, dirty := write, valid := true, used := true } indices) := by
  induction indices generalizing state with
  | nil => exact coherent
  | cons i rest ih =>
      unfold tlbSweep
      split
      · exact ih (coherent.clearUsed i) (miss.clearUsed i) translates
      · exact coherent.set miss translates i write

private theorem TlbCoherent.install (coherent : TlbCoherent config state)
    (miss : TlbMisses config state vpn) (translates : state.Translates vpn pfn) (write : Bool) :
    TlbCoherent config (tlbInstall config state vpn pfn write) := by
  unfold tlbInstall
  split
  · exact coherent.set miss translates _ write
  · exact coherent.sweep miss translates write _

end Fill

/-! ## The page-table path does not read the TLB -/

/-- The part of a result that lies outside the TLB. -/
def outsideTlb {α : Type} (result : State × α) : Os × α := (result.1.toOs, result.2)

section Congruence

variable (config : Config) (first second : Nat) {left right : State}

private theorem evictVictim_congr (same : left.toOs = right.toOs) (frame : Pfn) :
    (evictVictim (config.withTlb first) left frame).map State.toOs =
      (evictVictim (config.withTlb second) right frame).map State.toOs := by
  obtain ⟨os, leftTlb, leftHits⟩ := left
  obtain ⟨_, rightTlb, rightHits⟩ := right
  obtain rfl : os = _ := same
  unfold evictVictim
  cases owner : (os.rlt frame.toNat).pcb with
  | none => rfl
  | some pcb =>
      cases pagetable : (os.procList pcb).pagetable with
      | none => simp [pagetable]
      | some table =>
          simp only [pagetable, bind, Option.bind_some]
          split <;> rfl

private theorem pagefaultHandler_congr (same : left.toOs = right.toOs) (vpn : Vpn) (write : Bool) :
    (pagefaultHandler (config.withTlb first) left vpn write).map outsideTlb =
      (pagefaultHandler (config.withTlb second) right vpn write).map outsideTlb := by
  obtain ⟨os, leftTlb, leftHits⟩ := left
  obtain ⟨_, rightTlb, rightHits⟩ := right
  obtain rfl : os = _ := same
  unfold pagefaultHandler
  cases os.currentPagetable with
  | none => rfl
  | some table =>
      have free : getFreeFrame (config.withTlb first) os = getFreeFrame (config.withTlb second) os :=
        rfl
      simp only [bind, Option.bind_some, free]
      cases getFreeFrame (config.withTlb second) os with
      | none => rfl
      | some found =>
          obtain ⟨swept, pfn⟩ := found
          simp only [Option.bind_some]
          change Option.map outsideTlb (if pfn.toNat < config.numFrames then _ else _) =
            Option.map outsideTlb (if pfn.toNat < config.numFrames then _ else _)
          split
          case isFalse => rfl
          case isTrue =>
            have evict := @evictVictim_congr config first second
              { toOs := swept, tlb := leftTlb, countTlbhits := leftHits }
              { toOs := swept, tlb := rightTlb, countTlbhits := rightHits } rfl pfn
            revert evict
            cases evictVictim (config.withTlb first)
              { toOs := swept, tlb := leftTlb, countTlbhits := leftHits } pfn <;>
            cases evictVictim (config.withTlb second)
              { toOs := swept, tlb := rightTlb, countTlbhits := rightHits } pfn <;>
            intro evict
            · rfl
            · simp at evict
            · simp at evict
            · rename_i leftAfter rightAfter
              have sameOs : leftAfter.toOs = rightAfter.toOs := by simpa using evict
              simp only [Option.bind_some, sameOs]
              change Option.map outsideTlb
                  ((installPage config rightAfter.toOs pfn vpn write).bind _) =
                Option.map outsideTlb
                  ((installPage config rightAfter.toOs pfn vpn write).bind _)
              cases installPage config rightAfter.toOs pfn vpn write <;> rfl

private theorem pagetableLookup_congr (same : left.toOs = right.toOs) (vpn : Vpn) (write : Bool) :
    (pagetableLookup (config.withTlb first) left vpn write).map outsideTlb =
      (pagetableLookup (config.withTlb second) right vpn write).map outsideTlb := by
  unfold pagetableLookup
  rw [same]
  cases register : right.currentPagetable with
  | none => rfl
  | some table =>
      simp only [bind, Option.bind_some]
      split
      · simp [outsideTlb, same]
      · apply pagefaultHandler_congr
        rfl

end Congruence

/-! ## Coherence along the page-table path -/

private theorem UsedOnly.translates_iff {before after : Os} (only : UsedOnly before after)
    (vpn : Vpn) (pfn : Pfn) : after.Translates vpn pfn ↔ before.Translates vpn pfn := by
  simp only [Os.Translates, only.currentPagetable, only.valid, only.pfn]

section Coherence

variable {config : Config} {before after : State} {vpn : Vpn} {pfn : Pfn} {write : Bool}

theorem TlbCoherent.shrink (coherent : TlbCoherent config before)
    (entries : ∀ i < config.tlbSize, (after.tlb i).valid = true → after.tlb i = before.tlb i)
    (survive : ∀ i < config.tlbSize, (after.tlb i).valid = true →
      before.Translates (after.tlb i).vpn (after.tlb i).pfn →
        after.Translates (after.tlb i).vpn (after.tlb i).pfn) :
    TlbCoherent config after := by
  refine ⟨fun i inside valid => ?_, fun i iInside j jInside iValid jValid equal => ?_⟩
  · apply survive i inside valid
    have same := entries i inside valid
    rw [same] at valid ⊢
    exact coherent.translates i inside valid
  · have iSame := entries i iInside iValid
    have jSame := entries j jInside jValid
    rw [iSame] at iValid equal
    rw [jSame] at jValid equal
    exact coherent.unique i iInside j jInside iValid jValid equal

private theorem TlbMisses.shrink (miss : TlbMisses config before vpn)
    (entries : ∀ i < config.tlbSize, (after.tlb i).valid = true → after.tlb i = before.tlb i) :
    TlbMisses config after vpn := by
  intro i inside valid
  have same := entries i inside valid
  rw [same] at valid ⊢
  exact miss i inside valid

private theorem tlbClearone_entry (state : State) (vpn : Vpn) {i : Nat}
    (inside : i < config.tlbSize) (valid : ((tlbClearone config state vpn).tlb i).valid = true) :
    (tlbClearone config state vpn).tlb i = state.tlb i ∧ (state.tlb i).vpn ≠ vpn := by
  by_cases cleared : (state.tlb i).vpn = vpn
  · simp [tlbClearone, inside, cleared, Tlbe.clear] at valid
  · simp [tlbClearone, cleared]

theorem tlbClearall_invalid (state : State) {i : Nat} (inside : i < config.tlbSize) :
    ((tlbClearall config state).tlb i).valid = false := by
  simp [tlbClearall, inside, Tlbe.clear]

private theorem evictVictim_coherent (coherent : TlbCoherent config before)
    (miss : TlbMisses config before vpn)
    (step : evictVictim config before pfn = some after) :
    TlbCoherent config after ∧ TlbMisses config after vpn := by
  rcases evictVictim_cases step with ⟨rfl, -⟩ | ⟨pcb, table, -, -, -, equal⟩
  · exact ⟨coherent, miss⟩
  · have entries : ∀ i < config.tlbSize, (after.tlb i).valid = true →
        after.tlb i = before.tlb i ∧ (before.tlb i).vpn ≠ (before.rlt pfn.toNat).vpn := by
      intro i inside valid
      subst equal
      exact tlbClearone_entry _ _ inside valid
    have same := fun i inside valid => (entries i inside valid).1
    refine ⟨coherent.shrink same fun i inside valid translates => ?_, miss.shrink same⟩
    obtain ⟨entry, spared⟩ := entries i inside valid
    obtain ⟨register, current, entryValid, entryPfn⟩ := translates
    rw [entry] at entryValid entryPfn ⊢
    have untouched := @Os.modifyPte_other before.toOs table register _ _
      (fun pte => { pte with valid := false }) (fun both => spared both.2)
    subst equal
    refine ⟨register, by simpa [tlbClearone] using current, ?_, ?_⟩
    · simpa only [tlbClearone, evictPage_tables, untouched] using entryValid
    · simpa only [tlbClearone, evictPage_tables, untouched] using entryPfn

private theorem pagefaultHandler_coherent (coherent : TlbCoherent config before)
    (miss : TlbMisses config before vpn)
    (step : pagefaultHandler config before vpn write = some (after, pfn)) :
    TlbCoherent config after ∧ TlbMisses config after vpn ∧ after.Translates vpn pfn := by
  obtain ⟨-, swept, evicted, installed, free, -, evict, install, rfl⟩ :=
    pagefaultHandler_eq_some.mp step
  have only := getFreeFrame_usedOnly free
  have sweptCoherent : TlbCoherent config { before with toOs := swept } :=
    coherent.shrink (fun _ _ _ => rfl) fun i _ _ translates =>
      (only.translates_iff _ _).mpr translates
  obtain ⟨evictedCoherent, evictedMiss⟩ := evictVictim_coherent sweptCoherent miss evict
  obtain ⟨current, table, -, register, rfl⟩ := installPage_eq_some.mp install
  refine ⟨evictedCoherent.shrink (fun _ _ _ => rfl) ?_, evictedMiss, table, ?_, ?_, ?_⟩
  · rintro i inside valid ⟨other, otherRegister, entryValid, entryPfn⟩
    have untouched := @assignFrame_other evicted.toOs current pfn write table other _ _
      (fun both => evictedMiss i inside valid both.2)
    refine ⟨other, by simpa using otherRegister, ?_, ?_⟩
    · simpa only [pageFromDisk_tables, untouched] using entryValid
    · simpa only [pageFromDisk_tables, untouched] using entryPfn
  · simpa using register
  · simp [assignFrame]
  · simp [assignFrame]

theorem pagetableLookup_coherent (coherent : TlbCoherent config before)
    (miss : TlbMisses config before vpn)
    (step : pagetableLookup config before vpn write = some (after, pfn)) :
    TlbCoherent config after ∧ TlbMisses config after vpn ∧ after.Translates vpn pfn := by
  simp only [pagetableLookup, bind, Option.bind_eq_some_iff] at step
  obtain ⟨table, register, step⟩ := step
  split at step
  case isTrue valid =>
    obtain ⟨rfl, rfl⟩ : before = after ∧ _ = pfn := by simpa using step
    exact ⟨coherent, miss, table, register, valid, rfl⟩
  case isFalse =>
    have counted : TlbCoherent config
        { before with countPagefaults := before.countPagefaults + 1 } :=
      coherent.shrink (fun _ _ _ => rfl) fun _ _ _ translates => translates
    exact pagefaultHandler_coherent counted miss step

/-- A TLB hit returns what the page table would, without changing anything outside the TLB. -/
theorem tlbLookup_outsideTlb (coherent : TlbCoherent config before) (vpn : Vpn) (write : Bool) :
    (tlbLookup config before vpn write).map outsideTlb =
      (pagetableLookup config before vpn write).map outsideTlb := by
  unfold tlbLookup
  cases found : tlbFind config before fun e => e.valid && e.vpn == vpn with
  | some i =>
      obtain ⟨inside, hit⟩ := tlbFind_eq_some found
      have hit : (before.tlb i).valid = true ∧ (before.tlb i).vpn = vpn := by simpa using hit
      obtain ⟨table, register, valid, equal⟩ := coherent.translates i inside hit.1
      rw [hit.2] at valid equal
      simp [pagetableLookup, register, valid, equal, outsideTlb]
  | none =>
      cases pagetableLookup config before vpn write <;> simp [outsideTlb]

theorem tlbLookup_coherent (coherent : TlbCoherent config before)
    (step : tlbLookup config before vpn write = some (after, pfn)) :
    TlbCoherent config after ∧ after.Translates vpn pfn := by
  unfold tlbLookup at step
  split at step
  case h_1 i found =>
    obtain ⟨inside, hit⟩ := tlbFind_eq_some found
    have hit : (before.tlb i).valid = true ∧ (before.tlb i).vpn = vpn := by simpa using hit
    obtain ⟨rfl, rfl⟩ : _ = after ∧ _ = pfn := by simpa using step
    refine ⟨coherent.shrink (fun _ _ _ => rfl) fun _ _ _ translates => translates, ?_⟩
    exact hit.2 ▸ coherent.translates i inside hit.1
  case h_2 missed =>
    simp only [bind, Option.bind_eq_some_iff, Option.some.injEq, Prod.mk.injEq, Prod.exists] at step
    obtain ⟨looked, frame, lookup, rfl, rfl⟩ := step
    have miss : TlbMisses config before vpn := by
      intro i inside valid equal
      have := tlbFind_eq_none.mp missed i inside
      simp [valid, equal] at this
    obtain ⟨lookedCoherent, lookedMiss, translates⟩ :=
      pagetableLookup_coherent coherent miss lookup
    refine ⟨lookedCoherent.install lookedMiss translates write, ?_⟩
    rw [tlbInstall_toOs]
    exact translates

end Coherence

/-! ## Commands -/

/-- What the TLB argument maintains between commands. -/
structure TlbInvariant (config : Config) (state : State) : Prop where
  /-- The TLB repeats the current page table. -/
  coherent : TlbCoherent config state
  /-- New page tables are distinct from the current one. -/
  allocated : state.Allocated

theorem Os.Allocated.of_sameProcesses {before after : Os} (allocated : before.Allocated)
    (same : SameProcesses before after) : after.Allocated where
  procList := by
    rw [same.procList, same.allocated]
    exact allocated.procList
  register := by
    rw [same.currentPagetable, same.allocated]
    exact allocated.register

theorem simInit_tlbInvariant (config : Config) : TlbInvariant config simInit where
  coherent := ⟨by simp [simInit, Tlbe.zero], by simp [simInit, Tlbe.zero]⟩
  allocated := ⟨by simp [simInit], by simp [simInit]⟩

section Commands

variable {config : Config} {before after : State}

theorem tlbLookup_sameProcesses {vpn : Vpn} {write : Bool} {pfn : Pfn}
    (coherent : TlbCoherent config before)
    (step : tlbLookup config before vpn write = some (after, pfn)) :
    SameProcesses before.toOs after.toOs := by
  have outside := tlbLookup_outsideTlb coherent vpn write
  rw [step, Option.map_some, eq_comm, Option.map_eq_some_iff] at outside
  obtain ⟨⟨looked, frame⟩, lookup, equal⟩ := outside
  have same : looked.toOs = after.toOs := congrArg Prod.fst equal
  exact same ▸ pagetableLookup_sameProcesses lookup

theorem memLoad_tlbInvariant {va : VAddr} {data : Word} (invariant : TlbInvariant config before)
    (step : memLoad config before va = some (after, data)) : TlbInvariant config after := by
  simp only [memLoad, bind, Option.bind_eq_some_iff, Option.some.injEq, Prod.mk.injEq,
    Prod.exists] at step
  obtain ⟨looked, pfn, lookup, rfl, -⟩ := step
  have coherent := (tlbLookup_coherent invariant.coherent lookup).1
  have same := tlbLookup_sameProcesses invariant.coherent lookup
  exact ⟨coherent.shrink (fun _ _ _ => rfl) fun _ _ _ translates => translates,
    invariant.allocated.of_sameProcesses
      ⟨same.procList, same.allocated, same.current, same.currentPagetable⟩⟩

theorem memStore_tlbInvariant {va : VAddr} {data : Word} (invariant : TlbInvariant config before)
    (step : memStore config before va data = some after) : TlbInvariant config after := by
  simp only [memStore, bind, Option.bind_eq_some_iff, Option.some.injEq, Prod.exists] at step
  obtain ⟨looked, pfn, lookup, rfl⟩ := step
  have coherent := (tlbLookup_coherent invariant.coherent lookup).1
  have same := tlbLookup_sameProcesses invariant.coherent lookup
  exact ⟨coherent.shrink (fun _ _ _ => rfl) fun _ _ _ translates => translates,
    invariant.allocated.of_sameProcesses
      ⟨same.procList, same.allocated, same.current, same.currentPagetable⟩⟩

theorem procSwitch_tlbInvariant {pid : UInt32} (invariant : TlbInvariant config before)
    (step : procSwitch config before pid = some after) : TlbInvariant config after := by
  unfold procSwitch at step
  split at step
  case isFalse => cases step
  case isTrue =>
    simp only [bind, Option.bind_eq_some_iff, Option.some.injEq] at step
    obtain ⟨table, pagetable, rfl⟩ := step
    refine ⟨⟨fun i inside valid => ?_, fun i iInside j jInside valid => ?_⟩, ?_⟩
    · rw [tlbClearall_invalid _ inside] at valid
      cases valid
    · rw [tlbClearall_invalid _ iInside] at valid
      cases valid
    · refine ⟨invariant.allocated.procList, fun register current => ?_⟩
      obtain rfl : table = register := Option.some.inj current
      exact invariant.allocated.procList _ _ pagetable

theorem switchTo_tlbInvariant {pid : UInt32} (invariant : TlbInvariant config before)
    (step : switchTo config before pid = some after) : TlbInvariant config after := by
  unfold switchTo at step
  split at step
  · exact Option.some.inj step ▸ invariant
  · exact procSwitch_tlbInvariant invariant step

/-- A new page table is not the one in the page table register, even when the running process is
forked again. -/
theorem procFork_tlbInvariant {pid : UInt32} (invariant : TlbInvariant config before)
    (step : procFork config before pid = some after) : TlbInvariant config after := by
  unfold procFork at step
  split at step
  case isFalse => cases step
  case isTrue =>
    obtain rfl := Option.some.inj step
    refine ⟨invariant.coherent.shrink (fun _ _ _ => rfl) ?_, ?_, ?_⟩
    · rintro i - - ⟨register, current, valid, equal⟩
      have old := invariant.allocated.register register current
      exact ⟨register, current, by simpa [Function.update_of_ne old.ne] using valid,
        by simpa [Function.update_of_ne old.ne] using equal⟩
    · intro pcb table pagetable
      by_cases forked : pcb = pid.toNat
      · subst forked
        simp at pagetable
        simp [← pagetable]
      · simp only [ne_eq, forked, not_false_eq_true, Function.update_of_ne] at pagetable
        exact Nat.lt_succ_of_lt (invariant.allocated.procList pcb table pagetable)
    · intro register current
      exact Nat.lt_succ_of_lt (invariant.allocated.register register current)

theorem simCommand_tlbInvariant {command : Command} {output : Option Word}
    (invariant : TlbInvariant config before)
    (step : simCommand config before command = some (after, output)) :
    TlbInvariant config after := by
  cases command with
  | fork pid =>
      simp only [simCommand] at step
      split at step
      · obtain ⟨forked, fork, equal⟩ := Option.map_eq_some_iff.mp step
        obtain ⟨rfl, -⟩ : forked = after ∧ none = output := by simpa using equal
        exact procFork_tlbInvariant invariant fork
      · obtain ⟨rfl, -⟩ : before = after ∧ none = output := by simpa using step
        exact invariant
  | load pid va =>
      simp only [simCommand] at step
      split at step
      · obtain ⟨rfl, -⟩ : before = after ∧ none = output := by simpa using step
        exact invariant
      · simp only [bind, Option.bind_eq_some_iff, Option.some.injEq, Prod.mk.injEq,
          Prod.exists] at step
        obtain ⟨switched, switch, loaded, data, load, rfl, -⟩ := step
        exact memLoad_tlbInvariant (switchTo_tlbInvariant invariant switch) load
  | store pid va val =>
      simp only [simCommand] at step
      split at step
      · obtain ⟨rfl, -⟩ : before = after ∧ none = output := by simpa using step
        exact invariant
      · simp only [bind, Option.bind_eq_some_iff, Option.some.injEq, Prod.mk.injEq] at step
        obtain ⟨switched, switch, stored, store, rfl, -⟩ := step
        exact memStore_tlbInvariant (switchTo_tlbInvariant invariant switch) store

end Commands

/-! ## Two runs with different TLBs -/

section TwoRuns

variable {config : Config} {first second : Nat} {left right : State}

theorem tlbLookup_congr (leftCoherent : TlbCoherent (config.withTlb first) left)
    (rightCoherent : TlbCoherent (config.withTlb second) right) (same : left.toOs = right.toOs)
    (vpn : Vpn) (write : Bool) :
    (tlbLookup (config.withTlb first) left vpn write).map outsideTlb =
      (tlbLookup (config.withTlb second) right vpn write).map outsideTlb := by
  rw [tlbLookup_outsideTlb leftCoherent, tlbLookup_outsideTlb rightCoherent,
    pagetableLookup_congr config first second same]

private theorem memLoad_congr (leftCoherent : TlbCoherent (config.withTlb first) left)
    (rightCoherent : TlbCoherent (config.withTlb second) right) (same : left.toOs = right.toOs)
    (va : VAddr) :
    (memLoad (config.withTlb first) left va).map outsideTlb =
      (memLoad (config.withTlb second) right va).map outsideTlb := by
  have access : ∀ (size : Nat) (state : State),
      (memLoad (config.withTlb size) state va).map outsideTlb =
        ((tlbLookup (config.withTlb size) state (config.vaddrPagenum va) false).map outsideTlb).map
          fun result : Os × Pfn =>
            ({ result.1 with countReads := result.1.countReads + 1 },
              result.1.memory (physicalAddress config result.2 va)) := by
    intro size state
    unfold memLoad
    change Option.map outsideTlb
      ((tlbLookup (config.withTlb size) state (config.vaddrPagenum va) false).bind _) = _
    cases tlbLookup (config.withTlb size) state (config.vaddrPagenum va) false <;> rfl
  rw [access, access, tlbLookup_congr leftCoherent rightCoherent same]

private theorem memStore_congr (leftCoherent : TlbCoherent (config.withTlb first) left)
    (rightCoherent : TlbCoherent (config.withTlb second) right) (same : left.toOs = right.toOs)
    (va : VAddr) (data : Word) :
    (memStore (config.withTlb first) left va data).map State.toOs =
      (memStore (config.withTlb second) right va data).map State.toOs := by
  have access : ∀ (size : Nat) (state : State),
      (memStore (config.withTlb size) state va data).map State.toOs =
        ((tlbLookup (config.withTlb size) state (config.vaddrPagenum va) true).map outsideTlb).map
          fun result : Os × Pfn =>
            { result.1 with
              countWrites := result.1.countWrites + 1
              memory := Function.update result.1.memory
                (physicalAddress config result.2 va) data } := by
    intro size state
    unfold memStore
    change Option.map State.toOs
      ((tlbLookup (config.withTlb size) state (config.vaddrPagenum va) true).bind _) = _
    cases tlbLookup (config.withTlb size) state (config.vaddrPagenum va) true <;> rfl
  rw [access, access, tlbLookup_congr leftCoherent rightCoherent same]

private theorem switchTo_congr (config : Config) (first second : Nat)
    (same : left.toOs = right.toOs) (pid : UInt32) :
    (switchTo (config.withTlb first) left pid).map State.toOs =
      (switchTo (config.withTlb second) right pid).map State.toOs := by
  unfold switchTo procSwitch
  rw [same]
  split
  · simp [same]
  · change Option.map State.toOs (if pid.toNat < config.maxJobs then _ else _) =
      Option.map State.toOs (if pid.toNat < config.maxJobs then _ else _)
    split
    · cases (right.procList pid.toNat).pagetable <;> simp [tlbClearall]
    · rfl

/-- Equal parts outside the TLB of two optional results are results of both or of neither. -/
theorem map_toOs_cases {leftResult rightResult : Option State}
    (same : leftResult.map State.toOs = rightResult.map State.toOs) :
    (leftResult = none ∧ rightResult = none) ∨
      ∃ leftState rightState, leftResult = some leftState ∧ rightResult = some rightState ∧
        leftState.toOs = rightState.toOs := by
  cases leftResult <;> cases rightResult <;> simp_all

private theorem simCommand_congr (leftInvariant : TlbInvariant (config.withTlb first) left)
    (rightInvariant : TlbInvariant (config.withTlb second) right) (same : left.toOs = right.toOs)
    (command : Command) :
    (simCommand (config.withTlb first) left command).map outsideTlb =
      (simCommand (config.withTlb second) right command).map outsideTlb := by
  cases command with
  | fork pid =>
      change Option.map outsideTlb (if pid.toNat < config.maxJobs then _ else _) =
        Option.map outsideTlb (if pid.toNat < config.maxJobs then _ else _)
      split
      · unfold procFork
        change Option.map outsideTlb (Option.map _ (if pid.toNat < config.maxJobs then _ else _)) =
          Option.map outsideTlb (Option.map _ (if pid.toNat < config.maxJobs then _ else _))
        split <;> simp [outsideTlb, same]
      · simp [outsideTlb, same]
  | load pid va =>
      change Option.map outsideTlb (if pid.toNat ≥ config.maxJobs then _ else _) =
        Option.map outsideTlb (if pid.toNat ≥ config.maxJobs then _ else _)
      split
      · simp [outsideTlb, same]
      · rcases map_toOs_cases (switchTo_congr config first second same pid) with
          ⟨leftNone, rightNone⟩ | ⟨leftState, rightState, leftSome, rightSome, switched⟩
        · simp [leftNone, rightNone]
        · have load := memLoad_congr (switchTo_tlbInvariant leftInvariant leftSome).coherent
            (switchTo_tlbInvariant rightInvariant rightSome).coherent switched va
          simp only [leftSome, rightSome, bind, Option.bind_some]
          revert load
          cases memLoad (config.withTlb first) leftState va <;>
            cases memLoad (config.withTlb second) rightState va <;>
            simp +contextual [outsideTlb]
  | store pid va val =>
      change Option.map outsideTlb (if pid.toNat ≥ config.maxJobs then _ else _) =
        Option.map outsideTlb (if pid.toNat ≥ config.maxJobs then _ else _)
      split
      · simp [outsideTlb, same]
      · rcases map_toOs_cases (switchTo_congr config first second same pid) with
          ⟨leftNone, rightNone⟩ | ⟨leftState, rightState, leftSome, rightSome, switched⟩
        · simp [leftNone, rightNone]
        · have store := memStore_congr (switchTo_tlbInvariant leftInvariant leftSome).coherent
            (switchTo_tlbInvariant rightInvariant rightSome).coherent switched va val
          simp only [leftSome, rightSome, bind, Option.bind_some]
          revert store
          cases memStore (config.withTlb first) leftState va val <;>
            cases memStore (config.withTlb second) rightState va val <;>
            simp +contextual [outsideTlb]

private theorem run_congr (leftInvariant : TlbInvariant (config.withTlb first) left)
    (rightInvariant : TlbInvariant (config.withTlb second) right) (same : left.toOs = right.toOs)
    (commands : List Command) :
    (run (config.withTlb first) left commands).map outsideTlb =
      (run (config.withTlb second) right commands).map outsideTlb := by
  induction commands generalizing left right with
  | nil => simp [run, outsideTlb, same]
  | cons command commands ih =>
      have step := simCommand_congr leftInvariant rightInvariant same command
      simp only [run, bind]
      cases leftStep : simCommand (config.withTlb first) left command with
      | none =>
          cases rightStep : simCommand (config.withTlb second) right command with
          | none => rfl
          | some _ => simp [leftStep, rightStep] at step
      | some leftResult =>
          cases rightStep : simCommand (config.withTlb second) right command with
          | none => simp [leftStep, rightStep] at step
          | some rightResult =>
              obtain ⟨leftState, output⟩ := leftResult
              obtain ⟨rightState, rightOutput⟩ := rightResult
              obtain ⟨equal, rfl⟩ : leftState.toOs = rightState.toOs ∧ output = rightOutput := by
                simpa [leftStep, rightStep, outsideTlb] using step
              have later := ih (simCommand_tlbInvariant leftInvariant leftStep)
                (simCommand_tlbInvariant rightInvariant rightStep) equal
              simp only [Option.bind_some]
              revert later
              cases run (config.withTlb first) leftState commands <;>
                cases run (config.withTlb second) rightState commands <;>
                simp +contextual [outsideTlb]

end TwoRuns

theorem run_tlbInvariant {config : Config} {before after : State} {commands : List Command}
    {outputs : List (Option Word)} (invariant : TlbInvariant config before)
    (finished : run config before commands = some (after, outputs)) :
    TlbInvariant config after := by
  induction commands generalizing before outputs with
  | nil =>
      obtain ⟨rfl, -⟩ : before = after ∧ [] = outputs := by simpa [run] using finished
      exact invariant
  | cons command commands ih =>
      simp only [run, bind, Option.bind_eq_some_iff, Option.some.injEq, Prod.mk.injEq,
        Prod.exists] at finished
      obtain ⟨middle, output, step, _, _, rest, rfl, -⟩ := finished
      exact ih (simCommand_tlbInvariant invariant step) rest

/-- Whatever the sizes of the TLB, a command sequence aborts in both runs or in neither, prints the
same loaded values and leaves the same state outside the TLB; along the way the TLB repeats the
current page table without duplicates. -/
theorem tlb_transparent (config : Config) (first second : Nat) (commands : List Command) :
    (run (config.withTlb first) simInit commands).map outsideTlb =
        (run (config.withTlb second) simInit commands).map outsideTlb ∧
      ∀ state outputs, run (config.withTlb first) simInit commands = some (state, outputs) →
        TlbCoherent (config.withTlb first) state :=
  ⟨run_congr (simInit_tlbInvariant _) (simInit_tlbInvariant _) rfl commands,
    fun _ _ finished => (run_tlbInvariant (simInit_tlbInvariant _) finished).coherent⟩

end CS2200.VirtualMemory
