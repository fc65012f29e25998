import CS2200.VirtualMemory.Coherence

/-!
# Entering translations into the TLB

After a miss `tlb_lookup` looks for an invalid entry, and else for one that was not used. If every
entry is valid and used, its last loop clears all used bits and ends without an entry for the page.
An entry becomes invalid during the miss only when the page fault evicts a page of its number.
-/

namespace CS2200.VirtualMemory

/-- A state between two commands, or after the switch with which a command begins. -/
def Reached (config : Config) (state : State) : Prop :=
  ∃ commands before outputs, run config simInit commands = some (before, outputs) ∧
    (state = before ∨ ∃ pid, switchTo config before pid = some state)

/-- The TLB has exactly one valid entry for a page, which holds its frame, and the next access to
the page is a hit. -/
structure Installed (config : Config) (state : State) (vpn : Vpn) (pfn : Pfn) : Prop where
  /-- The only valid entry for the page. -/
  entry : ∃ i < config.tlbSize, (state.tlb i).valid = true ∧ (state.tlb i).vpn = vpn ∧
    (state.tlb i).pfn = pfn ∧
      ∀ j < config.tlbSize, (state.tlb j).valid = true → (state.tlb j).vpn = vpn → j = i
  /-- The next access. -/
  hit : ∀ write, tlbLookup config state vpn write =
    some ({ state with countTlbhits := state.countTlbhits + 1 }, pfn)

/-- Whether a translation of `requested` faults while `get_free_frame` chooses a frame with a valid
page of number `vpn`. -/
def invalidates (config : Config) (os : Os) (requested vpn : Vpn) : Bool :=
  os.currentPagetable.any (fun table => !(os.tables table requested).valid) &&
    ((getFreeFrame config os).map Prod.snd).any fun pfn =>
      (os.rlt pfn.toNat).vpn == vpn &&
        (os.rlt pfn.toNat).pcb.any fun owner => (os.pte owner vpn).any Pte.valid

/-- The page has a valid entry, or another entry can be taken: it is invalid, it was not used, or
the page fault makes it invalid. -/
def HasRoom (config : Config) (state : State) (vpn : Vpn) : Prop :=
  (∃ i < config.tlbSize, (state.tlb i).valid = true ∧ (state.tlb i).vpn = vpn) ∨
    ∃ i < config.tlbSize, (state.tlb i).valid = false ∨ (state.tlb i).used = false ∨
      invalidates config state.toOs vpn (state.tlb i).vpn = true

private theorem Reached.tlbInvariant {config : Config} {state : State}
    (reached : Reached config state) : TlbInvariant config state := by
  obtain ⟨commands, before, outputs, runs, same | ⟨pid, switch⟩⟩ := reached
  · exact same ▸ run_tlbInvariant (simInit_tlbInvariant config) runs
  · exact switchTo_tlbInvariant (run_tlbInvariant (simInit_tlbInvariant config) runs) switch

/-! ## The two loops of the replacement -/

section Replacement

variable {config : Config} {state : State}

private theorem tlbSweep_of_unused {indices : List Nat} (entry : Tlbe)
    (unused : ∃ i ∈ indices, (state.tlb i).used = false) :
    ∃ i ∈ indices, (tlbSweep state entry indices).tlb i = entry := by
  induction indices generalizing state with
  | nil => simp at unused
  | cons first rest ih =>
      unfold tlbSweep
      split
      case isTrue used =>
        obtain ⟨i, member, free⟩ := unused
        have later : i ∈ rest := by
          rcases List.mem_cons.mp member with rfl | later
          · rw [used] at free
            cases free
          · exact later
        have still : ((tlbSet state first { state.tlb first with used := false }).tlb i).used =
            false := by
          by_cases here : i = first
          · simp [tlbSet, here]
          · simp [tlbSet, here, free]
        obtain ⟨j, inside, equal⟩ := ih ⟨i, later, still⟩
        exact ⟨j, List.mem_cons_of_mem first inside, equal⟩
      case isFalse => exact ⟨first, List.mem_cons_self, by simp [tlbSet]⟩

private theorem tlbSweep_of_used {indices : List Nat} (entry : Tlbe) (nodup : indices.Nodup)
    (used : ∀ i ∈ indices, (state.tlb i).used = true) (j : Nat) :
    ((tlbSweep state entry indices).tlb j).valid = (state.tlb j).valid ∧
      ((tlbSweep state entry indices).tlb j).vpn = (state.tlb j).vpn := by
  induction indices generalizing state with
  | nil => exact ⟨rfl, rfl⟩
  | cons first rest ih =>
      obtain ⟨notLater, nodup⟩ := List.nodup_cons.mp nodup
      rw [tlbSweep, if_pos (used first List.mem_cons_self)]
      have others : ∀ i ∈ rest,
          ((tlbSet state first { state.tlb first with used := false }).tlb i).used = true := by
        intro i member
        have different : i ≠ first := ne_of_mem_of_not_mem member notLater
        simpa [tlbSet, different] using used i (List.mem_cons_of_mem first member)
      have cleared : ((tlbSet state first { state.tlb first with used := false }).tlb j).valid =
            (state.tlb j).valid ∧
          ((tlbSet state first { state.tlb first with used := false }).tlb j).vpn =
            (state.tlb j).vpn := by
        by_cases here : j = first
        · subst here
          simp [tlbSet]
        · simp [tlbSet, here]
      obtain ⟨valid, vpn⟩ := ih nodup others
      exact ⟨valid.trans cleared.1, vpn.trans cleared.2⟩

/-- The replacement enters a page of which no valid entry is there exactly when some entry is
invalid or was not used. -/
theorem tlbInstall_enters_iff {vpn : Vpn} (miss : TlbMisses config state vpn) (pfn : Pfn)
    (write : Bool) :
    (∃ i < config.tlbSize, ((tlbInstall config state vpn pfn write).tlb i).valid = true ∧
        ((tlbInstall config state vpn pfn write).tlb i).vpn = vpn) ↔
      ∃ i < config.tlbSize, (state.tlb i).valid = false ∨ (state.tlb i).used = false := by
  unfold tlbInstall
  cases found : tlbFind config state fun e => !e.valid with
  | some i =>
      obtain ⟨inside, invalid⟩ := tlbFind_eq_some found
      refine iff_of_true ⟨i, inside, ?_, ?_⟩ ⟨i, inside, .inl (by simpa using invalid)⟩ <;>
        simp [tlbSet]
  | none =>
      have valid : ∀ i < config.tlbSize, (state.tlb i).valid = true := by
        simpa using tlbFind_eq_none.mp found
      constructor
      · rintro ⟨i, inside, entered⟩
        by_contra full
        have used : ∀ j ∈ List.range config.tlbSize, (state.tlb j).used = true := by
          intro j member
          rw [← Bool.not_eq_false]
          exact fun unused => full ⟨j, List.mem_range.mp member, .inr unused⟩
        obtain ⟨sameValid, sameVpn⟩ := tlbSweep_of_used
          { vpn, pfn, dirty := write, valid := true, used := true } List.nodup_range used i
        exact miss i inside (sameValid ▸ entered.1) (sameVpn ▸ entered.2)
      · rintro ⟨i, inside, free⟩
        have unused : (state.tlb i).used = false := free.resolve_left (by simp [valid i inside])
        obtain ⟨j, member, equal⟩ := tlbSweep_of_unused
          { vpn, pfn, dirty := write, valid := true, used := true }
          ⟨i, List.mem_range.mpr inside, unused⟩
        exact ⟨j, List.mem_range.mp member, by rw [equal], by rw [equal]⟩

end Replacement

/-! ## The TLB during a miss -/

section Miss

variable {config : Config} {before after : State} {vpn : Vpn} {pfn : Pfn} {write : Bool}

/-- A page fault makes the entries of the evicted page number invalid, and leaves the others. -/
theorem pagefaultHandler_tlb
    (step : pagefaultHandler config before vpn write = some (after, pfn))
    (absent : ∀ table, before.currentPagetable = some table →
      (before.tables table vpn).valid = false) {i : Nat} (inside : i < config.tlbSize) :
    after.tlb i = if invalidates config before.toOs vpn (before.tlb i).vpn then
      (before.tlb i).clear else before.tlb i := by
  obtain ⟨register, swept, evicted, installed, free, -, evict, -, rfl⟩ :=
    pagefaultHandler_eq_some.mp step
  obtain ⟨current, register⟩ := Option.isSome_iff_exists.mp register
  have only := getFreeFrame_usedOnly free
  have evicts : invalidates config before.toOs vpn (before.tlb i).vpn =
      ((before.rlt pfn.toNat).vpn == (before.tlb i).vpn &&
        (before.rlt pfn.toNat).pcb.any fun owner =>
          (before.pte owner (before.tlb i).vpn).any Pte.valid) := by
    simp [invalidates, register, absent current register, free]
  rcases evictVictim_cases evict with ⟨rfl, kept⟩ | ⟨pcb, table, owner, pagetable, valid, rfl⟩
  · have spared : invalidates config before.toOs vpn (before.tlb i).vpn = false := by
      rw [evicts, ← Bool.not_eq_true]
      intro both
      obtain ⟨same, any⟩ := Bool.and_eq_true_iff.mp both
      obtain ⟨owner, owns, entry⟩ := (Option.any_eq_true _ _).mp any
      obtain ⟨pte, entry, valid⟩ := (Option.any_eq_true _ _).mp entry
      obtain ⟨table, pagetable, rfl⟩ := Os.pte_eq_some.mp entry
      obtain ⟨other, otherTable, invalid⟩ := kept owner (by rw [only.rlt]; exact owns)
      simp only [only.procList, pagetable, Option.some.injEq] at otherTable
      subst otherTable
      simp only [only.rlt, only.valid, beq_iff_eq.mp same, valid] at invalid
      cases invalid
    simp [spared]
  · simp only [only.rlt] at owner valid
    simp only [only.procList] at pagetable
    simp only [only.valid] at valid
    have same : invalidates config before.toOs vpn (before.tlb i).vpn =
        decide ((before.tlb i).vpn = (before.rlt pfn.toNat).vpn) := by
      rw [evicts]
      by_cases number : (before.tlb i).vpn = (before.rlt pfn.toNat).vpn
      · simp [number, owner, Os.pte, pagetable, valid]
      · simp [number, Ne.symm number]
    simp [tlbClearone, only.rlt, same, inside]

private theorem pagetableLookup_tlb
    (step : pagetableLookup config before vpn write = some (after, pfn)) {i : Nat}
    (inside : i < config.tlbSize) :
    after.tlb i = if invalidates config before.toOs vpn (before.tlb i).vpn then
      (before.tlb i).clear else before.tlb i := by
  simp only [pagetableLookup, bind, Option.bind_eq_some_iff] at step
  obtain ⟨table, register, step⟩ := step
  split at step
  case isTrue valid =>
    obtain ⟨rfl, -⟩ : before = after ∧ _ = pfn := by simpa using step
    simp [invalidates, register, valid]
  case isFalse invalid =>
    have same : SamePages before.toOs
        { before.toOs with countPagefaults := before.countPagefaults + 1 } :=
      ⟨rfl, rfl, rfl, rfl, rfl⟩
    have counted : invalidates config
        { before.toOs with countPagefaults := before.countPagefaults + 1 } vpn (before.tlb i).vpn =
          invalidates config before.toOs vpn (before.tlb i).vpn := by
      simp only [invalidates, same.getFreeFrame, same.pte]
    rw [← counted]
    refine pagefaultHandler_tlb step (fun other otherRegister => ?_) inside
    obtain rfl := Option.some.inj (register.symm.trans otherRegister)
    simpa using invalid

end Miss

/-! ## The translation after an access -/

section Access

variable {config : Config} {state after : State} {vpn : Vpn} {pfn : Pfn} {write : Bool}

/-- A coherent TLB that has an entry for a page holds its frame in it, and hits. -/
theorem TlbCoherent.installed (coherent : TlbCoherent config state)
    (translates : state.Translates vpn pfn)
    (entered : ∃ i < config.tlbSize, (state.tlb i).valid = true ∧ (state.tlb i).vpn = vpn) :
    Installed config state vpn pfn := by
  have frame : ∀ i < config.tlbSize, (state.tlb i).valid = true → (state.tlb i).vpn = vpn →
      (state.tlb i).pfn = pfn := by
    intro i inside valid same
    obtain ⟨table, register, -, equal⟩ := coherent.translates i inside valid
    obtain ⟨other, otherRegister, -, rfl⟩ := translates
    obtain rfl := Option.some.inj (register.symm.trans otherRegister)
    rw [← equal, same]
  obtain ⟨i, inside, valid, same⟩ := entered
  refine ⟨⟨i, inside, valid, same, frame i inside valid same, fun j jInside jValid jSame =>
    coherent.unique j jInside i inside jValid valid (jSame.trans same.symm)⟩, fun write => ?_⟩
  unfold tlbLookup
  cases found : tlbFind config state fun e => e.valid && e.vpn == vpn with
  | some j =>
      obtain ⟨jInside, hit⟩ := tlbFind_eq_some found
      have hit : (state.tlb j).valid = true ∧ (state.tlb j).vpn = vpn := by simpa using hit
      simp [frame j jInside hit.1 hit.2]
  | none =>
      have missed := tlbFind_eq_none.mp found i inside
      simp [valid, same] at missed

/-- After an access to a page the TLB has exactly one valid entry for it, so that the next access is
a hit, if and only if there was room for it. -/
theorem installs_iff (reached : Reached config state)
    (step : tlbLookup config state vpn write = some (after, pfn)) :
    Installed config after vpn pfn ↔ HasRoom config state vpn := by
  have coherent := reached.tlbInvariant.coherent
  obtain ⟨afterCoherent, translates⟩ := tlbLookup_coherent coherent step
  have entered : Installed config after vpn pfn ↔
      ∃ i < config.tlbSize, (after.tlb i).valid = true ∧ (after.tlb i).vpn = vpn :=
    ⟨fun ⟨⟨i, inside, valid, same, _⟩, _⟩ => ⟨i, inside, valid, same⟩,
      fun entry => afterCoherent.installed translates entry⟩
  rw [entered]
  unfold tlbLookup at step
  split at step
  case h_1 i found =>
    obtain ⟨inside, hit⟩ := tlbFind_eq_some found
    have hit : (state.tlb i).valid = true ∧ (state.tlb i).vpn = vpn := by simpa using hit
    obtain ⟨rfl, -⟩ : _ = after ∧ _ = pfn := by simpa using step
    exact iff_of_true ⟨i, inside, hit⟩ (.inl ⟨i, inside, hit⟩)
  case h_2 missed =>
    simp only [bind, Option.bind_eq_some_iff, Option.some.injEq, Prod.mk.injEq, Prod.exists] at step
    obtain ⟨looked, frame, lookup, rfl, rfl⟩ := step
    have miss : TlbMisses config state vpn := by
      intro i inside valid equal
      have := tlbFind_eq_none.mp missed i inside
      simp [valid, equal] at this
    obtain ⟨-, lookedMiss, -⟩ := pagetableLookup_coherent coherent miss lookup
    have noHit : ¬ ∃ i < config.tlbSize, (state.tlb i).valid = true ∧ (state.tlb i).vpn = vpn :=
      fun ⟨i, inside, valid, same⟩ => miss i inside valid same
    rw [tlbInstall_enters_iff lookedMiss, HasRoom, or_iff_right noHit]
    refine exists_congr fun i => and_congr_right fun inside => ?_
    rw [pagetableLookup_tlb lookup inside]
    split
    case isTrue evicted => simp [Tlbe.clear, evicted]
    case isFalse spared => simp [spared]

theorem access_of_run (commands : List Command) (vpn : Vpn) (property : State → Bool)
    (runs : (run .defaults simInit commands).any (fun result =>
      (tlbLookup .defaults result.1 vpn false).any fun access => property access.1) = true) :
    ∃ state after pfn, Reached .defaults state ∧
      tlbLookup .defaults state vpn false = some (after, pfn) ∧ property after = true := by
  obtain ⟨⟨state, outputs⟩, finished, looks⟩ := (Option.any_eq_true _ _).mp runs
  obtain ⟨⟨after, pfn⟩, lookup, holds⟩ := (Option.any_eq_true _ _).mp looks
  exact ⟨state, after, pfn, ⟨commands, state, outputs, finished, .inl rfl⟩, lookup, holds⟩

/-- The second page that a process accesses. -/
theorem installs_iff_second : ∃ state after pfn,
    tlbLookup .defaults state 3 false = some (after, pfn) ∧
      (Installed .defaults after 3 pfn ↔ HasRoom .defaults state 3) := by
  obtain ⟨state, after, pfn, reached, lookup, -⟩ :=
    access_of_run [.fork 0, .load 0 0] 3 (fun _ => true) (by decide +kernel)
  exact ⟨state, after, pfn, lookup, installs_iff reached lookup⟩

end Access

/-- A fifth page does not enter a TLB of four entries that were all used. -/
theorem full_tlb_installs_nothing : Config.defaults.Accepted ∧ ∃ state after pfn,
    Reached .defaults state ∧ tlbLookup .defaults state 4 false = some (after, pfn) ∧
      ¬ Installed .defaults after 4 pfn := by
  obtain ⟨state, after, pfn, reached, lookup, none⟩ := access_of_run
    [.fork 0, .load 0 0, .load 0 2, .load 0 4, .load 0 6] 4
    (fun after => (List.range 4).all fun i => !((after.tlb i).valid && (after.tlb i).vpn == 4))
    (by decide +kernel)
  refine ⟨⟨[], some "references", rfl⟩, state, after, pfn, reached, lookup, ?_⟩
  rintro ⟨⟨i, inside, valid, same, -⟩, -⟩
  have missing := List.all_eq_true.mp none i (List.mem_range.mpr inside)
  simp [valid, same] at missing

end CS2200.VirtualMemory
