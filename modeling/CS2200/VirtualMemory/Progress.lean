import CS2200.VirtualMemory.Tlb

/-!
# Accesses that do not abort

Where every frame that is in use belongs to a forked process, and a running process has a page table
register, an access passes every assertion. Every fork, switch and access keeps this, also where an
identifier is forked again while it owns frames.
-/

namespace CS2200.VirtualMemory

/-- A process is forked. -/
def Os.Forked (os : Os) (pcb : Nat) : Prop := (os.procList pcb).pagetable ≠ none

/-! ## What a translation leaves alone -/

/-- Process data and the numbers of accesses agree, and a frame that changes its owner belongs to
the running process. -/
structure Kept (before after : Os) : Prop where
  /-- Process data. -/
  processes : SameProcesses before after
  /-- Number of loads. -/
  reads : after.countReads = before.countReads
  /-- Number of stores. -/
  writes : after.countWrites = before.countWrites
  /-- Owners of frames. -/
  owner : ∀ {frame pcb}, (after.rlt frame).pcb = some pcb →
    (before.rlt frame).pcb = some pcb ∨ before.current = some pcb

namespace Kept

variable {config : Config} {vpn : Vpn} {pfn : Pfn} {write : Bool}

theorem refl (os : Os) : Kept os os := ⟨.refl os, rfl, rfl, .inl⟩

private theorem trans {first second third : Os} (left : Kept first second)
    (right : Kept second third) : Kept first third where
  processes := left.processes.trans right.processes
  reads := right.reads.trans left.reads
  writes := right.writes.trans left.writes
  owner owned := by
    rcases right.owner owned with earlier | running
    · exact left.owner earlier
    · exact .inr (left.processes.current ▸ running)

theorem of_usedOnly {before after : Os} (only : UsedOnly before after) : Kept before after where
  processes := ⟨only.procList, only.allocated, only.current, only.currentPagetable⟩
  reads := by rw [only.rest]
  writes := by rw [only.rest]
  owner owned := .inl (only.rlt ▸ owned)

theorem of_evictVictim {before after : State} (step : evictVictim config before pfn = some after) :
    Kept before.toOs after.toOs := by
  rcases evictVictim_cases step with ⟨rfl, -⟩ | ⟨pcb, table, -, -, -, rfl⟩
  · exact .refl _
  · refine ⟨evictVictim_sameProcesses step, ?_, ?_, fun owned => .inl ?_⟩
    · simp only [tlbClearone, evictPage]
      split <;> rfl
    · simp only [tlbClearone, evictPage]
      split <;> rfl
    · simpa [tlbClearone] using owned

private theorem of_installPage {before after : Os}
    (step : installPage config before pfn vpn write = some after) : Kept before after := by
  obtain ⟨current, table, running, -, rfl⟩ := installPage_eq_some.mp step
  refine ⟨⟨?_, ?_, ?_, ?_⟩, ?_, ?_, fun {frame pcb} owned => ?_⟩
  · rw [pageFromDisk_procList]
    rfl
  · rw [pageFromDisk_allocated]
    rfl
  · rw [pageFromDisk_current]
    rfl
  · rw [pageFromDisk_currentPagetable]
    rfl
  · unfold pageFromDisk
    split <;> rfl
  · unfold pageFromDisk
    split <;> rfl
  · rw [pageFromDisk_rlt] at owned
    change (Function.update before.rlt pfn.toNat _ frame).pcb = some pcb at owned
    by_cases installed : frame = pfn.toNat
    · rw [installed, Function.update_self] at owned
      exact .inr (running.trans owned)
    · rw [Function.update_of_ne installed] at owned
      exact .inl owned

variable {before after : State}

private theorem of_pagefaultHandler
    (step : pagefaultHandler config before vpn write = some (after, pfn)) :
    Kept before.toOs after.toOs := by
  obtain ⟨-, swept, evicted, installed, free, -, evict, install, rfl⟩ :=
    pagefaultHandler_eq_some.mp step
  exact (of_usedOnly (getFreeFrame_usedOnly free)).trans
    ((of_evictVictim evict).trans (of_installPage install))

private theorem of_pagetableLookup
    (step : pagetableLookup config before vpn write = some (after, pfn)) :
    Kept before.toOs after.toOs := by
  simp only [pagetableLookup, bind, Option.bind_eq_some_iff] at step
  obtain ⟨table, register, step⟩ := step
  split at step
  · obtain ⟨rfl, -⟩ : before = after ∧ _ = pfn := by simpa using step
    exact .refl _
  · obtain ⟨⟨procList, allocated, current, register⟩, reads, writes, owner⟩ :=
      of_pagefaultHandler step
    exact ⟨⟨procList, allocated, current, register⟩, reads, writes, owner⟩

theorem of_tlbLookup (step : tlbLookup config before vpn write = some (after, pfn)) :
    Kept before.toOs after.toOs := by
  unfold tlbLookup at step
  split at step
  case h_1 =>
    obtain ⟨rfl, -⟩ := Prod.mk.inj (Option.some.inj step)
    exact .refl _
  case h_2 =>
    obtain ⟨⟨looked, frame⟩, lookup, installs⟩ := Option.bind_eq_some_iff.mp step
    obtain ⟨rfl, -⟩ := Prod.mk.inj (Option.some.inj installs)
    rw [tlbInstall_toOs]
    exact of_pagetableLookup lookup

end Kept

/-! ## The invariant -/

/-- Every frame that is in use belongs to a forked process. -/
def Os.OwnersForked (os : Os) : Prop :=
  ∀ {frame pcb}, (os.rlt frame).pcb = some pcb → ∃ table, (os.procList pcb).pagetable = some table

/-- What holds between any actions. -/
structure Ready (config : Config) (os : Os) : Prop where
  /-- Frames belong to forked processes. -/
  owners : os.OwnersForked
  /-- The running process is forked, and the page table register is set. -/
  running : ∀ {current}, os.current = some current →
    (∃ table, (os.procList current).pagetable = some table) ∧ os.currentPagetable ≠ none
  /-- A forked process stores its own identifier. -/
  pid : ∀ {pcb table}, (os.procList pcb).pagetable = some table → (os.procList pcb).pid.toNat = pcb

section Total

variable {config : Config} {os : Os}

/-- The sweep ends at a frame. -/
theorem clockSweep_total (owners : os.OwnersForked) (frames : List Nat)
    (occupied : ∀ frame ∈ frames, (os.rlt frame).pcb ≠ none) :
    ∃ swept pfn, clockSweep os frames = some (swept, pfn) := by
  induction frames generalizing os with
  | nil => exact ⟨os, 0, rfl⟩
  | cons frame frames ih =>
      obtain ⟨pcb, owner⟩ := Option.ne_none_iff_exists'.mp (occupied frame List.mem_cons_self)
      obtain ⟨table, pagetable⟩ := owners owner
      simp only [clockSweep, owner, pagetable, bind, Option.bind_some]
      split
      · refine ih ?_ fun other member => occupied other (List.mem_cons_of_mem frame member)
        exact fun owned => owners owned
      · exact ⟨_, _, rfl⟩

private theorem ofNat_toNat_lt {frame bound : Nat} (inRange : frame < bound) :
    (UInt16.ofNat frame).toNat < bound := by
  rw [UInt16.toNat_ofNat']
  exact (Nat.mod_le _ _).trans_lt inRange

/-- A free frame or the end of the sweep is a frame of the memory. -/
theorem getFreeFrame_total (owners : os.OwnersForked) (positive : 0 < config.numFrames) :
    ∃ swept pfn, getFreeFrame config os = some (swept, pfn) ∧ pfn.toNat < config.numFrames := by
  unfold getFreeFrame
  split
  case h_1 frame free =>
    exact ⟨os, _, rfl, ofNat_toNat_lt (List.mem_range.mp (List.mem_of_find?_eq_some free))⟩
  case h_2 occupied =>
    obtain ⟨swept, pfn, sweep⟩ := clockSweep_total owners (List.range config.numFrames)
      (fun frame member => by simpa using List.find?_eq_none.mp occupied frame member)
    refine ⟨swept, pfn, sweep, ?_⟩
    rcases clockSweep_pfn sweep with rfl | ⟨frame, member, rfl⟩
    · exact positive
    · exact ofNat_toNat_lt (List.mem_range.mp member)

private theorem evictVictim_isSome {state : State} (owners : state.OwnersForked) (pfn : Pfn) :
    ∃ evicted, evictVictim config state pfn = some evicted := by
  cases owner : (state.rlt pfn.toNat).pcb with
  | none => exact ⟨state, by simp [evictVictim, owner]⟩
  | some pcb =>
      obtain ⟨table, pagetable⟩ := owners owner
      simp only [evictVictim, owner, pagetable, bind, Option.bind_some]
      split <;> exact ⟨_, rfl⟩

end Total

namespace Ready

variable {config : Config} {before after : State}

theorem of_kept {os changed : Os} (ready : Ready config os) (kept : Kept os changed) :
    Ready config changed where
  owners owned := by
    rw [kept.processes.procList]
    rcases kept.owner owned with earlier | running
    · exact ready.owners earlier
    · exact (ready.running running).1
  running runs := by
    rw [kept.processes.current] at runs
    rw [kept.processes.procList, kept.processes.currentPagetable]
    exact ready.running runs
  pid forked := by
    rw [kept.processes.procList] at forked ⊢
    exact ready.pid forked

theorem pagefaultHandler_isSome (ready : Ready config before.toOs) (positive : 0 < config.numFrames)
    {current : Nat} (running : before.current = some current) (vpn : Vpn) (write : Bool) :
    ∃ after pfn, pagefaultHandler config before vpn write = some (after, pfn) := by
  obtain ⟨-, isSet⟩ := ready.running running
  obtain ⟨table, register⟩ := Option.ne_none_iff_exists'.mp isSet
  obtain ⟨swept, pfn, free, inRange⟩ := getFreeFrame_total ready.owners positive
  have sweeps := Kept.of_usedOnly (getFreeFrame_usedOnly free)
  obtain ⟨evicted, evict⟩ := @evictVictim_isSome config { before with toOs := swept }
    (ready.of_kept sweeps).owners pfn
  have same := sweeps.processes.trans (Kept.of_evictVictim evict).processes
  obtain ⟨installed, install⟩ : ∃ installed,
      installPage config evicted.toOs pfn vpn write = some installed :=
    ⟨_, installPage_eq_some.mpr ⟨current, table, by rw [same.current, running],
      by rw [same.currentPagetable, register], rfl⟩⟩
  exact ⟨_, pfn, pagefaultHandler_eq_some.mpr
    ⟨by simp [register], swept, evicted, installed, free, inRange, evict, install, rfl⟩⟩

theorem pagetableLookup_isSome (ready : Ready config before.toOs)
    (positive : 0 < config.numFrames) {current : Nat} (running : before.current = some current)
    (vpn : Vpn) (write : Bool) :
    ∃ after pfn, pagetableLookup config before vpn write = some (after, pfn) := by
  obtain ⟨table, register⟩ := Option.ne_none_iff_exists'.mp (ready.running running).2
  cases valid : (before.tables table vpn).valid with
  | true =>
      exact ⟨before, (before.tables table vpn).pfn, by simp [pagetableLookup, register, valid]⟩
  | false =>
      have counted : Ready config
          { before.toOs with countPagefaults := before.countPagefaults + 1 } :=
        ready.of_kept ⟨⟨rfl, rfl, rfl, rfl⟩, rfl, rfl, .inl⟩
      obtain ⟨after, pfn, handles⟩ := @pagefaultHandler_isSome config
        { before with countPagefaults := before.countPagefaults + 1 } counted positive current
        running vpn write
      refine ⟨after, pfn, ?_⟩
      unfold pagetableLookup
      rw [Option.bind_eq_bind, Option.bind_eq_some_iff]
      exact ⟨table, register, by rw [if_neg (by simp [valid]), handles]⟩

theorem tlbLookup_isSome (ready : Ready config before.toOs) (positive : 0 < config.numFrames)
    (running : before.current ≠ none) (vpn : Vpn) (write : Bool) :
    ∃ after pfn, tlbLookup config before vpn write = some (after, pfn) := by
  obtain ⟨current, running⟩ := Option.ne_none_iff_exists'.mp running
  obtain ⟨looked, pfn, lookup⟩ := ready.pagetableLookup_isSome positive running vpn write
  unfold tlbLookup
  split
  · exact ⟨_, _, rfl⟩
  · rw [lookup]
    exact ⟨_, _, rfl⟩

/-! ## Actions -/

theorem memLoad (ready : Ready config before.toOs) (positive : 0 < config.numFrames)
    (running : before.current ≠ none) (va : VAddr) :
    ∃ after data, VirtualMemory.memLoad config before va = some (after, data) ∧
      Ready config after.toOs ∧ after.procList = before.procList ∧
      after.countReads = before.countReads + 1 := by
  obtain ⟨looked, pfn, lookup⟩ :=
    ready.tlbLookup_isSome positive running (config.vaddrPagenum va) false
  have kept := Kept.of_tlbLookup lookup
  refine ⟨{ looked with countReads := looked.countReads + 1 },
    looked.memory (physicalAddress config pfn va), ?_, ?_, kept.processes.procList,
    congrArg (· + 1) kept.reads⟩
  · simp [VirtualMemory.memLoad, lookup]
  · have after := ready.of_kept kept
    exact ⟨after.owners, after.running, after.pid⟩

theorem memStore (ready : Ready config before.toOs) (positive : 0 < config.numFrames)
    (running : before.current ≠ none) (va : VAddr) (data : Word) :
    ∃ after, VirtualMemory.memStore config before va data = some after ∧
      Ready config after.toOs ∧ after.procList = before.procList ∧
      after.countWrites = before.countWrites + 1 := by
  obtain ⟨looked, pfn, lookup⟩ :=
    ready.tlbLookup_isSome positive running (config.vaddrPagenum va) true
  have kept := Kept.of_tlbLookup lookup
  refine ⟨{ looked with
    countWrites := looked.countWrites + 1
    memory := Function.update looked.memory (physicalAddress config pfn va) data }, ?_, ?_,
    kept.processes.procList, congrArg (· + 1) kept.writes⟩
  · simp [VirtualMemory.memStore, lookup]
  · have after := ready.of_kept kept
    exact ⟨after.owners, after.running, after.pid⟩

theorem procFork (ready : Ready config before.toOs) {pid : UInt32}
    (inRange : pid.toNat < config.maxJobs) :
    ∃ after, VirtualMemory.procFork config before pid = some after ∧ Ready config after.toOs ∧
      (∀ pcb, after.Forked pcb ↔ before.Forked pcb ∨ pcb = pid.toNat) ∧
      after.allocated = before.allocated + 1 := by
  have forked {pcb : Nat} (old : ∃ table, (before.procList pcb).pagetable = some table) :
      ∃ table, (Function.update before.procList pid.toNat
        { pid, pagetable := some before.allocated } pcb).pagetable = some table := by
    by_cases same : pcb = pid.toNat
    · rw [same, Function.update_self]
      exact ⟨_, rfl⟩
    · rwa [Function.update_of_ne same]
  refine ⟨_, if_pos inRange, ⟨fun owned => forked (ready.owners owned),
    fun runs => ⟨forked (ready.running runs).1, (ready.running runs).2⟩, fun {pcb table} has => ?_⟩,
    fun pcb => ?_, rfl⟩
  case refine_2 =>
    change (Function.update before.procList pid.toNat _ pcb).pagetable ≠ none ↔ _
    by_cases same : pcb = pid.toNat
    · rw [same, Function.update_self]
      exact iff_of_true (Option.some_ne_none _) (.inr rfl)
    · rw [Function.update_of_ne same, or_iff_left same]
      exact Iff.rfl
  change (Function.update before.procList pid.toNat _ pcb).pid.toNat = pcb
  by_cases same : pcb = pid.toNat
  · rw [same, Function.update_self]
  · rw [Function.update_of_ne same]
    change (Function.update before.procList pid.toNat _ pcb).pagetable = some table at has
    rw [Function.update_of_ne same] at has
    exact ready.pid has

/-- Before an access the process runs, if it is forked; nothing else is counted. -/
theorem switchTo (ready : Ready config before.toOs) {pid : UInt32}
    (inRange : pid.toNat < config.maxJobs)
    (forked : before.Forked pid.toNat) :
    ∃ after, VirtualMemory.switchTo config before pid = some after ∧ Ready config after.toOs ∧
      after.current ≠ none ∧ after.procList = before.procList ∧
      after.countReads = before.countReads ∧ after.countWrites = before.countWrites := by
  unfold VirtualMemory.switchTo
  split
  case isTrue running =>
    refine ⟨before, rfl, ready, fun idle => ?_, rfl, rfl, rfl⟩
    rw [idle] at running
    cases running
  case isFalse =>
    obtain ⟨table, pagetable⟩ := Option.ne_none_iff_exists'.mp forked
    simp only [procSwitch, inRange, if_true, pagetable, bind, Option.bind_some]
    refine ⟨_, rfl, ⟨ready.owners, fun runs => ?_, ready.pid⟩, Option.some_ne_none _, rfl, rfl,
      rfl⟩
    obtain rfl := Option.some.inj runs
    exact ⟨⟨table, pagetable⟩, Option.some_ne_none _⟩

private theorem switchTo_eq_none (ready : Ready config before.toOs) {pid : UInt32}
    (unforked : (before.procList pid.toNat).pagetable = none) :
    VirtualMemory.switchTo config before pid = none := by
  unfold VirtualMemory.switchTo
  split
  case isTrue running =>
    obtain ⟨current, runs, same⟩ := Option.map_eq_some_iff.mp running
    obtain ⟨table, pagetable⟩ := (ready.running runs).1
    have isPid := ready.pid pagetable
    rw [same] at isPid
    rw [isPid, pagetable] at unforked
    cases unforked
  case isFalse =>
    simp [procSwitch, unforked]

theorem forked_of_switchTo (ready : Ready config before.toOs) {pid : UInt32}
    (switches : VirtualMemory.switchTo config before pid = some after) :
    before.Forked pid.toNat := by
  intro unforked
  cases switches.symm.trans (ready.switchTo_eq_none unforked)

theorem simInit (config : Config) : Ready config simInit.toOs where
  owners owned := by cases owned
  running runs := by cases runs
  pid has := by cases has

end Ready

end CS2200.VirtualMemory
