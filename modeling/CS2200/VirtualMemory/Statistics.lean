import CS2200.VirtualMemory.FreeFrames
import Mathlib.Algebra.BigOperators.Group.Finset.Piecewise
import Mathlib.Algebra.Order.BigOperators.Group.List

/-!
# Statistics

The counters of `statistics.c` and the mean access time of `emat.c`. Every access takes one of three
routes: its page is in the TLB, in the page table or on disk. The counters say how many accesses
took each route, and what `compute_emat` divides is the time that the routes take.
-/

namespace CS2200.VirtualMemory

/-! ## Accesses -/

/-- Where an access finds its page. -/
inductive Route where
  /-- In the TLB. -/
  | tlb
  /-- In the page table. -/
  | table
  /-- After a page fault. -/
  | fault
  deriving DecidableEq, Repr

/-- Where `tlb_lookup` finds a page. -/
def route (config : Config) (state : State) (vpn : Vpn) : Route :=
  if (tlbFind config state fun e => e.valid && e.vpn == vpn).isSome then .tlb
  else if state.currentPagetable.any fun table => (state.tables table vpn).valid then .table
  else .fault

/-- An access as the statistics see it. -/
structure Access where
  /-- A store. -/
  write : Bool
  /-- The running process. -/
  process : Nat
  /-- Page that is accessed. -/
  page : Vpn
  /-- Where it is found. -/
  route : Route
  deriving DecidableEq, Repr

/-- The access that an action makes. -/
def Action.access (config : Config) (state : State) : Action → Option Access
  | .fork _ | .switch _ => none
  | .load va => some {
      write := false
      process := state.current.getD 0
      page := config.vaddrPagenum va
      route := VirtualMemory.route config state (config.vaddrPagenum va) }
  | .store va _ => some {
      write := true
      process := state.current.getD 0
      page := config.vaddrPagenum va
      route := VirtualMemory.route config state (config.vaddrPagenum va) }

/-- A legal action, with the access that it makes. -/
def RecordedStep (config : Config) (before : State) (label : Action × Option Access)
    (after : State) : Prop :=
  LegalStep config before label.1 after ∧ label.2 = label.1.access config before

/-- The state after a legal action, if it makes the access of its label. -/
def recordedAct (config : Config) (state : State) (label : Action × Option Access) : Option State :=
  if label.2 = label.1.access config state then legalAct config state label.1 else none

theorem recordedTrace_of_foldlM {config : Config} {labels : List (Action × Option Access)}
    {state : State} (folds : labels.foldlM (recordedAct config) simInit = some state) :
    Trace (RecordedStep config) simInit labels state :=
  (Trace.of_foldlM folds).mono fun step => by
    obtain ⟨records, legal⟩ := Option.ite_none_right_eq_some.mp step
    exact ⟨legalAct_eq_some.mp legal, records⟩

/-- The accesses of a run. -/
def accessesOf (labels : List (Action × Option Access)) : List Access := labels.filterMap Prod.snd

/-- The page of an access, with its process. -/
def Access.key (access : Access) : Nat × Vpn := (access.process, access.page)

/-! ## The mean access time -/

/-- `MEMORY_ACCESS_TIME`, in nanoseconds. -/
def memoryAccessTime : UInt64 := 100

/-- `DISK_ACCESS_TIME`, in nanoseconds. -/
def diskAccessTime : UInt64 := 10000000

/-- `total_accesses` of `compute_emat`. -/
def totalAccesses (state : State) : UInt64 := state.countWrites + state.countReads

/-- `timee` of `compute_emat`, which divides it by `total_accesses`. The sum is one of unsigned
numbers and is converted to a signed one. The factors `total_accesses` and `tlb_misses` are signed,
which changes no bit of a product. -/
def timee (state : State) : Int64 :=
  let tlbMisses := totalAccesses state - state.countTlbhits
  (state.countPagefaults * diskAccessTime + totalAccesses state * memoryAccessTime +
    tlbMisses * memoryAccessTime).toInt64

/-- The time of an access: one for memory, one for the page table and one for the disk. -/
def Route.time : Route → Nat
  | .tlb => 100
  | .table => 100 + 100
  | .fault => 100 + 100 + 10000000

/-! ## Dirty frames -/

/-- Whether the page in a frame is dirty. -/
def Os.dirt (os : Os) (frame : Nat) : Nat :=
  if ((os.rlt frame).pcb.bind fun pcb => os.pte pcb (os.rlt frame).vpn).any Pte.dirty then 1 else 0

/-- The number of dirty frames. -/
def Os.dirtyFrames (config : Config) (os : Os) : Nat :=
  ∑ frame ∈ Finset.range config.numFrames, os.dirt frame

section Dirt

variable {config : Config} {before after : Os} {frame pcb : Nat}

theorem Os.dirt_of_owner {os : Os} {pte : Pte} (owner : (os.rlt frame).pcb = some pcb)
    (entry : os.pte pcb (os.rlt frame).vpn = some pte) :
    os.dirt frame = if pte.dirty then 1 else 0 := by
  simp [Os.dirt, owner, entry]

theorem Os.dirt_of_free {os : Os} (free : (os.rlt frame).pcb = none) : os.dirt frame = 0 := by
  simp [Os.dirt, free]

theorem UsedOnly.dirt (only : UsedOnly before after) : after.dirt = before.dirt := by
  funext frame
  cases owner : (before.rlt frame).pcb with
  | none =>
      rw [Os.dirt_of_free owner, Os.dirt_of_free (by rw [only.rlt, owner])]
  | some pcb =>
      simp only [Os.dirt, only.rlt, owner, Option.bind_some, Os.pte, only.procList]
      cases (before.procList pcb).pagetable with
      | none => rfl
      | some table => simp [only.dirty]

theorem SamePages.dirt (same : SamePages before after) : after.dirt = before.dirt := by
  funext frame
  simp only [Os.dirt, same.rlt, same.pte]

end Dirt

/-! ## A page fault -/

/-- The counters of loads, stores and page faults. -/
structure SameCounters (before after : Os) : Prop where
  /-- Loads. -/
  reads : after.countReads = before.countReads
  /-- Stores. -/
  writes : after.countWrites = before.countWrites
  /-- Page faults. -/
  faults : after.countPagefaults = before.countPagefaults

/-- Pages were saved and restored: every page that was saved is in the swap list or was restored. -/
structure Traffic (saved : Nat) (before after : Os) : Prop where
  /-- The counter is that of the disk accesses. -/
  counted : ∀ count, before.countDiskaccesses = .ofNat count →
    ∃ total, after.countDiskaccesses = .ofNat total ∧
      total + after.swapfile.length = count + before.swapfile.length + 2 * saved

section Fault

variable {config : Config} {before swept vacated after : Os} {current : Nat} {vpn : Vpn}
  {write : Bool} {pfn : Pfn}

private theorem UsedOnly.counters (only : UsedOnly before after) : SameCounters before after := by
  rw [only.rest]
  exact ⟨rfl, rfl, rfl⟩

private theorem Vacated.counters (step : Vacated config before pfn vacated) :
    SameCounters before vacated := by
  cases step with
  | free => exact ⟨rfl, rfl, rfl⟩
  | evicted =>
      unfold evictPage
      split <;> exact ⟨rfl, rfl, rfl⟩

private theorem pageFromDisk_counters (config : Config) (os : Os) (pfn : Pfn) (vpn : Vpn)
    (pid : UInt32) : SameCounters os (pageFromDisk config os pfn vpn pid) := by
  unfold pageFromDisk
  split <;> exact ⟨rfl, rfl, rfl⟩

private theorem Faulted.counters
    (fault : Faulted config before current vpn write pfn swept vacated after) :
    SameCounters before after := by
  obtain ⟨table, -, rfl⟩ := fault.filled
  have sweeps := fault.only.counters
  have vacates := fault.vacates.counters
  have fills := pageFromDisk_counters config (assignFrame vacated current table pfn vpn write) pfn
    vpn (before.procList current).pid
  exact ⟨fills.reads.trans (vacates.reads.trans sweeps.reads),
    fills.writes.trans (vacates.writes.trans sweeps.writes),
    fills.faults.trans (vacates.faults.trans sweeps.faults)⟩

private theorem Vacated.traffic (step : Vacated config before pfn vacated) :
    Traffic (before.dirt pfn.toNat) before vacated := by
  refine ⟨fun count counted => ?_⟩
  cases step with
  | free free => exact ⟨count, counted, by rw [Os.dirt_of_free free, Nat.mul_zero, Nat.add_zero]⟩
  | @evicted pcb table owner pagetable =>
      have entry : before.pte pcb (before.rlt pfn.toNat).vpn = some _ :=
        Os.pte_of_forked pagetable _
      rw [Os.dirt_of_owner owner entry]
      unfold evictPage
      split
      · refine ⟨count + 1, ?_, ?_⟩
        · simp [pageToDisk, Os.modifyPte, counted]
        · simp only [pageToDisk, Os.modifyPte, List.length_cons]
          omega
      · exact ⟨count, counted, rfl⟩

/-- A page that is restored is taken out of the swap list. -/
theorem pageFromDisk_traffic (config : Config) (os : Os) (pfn : Pfn) (vpn : Vpn) (pid : UInt32) :
    Traffic 0 os (pageFromDisk config os pfn vpn pid) := by
  refine ⟨fun count counted => ?_⟩
  unfold pageFromDisk
  split
  case h_1 => exact ⟨count, counted, rfl⟩
  case h_2 saved found =>
    refine ⟨count + 1, by simp [counted], ?_⟩
    have member := List.mem_of_find?_eq_some found
    have shorter := List.length_eraseP_of_mem member (List.find?_some found)
    have positive := List.length_pos_of_mem member
    simp only [shorter]
    omega

private theorem Faulted.traffic
    (fault : Faulted config before current vpn write pfn swept vacated after) :
    Traffic (before.dirt pfn.toNat) before after := by
  obtain ⟨table, -, rfl⟩ := fault.filled
  refine ⟨fun count counted => ?_⟩
  have same := fault.only.rest
  obtain ⟨saves, savesCounted, saved⟩ := fault.vacates.traffic.counted count (by rw [same, counted])
  obtain ⟨total, totalCounted, restored⟩ := (pageFromDisk_traffic config
    (assignFrame vacated current table pfn vpn write) pfn vpn
    (before.procList current).pid).counted saves savesCounted
  rw [fault.only.dirt, fault.only.swapfile] at saved
  exact ⟨total, totalCounted, restored.trans saved⟩

private theorem Faulted.dirt
    (fault : Faulted config before current vpn write pfn swept vacated after)
    (owned : Owned config noHole before) (processes : Processes config before)
    (absent : ∀ pte, before.pte current vpn = some pte → pte.valid = false) :
    after.dirt = Function.update before.dirt pfn.toNat (if write then 1 else 0) := by
  have kept := fault.owned owned processes absent
  funext frame
  by_cases here : frame = pfn.toNat
  · subst here
    have owner : (after.rlt pfn.toNat).pcb = some current := by rw [fault.rlt, Function.update_self]
    have entry := fault.entry processes
    rw [Function.update_self, Os.dirt_of_owner owner (by rwa [fault.rlt, Function.update_self])]
  · have rlt : after.rlt frame = swept.rlt frame := by
      rw [fault.rlt, Function.update_of_ne here, fault.only.rlt]
    rw [Function.update_of_ne here, ← fault.only.dirt]
    cases owner : (after.rlt frame).pcb with
    | none => rw [Os.dirt_of_free owner, Os.dirt_of_free (rlt ▸ owner)]
    | some pcb =>
        obtain ⟨pte, entry, valid, same⟩ := kept.owner id owner
        rcases fault.entry_swept processes entry valid with ⟨-, -, rfl⟩ | sweptEntry
        · exact absurd same.symm here
        · rw [Os.dirt_of_owner owner entry, Os.dirt_of_owner (rlt ▸ owner) (rlt ▸ sweptEntry)]

/-- After a page fault the number of dirty frames has grown by one if the access is a store, and
shrunk by one if the victim was dirty. -/
theorem Faulted.dirtyFrames
    (fault : Faulted config before current vpn write pfn swept vacated after)
    (owned : Owned config noHole before) (processes : Processes config before)
    (absent : ∀ pte, before.pte current vpn = some pte → pte.valid = false) :
    after.dirtyFrames config + before.dirt pfn.toNat =
      before.dirtyFrames config + if write then 1 else 0 := by
  have member := Finset.mem_range.mpr fault.inRange
  unfold Os.dirtyFrames
  rw [fault.dirt owned processes absent, Finset.sum_update_of_mem member,
    ← Finset.add_sum_erase _ _ member, Finset.sdiff_singleton_eq_erase]
  omega

end Fault

/-! ## The route of a translation -/

/-- What a translation does on each route. -/
inductive Routed (config : Config) (before : State) (current : Nat) (vpn : Vpn) (write : Bool)
    (looked : State) : Route → Prop
  | tlb {pte : Pte} :
      before.pte current vpn = some pte → pte.valid = true → looked.toOs = before.toOs →
      looked.countTlbhits = before.countTlbhits + 1 →
      Routed config before current vpn write looked .tlb
  | table {pte : Pte} :
      before.pte current vpn = some pte → pte.valid = true → looked.toOs = before.toOs →
      looked.countTlbhits = before.countTlbhits →
      Routed config before current vpn write looked .table
  | fault {pfn : Pfn} {swept vacated : Os} :
      (∀ pte, before.pte current vpn = some pte → pte.valid = false) →
      Faulted config { before.toOs with countPagefaults := before.countPagefaults + 1 } current vpn
        write pfn swept vacated looked.toOs →
      looked.countTlbhits = before.countTlbhits →
      Routed config before current vpn write looked .fault

section Routes

variable {config : Config} {before after looked : State} {current : Nat} {vpn : Vpn} {write : Bool}
  {pfn : Pfn}

@[simp] theorem tlbSweep_countTlbhits (state : State) (entry : Tlbe) (indices : List Nat) :
    (tlbSweep state entry indices).countTlbhits = state.countTlbhits := by
  induction indices generalizing state with
  | nil => rfl
  | cons i rest ih =>
      unfold tlbSweep
      split
      · rw [ih]
        rfl
      · rfl

private theorem tlbInstall_countTlbhits (config : Config) (state : State) (vpn : Vpn) (pfn : Pfn)
    (write : Bool) : (tlbInstall config state vpn pfn write).countTlbhits = state.countTlbhits := by
  unfold tlbInstall
  split
  · rfl
  · simp

private theorem pagetableLookup_countTlbhits
    (lookup : pagetableLookup config before vpn write = some (looked, pfn)) :
    looked.countTlbhits = before.countTlbhits := by
  obtain ⟨table, -, lookup⟩ := Option.bind_eq_some_iff.mp lookup
  split at lookup
  case isTrue =>
    obtain ⟨rfl, -⟩ := Prod.mk.inj (Option.some.inj lookup)
    rfl
  case isFalse =>
    obtain ⟨-, swept, evicted, installed, -, -, evict, -, rfl⟩ :=
      pagefaultHandler_eq_some.mp lookup
    rcases evictVictim_cases evict with ⟨rfl, -⟩ | ⟨pcb, table, -, -, -, rfl⟩ <;> rfl

/-- The route of a translation by the running process says what it does. -/
theorem Invariant.routed (invariant : Invariant config before)
    (running : before.current = some current)
    (lookup : tlbLookup config before vpn write = some (looked, pfn)) :
    Routed config before current vpn write looked (route config before vpn) := by
  obtain ⟨table, register, pagetable⟩ := invariant.processes.register running
  have entry : before.pte current vpn = some (before.tables table vpn) :=
    Os.pte_of_forked pagetable vpn
  unfold route
  unfold tlbLookup at lookup
  split at lookup
  case h_1 i found =>
    obtain ⟨inside, hit⟩ := tlbFind_eq_some found
    have hit : (before.tlb i).valid = true ∧ (before.tlb i).vpn = vpn := by simpa using hit
    obtain ⟨designated, register', valid, -⟩ := invariant.coherent.translates i inside hit.1
    obtain rfl := Option.some.inj (register.symm.trans register')
    obtain ⟨rfl, -⟩ := Prod.mk.inj (Option.some.inj lookup)
    rw [found, Option.isSome_some, if_pos rfl]
    exact .tlb entry (hit.2 ▸ valid) rfl rfl
  case h_2 missed =>
    obtain ⟨⟨tabled, frame⟩, looks, installs⟩ := Option.bind_eq_some_iff.mp lookup
    obtain ⟨rfl, rfl⟩ := Prod.mk.inj (Option.some.inj installs)
    have hits : (tlbInstall config tabled vpn frame write).countTlbhits = before.countTlbhits := by
      rw [tlbInstall_countTlbhits, pagetableLookup_countTlbhits looks]
    have translated := invariant.translated running looks
    rw [missed, Option.isSome_none, if_neg Bool.false_ne_true, register, Option.any_some]
    generalize os : tabled.toOs = final at translated
    rw [← tlbInstall_toOs write] at os
    cases translated with
    | resident found valid =>
        obtain rfl := Option.some.inj (entry.symm.trans found)
        rw [if_pos valid]
        exact .table entry valid os hits
    | faulted absent fault =>
        rw [if_neg (Bool.not_eq_true _ ▸ absent _ entry)]
        exact .fault absent (os ▸ fault) hits

private theorem Routed.counters {route : Route}
    (routed : Routed config before current vpn write looked route) :
    looked.countReads = before.countReads ∧ looked.countWrites = before.countWrites ∧
      looked.countTlbhits = before.countTlbhits + (if route = .tlb then 1 else 0) ∧
      looked.countPagefaults = before.countPagefaults + if route = .fault then 1 else 0 := by
  cases routed with
  | tlb _ _ same hit => exact ⟨by rw [same], by rw [same], hit, by simp [same]⟩
  | table _ _ same miss => exact ⟨by rw [same], by rw [same], by simp [miss], by simp [same]⟩
  | fault _ fault miss =>
      have counters := fault.counters
      exact ⟨counters.reads, counters.writes, by simp [miss], by simp [counters.faults]⟩

/-- What a translation writes to disk, or may still write, is two disk accesses for each page that
a store brings in. -/
theorem Routed.traffic {route : Route}
    (routed : Routed config before current vpn write looked route)
    (invariant : Invariant config before) {count : Nat}
    (counted : before.countDiskaccesses = .ofNat count) :
    ∃ total, looked.countDiskaccesses = .ofNat total ∧
      total + looked.swapfile.length + 2 * looked.dirtyFrames config =
        count + before.swapfile.length + 2 * before.dirtyFrames config +
          2 * if write && decide (route = .fault) then 1 else 0 := by
  cases routed with
  | tlb _ _ same => exact ⟨count, by rw [same, counted], by simp [same]⟩
  | table _ _ same => exact ⟨count, by rw [same, counted], by simp [same]⟩
  | @fault pfn _ _ absent fault =>
      obtain ⟨total, totalCounted, traffic⟩ := fault.traffic.counted count counted
      have moved : total + looked.swapfile.length =
          count + before.swapfile.length + 2 * before.dirt pfn.toNat := traffic
      have dirtied : looked.dirtyFrames config + before.dirt pfn.toNat =
          before.dirtyFrames config + if write then 1 else 0 :=
        fault.dirtyFrames invariant.counted.owned invariant.counted.processes absent
      refine ⟨total, totalCounted, ?_⟩
      simp only [decide_true, Bool.and_true]
      omega

theorem Routed.resident {route : Route}
    (routed : Routed config before current vpn write looked route)
    (invariant : Invariant config before) (found : route ≠ .fault) :
    ∃ frame, before.rlt frame = { pcb := some current, vpn } := by
  cases routed with
  | tlb entry valid => exact ⟨_, (invariant.owned.resident entry valid).2.2⟩
  | table entry valid => exact ⟨_, (invariant.owned.resident entry valid).2.2⟩
  | fault => exact absurd rfl found

private theorem Routed.same {route : Route}
    (routed : Routed config before current vpn write looked route)
    (found : route ≠ .fault) : looked.toOs = before.toOs := by
  cases routed with
  | tlb _ _ same => exact same
  | table _ _ same => exact same
  | fault => exact absurd rfl found

private theorem Routed.faulted (routed : Routed config before current vpn write looked .fault) :
    (∀ pte, before.pte current vpn = some pte → pte.valid = false) ∧ ∃ pfn swept vacated,
      Faulted config { before.toOs with countPagefaults := before.countPagefaults + 1 } current vpn
        write pfn swept vacated looked.toOs := by
  cases routed with
  | fault absent fault => exact ⟨absent, _, _, _, fault⟩

/-- A translation puts at most its own page into a frame. -/
theorem Routed.rlt {route : Route} (routed : Routed config before current vpn write looked route)
    (frame : Nat) :
    looked.rlt frame = before.rlt frame ∨ looked.rlt frame = { pcb := some current, vpn } := by
  cases routed with
  | tlb _ _ same => exact .inl (by rw [same])
  | table _ _ same => exact .inl (by rw [same])
  | @fault pfn _ _ _ fault =>
      rw [fault.rlt]
      by_cases here : frame = pfn.toNat
      · exact .inr (by rw [here, Function.update_self])
      · exact .inl (Function.update_of_ne here ..)

end Routes

/-! ## One step -/

/-- Loads and stores were counted, and nothing else that matters to the statistics happened. -/
structure Recorded (loads stores : UInt64) (before after : Os) : Prop where
  /-- Loads. -/
  reads : after.countReads = before.countReads + loads
  /-- Stores. -/
  writes : after.countWrites = before.countWrites + stores
  /-- Page faults. -/
  faults : after.countPagefaults = before.countPagefaults
  /-- Disk accesses. -/
  disk : after.countDiskaccesses = before.countDiskaccesses
  /-- The swap list. -/
  swapfile : after.swapfile = before.swapfile
  /-- The reverse lookup table. -/
  rlt : after.rlt = before.rlt
  /-- Dirty frames. -/
  dirt : after.dirt = before.dirt

/-- The counters and the frames after the accesses of a log. -/
structure Counted (config : Config) (log : List Access) (hits : UInt64) (os : Os) : Prop where
  /-- Loads. -/
  reads : os.countReads = .ofNat (log.countP fun access => !access.write)
  /-- Stores. -/
  writes : os.countWrites = .ofNat (log.countP fun access => access.write)
  /-- TLB hits. -/
  hits : hits = .ofNat (log.countP fun access => access.route = .tlb)
  /-- Page faults. -/
  faults : os.countPagefaults = .ofNat (log.countP fun access => access.route = .fault)
  /-- A page that a store brings in is dirty, saved or restored. -/
  disk : ∃ count, os.countDiskaccesses = .ofNat count ∧
    count + os.swapfile.length + 2 * os.dirtyFrames config =
      2 * log.countP fun access => access.write && access.route = .fault
  /-- Pages in frames have been accessed. -/
  seen : ∀ {frame pcb}, (os.rlt frame).pcb = some pcb →
    (pcb, (os.rlt frame).vpn) ∈ log.map Access.key
  /-- The first access of a page is a page fault. -/
  distinct : (log.map Access.key).toFinset.card ≤ log.countP fun access => access.route = .fault

section Steps

variable {config : Config} {log : List Access} {hits : UInt64} {before after looked : Os}

private theorem ofNat_countP_snoc (log : List Access) (access : Access) (kind : Access → Bool) :
    UInt64.ofNat ((log ++ [access]).countP kind) =
      .ofNat (log.countP kind) + if kind access then 1 else 0 := by
  rw [List.countP_append, List.countP_singleton, UInt64.ofNat_add]
  split <;> rfl

private theorem Counted.of_recorded (counted : Counted config log hits before)
    (recorded : Recorded 0 0 before after) : Counted config log hits after where
  reads := by rw [recorded.reads, UInt64.add_zero, counted.reads]
  writes := by rw [recorded.writes, UInt64.add_zero, counted.writes]
  hits := counted.hits
  faults := recorded.faults.trans counted.faults
  disk := by
    rw [recorded.disk, recorded.swapfile, Os.dirtyFrames, recorded.dirt]
    exact counted.disk
  seen := by
    rw [recorded.rlt]
    exact counted.seen
  distinct := counted.distinct

/-- A page that is in a frame has been accessed. -/
theorem Counted.mem_of_resident (counted : Counted config log hits before) {access : Access}
    (resident : ∃ frame, before.rlt frame = { pcb := some access.process, vpn := access.page }) :
    access.key ∈ log.map Access.key := by
  obtain ⟨frame, held⟩ := resident
  have owner : (before.rlt frame).pcb = some access.process := by rw [held]
  have seen := counted.seen owner
  rwa [held] at seen

private theorem Counted.access {before looked : State} {access : Access}
    (counted : Counted config log before.countTlbhits before.toOs)
    (invariant : Invariant config before)
    (routed : Routed config before access.process access.page access.write looked access.route)
    (recorded : Recorded (if access.write then 0 else 1) (if access.write then 1 else 0)
      looked.toOs after) : Counted config (log ++ [access]) looked.countTlbhits after := by
  obtain ⟨reads, writes, hit, faults⟩ := routed.counters
  constructor
  case reads =>
    rw [recorded.reads, reads, counted.reads, ofNat_countP_snoc]
    cases access.write <;> rfl
  case writes => rw [recorded.writes, writes, counted.writes, ofNat_countP_snoc]
  case hits => simp only [hit, counted.hits, ofNat_countP_snoc, decide_eq_true_eq]
  case faults =>
    simp only [recorded.faults, faults, counted.faults, ofNat_countP_snoc, decide_eq_true_eq]
  case disk =>
    obtain ⟨count, diskCounted, equation⟩ := counted.disk
    obtain ⟨total, totalCounted, traffic⟩ := routed.traffic invariant diskCounted
    refine ⟨total, recorded.disk.trans totalCounted, ?_⟩
    rw [recorded.swapfile, Os.dirtyFrames, recorded.dirt, List.countP_append,
      List.countP_singleton, ← Os.dirtyFrames]
    omega
  case seen =>
    intro frame pcb owner
    rw [recorded.rlt] at owner ⊢
    rw [List.map_append, List.mem_append]
    rcases routed.rlt frame with kept | own
    · rw [kept] at owner ⊢
      exact .inl (counted.seen owner)
    · rw [own] at owner ⊢
      obtain rfl := Option.some.inj owner
      exact .inr (List.mem_singleton.mpr rfl)
  case distinct =>
    rw [List.map_append, List.toFinset_append, List.countP_append, List.countP_singleton]
    have before := counted.distinct
    by_cases found : access.route = .fault
    · have union := Finset.card_union_le (log.map Access.key).toFinset [access.key].toFinset
      have single := List.toFinset_card_le [access.key]
      simp only [found, decide_true, if_true, List.length_singleton] at single ⊢
      exact union.trans (Nat.add_le_add before single)
    · have member := counted.mem_of_resident (routed.resident invariant found)
      have inside : [access.key].toFinset ⊆ (log.map Access.key).toFinset := by
        simpa using member
      exact (Finset.card_le_card (Finset.union_subset (Finset.Subset.refl _) inside)).trans
        (before.trans (Nat.le_add_right ..))

private theorem procFork_recorded {before after : State} {pid : UInt32}
    (consistent : Consistent config before) (unused : before.Unused pid)
    (step : procFork config before pid = some after) :
    Recorded 0 0 before.toOs after.toOs ∧ after.countTlbhits = before.countTlbhits := by
  have entries := Invariant.procFork_pte consistent.invariant.processes.allocated step
  unfold procFork at step
  split at step
  case isFalse => cases step
  case isTrue =>
    obtain rfl := Option.some.inj step
    refine ⟨⟨by simp, by simp, rfl, rfl, rfl, rfl, funext fun frame => ?_⟩, rfl⟩
    cases owner : (before.rlt frame).pcb with
    | none => simp [Os.dirt, owner]
    | some pcb =>
        have other : pcb ≠ pid.toNat := fun same => unused.unowned frame (by rw [owner, same])
        simp only [Os.dirt, owner, Option.bind_some, entries, if_neg other]

private theorem procSwitch_recorded {before after : State} {pid : UInt32}
    (step : procSwitch config before pid = some after) :
    Recorded 0 0 before.toOs after.toOs ∧ after.countTlbhits = before.countTlbhits := by
  unfold procSwitch at step
  split at step
  case isFalse => cases step
  case isTrue =>
    obtain ⟨table, -, step⟩ := Option.bind_eq_some_iff.mp step
    obtain rfl := Option.some.inj step
    exact ⟨⟨by simp [tlbClearall], by simp [tlbClearall], rfl, rfl, rfl, rfl, rfl⟩, rfl⟩

/-- A step counts nothing, or it translates the page of its access and counts it. -/
theorem RecordedStep.cases {before after : State} {label : Action × Option Access}
    (step : RecordedStep config before label after) (consistent : Consistent config before)
    (accepted : config.Accepted) :
    (label.2 = none ∧ Recorded 0 0 before.toOs after.toOs ∧
      after.countTlbhits = before.countTlbhits) ∨
    ∃ access looked, label.2 = some access ∧
      Routed config before access.process access.page access.write looked access.route ∧
      Recorded (if access.write then 0 else 1) (if access.write then 1 else 0) looked.toOs
        after.toOs ∧
      after.countTlbhits = looked.countTlbhits := by
  obtain ⟨action, access⟩ := label
  obtain ⟨legal, rfl⟩ :
    LegalStep config before action after ∧ access = action.access config before := step
  obtain ⟨⟨possible, output, performs⟩, unused⟩ := legal.clean consistent
  cases action with
  | fork pid =>
      obtain ⟨forked, fork, equal⟩ := Option.map_eq_some_iff.mp performs
      obtain ⟨rfl, -⟩ := Prod.mk.inj equal
      exact .inl ⟨rfl, procFork_recorded consistent (unused pid rfl) fork⟩
  | switch pid =>
      obtain ⟨switched, switch, equal⟩ := Option.map_eq_some_iff.mp performs
      obtain ⟨rfl, -⟩ := Prod.mk.inj equal
      exact .inl ⟨rfl, procSwitch_recorded switch⟩
  | load va =>
      obtain ⟨current, running⟩ := Option.ne_none_iff_exists'.mp possible
      obtain ⟨looked, pfn, -, lookup, -⟩ := consistent.lookup accepted running va false
      obtain ⟨⟨loaded, data⟩, load, equal⟩ := Option.map_eq_some_iff.mp performs
      obtain ⟨rfl, -⟩ := Prod.mk.inj equal
      simp only [memLoad, lookup, bind, Option.bind_some, Option.some.injEq, Prod.mk.injEq] at load
      obtain ⟨rfl, -⟩ := load
      refine .inr ⟨_, looked, rfl, ?_, ⟨rfl, by simp, rfl, rfl, rfl, rfl, rfl⟩, rfl⟩
      rw [running]
      exact consistent.invariant.routed running lookup
  | store va data =>
      obtain ⟨current, running⟩ := Option.ne_none_iff_exists'.mp possible
      obtain ⟨looked, pfn, -, lookup, -⟩ := consistent.lookup accepted running va true
      obtain ⟨stored, store, equal⟩ := Option.map_eq_some_iff.mp performs
      obtain ⟨rfl, -⟩ := Prod.mk.inj equal
      simp only [memStore, lookup, bind, Option.bind_some, Option.some.injEq] at store
      subst store
      refine .inr ⟨_, looked, rfl, ?_, ⟨by simp, rfl, rfl, rfl, rfl, rfl, rfl⟩, rfl⟩
      rw [running]
      exact consistent.invariant.routed running lookup

private theorem RecordedStep.counted {before after : State} {label : Action × Option Access}
    (step : RecordedStep config before label after) (consistent : Consistent config before)
    (accepted : config.Accepted)
    (counted : Counted config log before.countTlbhits before.toOs) :
    Counted config (log ++ label.2.toList) after.countTlbhits after.toOs := by
  rcases step.cases consistent accepted with
    ⟨silent, recorded, hits⟩ | ⟨access, looked, accesses, routed, recorded, hits⟩
  · rw [silent, hits, Option.toList_none, List.append_nil]
    exact counted.of_recorded recorded
  · rw [accesses, hits]
    exact counted.access consistent.invariant routed recorded

end Steps

/-! ## Runs -/

section Runs

variable {config : Config} {labels : List (Action × Option Access)} {state : State}

theorem consistent_of_recorded (accepted : config.Accepted)
    (trace : Trace (RecordedStep config) simInit labels state) : Consistent config state :=
  trace.invariant (.simInit accepted) fun consistent step =>
    ((step.1.clean consistent).effect consistent accepted).1

private theorem counted_simInit (config : Config) :
    Counted config [] simInit.countTlbhits simInit.toOs where
  reads := rfl
  writes := rfl
  hits := rfl
  faults := rfl
  disk := ⟨0, rfl, by
    have clean : simInit.dirt = fun _ => 0 := funext fun _ => Os.dirt_of_free rfl
    rw [Os.dirtyFrames, clean]
    simp [simInit]⟩
  seen := by simp [simInit]
  distinct := by simp

theorem accessesOf_snoc (labels : List (Action × Option Access)) (label : Action × Option Access) :
    accessesOf (labels ++ [label]) = accessesOf labels ++ label.2.toList := by
  rw [accessesOf, List.filterMap_append]
  cases same : label.2 <;> simp [accessesOf, same]

/-- In every run the counters are what the log says. -/
theorem counted_of_recorded (accepted : config.Accepted)
    (trace : Trace (RecordedStep config) simInit labels state) :
    Counted config (accessesOf labels) state.countTlbhits state.toOs := by
  induction trace with
  | nil => exact counted_simInit config
  | @snoc labels label before after earlier step ih =>
      have consistent := consistent_of_recorded accepted earlier
      rw [accessesOf_snoc]
      exact step.counted consistent accepted ih

private theorem time_eq (log : List Access) :
    (log.map fun access => access.route.time).sum +
        100 * log.countP (fun access => access.route = .tlb) =
      200 * log.length + 10000000 * log.countP fun access => access.route = .fault := by
  induction log with
  | nil => rfl
  | cons access log ih =>
      simp only [List.map_cons, List.sum_cons, List.countP_cons, List.length_cons]
      have last : access.route.time + 100 * (if decide (access.route = .tlb) then 1 else 0) =
          200 + 10000000 * if decide (access.route = .fault) then 1 else 0 := by
        cases access.route <;> rfl
      omega

private theorem ofNat_toInt64 (count : Nat) :
    Int64.ofNat count = (UInt64.ofNat count).toInt64 := rfl

private theorem countP_write (log : List Access) :
    (log.countP fun access => access.write) + (log.countP fun access => !access.write) =
      log.length := by
  rw [log.length_eq_countP_add_countP fun access => access.write]
  simp only [Bool.not_eq_true, Bool.decide_eq_false]

end Runs

/-- In every run the counters of loads, stores, TLB hits and page faults are the numbers of such
accesses, and `compute_emat` divides the time that all accesses take by their number. The page
faults are at least as many as the pages that were accessed, and the disk accesses are two for each
page that a store brought in, but for the pages that are still dirty or saved. -/
theorem statistics_exact {config : Config} (accepted : config.Accepted)
    {labels : List (Action × Option Access)} {state : State}
    (trace : Trace (RecordedStep config) simInit labels state)
    (few : (accessesOf labels).length * 10000200 < 2 ^ 63) :
    state.countReads.toNat = ((accessesOf labels).countP fun access => !access.write) ∧
    state.countWrites.toNat = ((accessesOf labels).countP fun access => access.write) ∧
    state.countTlbhits.toNat = ((accessesOf labels).countP fun access => access.route = .tlb) ∧
    state.countPagefaults.toNat = ((accessesOf labels).countP fun access => access.route = .fault) ∧
    ((accessesOf labels).map Access.key).toFinset.card ≤ state.countPagefaults.toNat ∧
    state.countDiskaccesses.toNat + state.swapfile.length + 2 * state.dirtyFrames config =
      2 * ((accessesOf labels).countP fun access => access.write && access.route = .fault) ∧
    (totalAccesses state).toNat = (accessesOf labels).length ∧
    (timee state).toInt = ((accessesOf labels).map fun access => access.route.time).sum := by
  have counted := counted_of_recorded accepted trace
  generalize accessesOf labels = log at *
  have small (kind : Access → Bool) :
      (UInt64.ofNat (log.countP kind)).toNat = log.countP kind := by
    have bound : log.countP kind ≤ log.length := List.countP_le_length
    rw [UInt64.toNat_ofNat', Nat.mod_eq_of_lt (by omega)]
  have written := countP_write log
  have total : totalAccesses state = .ofNat log.length := by
    rw [totalAccesses, counted.writes, counted.reads, ← UInt64.ofNat_add, written]
  obtain ⟨disk, diskCounted, equation⟩ := counted.disk
  have stored : log.countP (fun access => access.write && access.route = .fault) ≤ log.length :=
    List.countP_le_length
  refine ⟨by rw [counted.reads, small], by rw [counted.writes, small], by rw [counted.hits, small],
    by rw [counted.faults, small], ?_, ?_, ?_, ?_⟩
  · rw [counted.faults, small]
    exact counted.distinct
  · rw [diskCounted, UInt64.toNat_ofNat', Nat.mod_eq_of_lt (by omega), equation]
  · rw [total, UInt64.toNat_ofNat', Nat.mod_eq_of_lt (by omega)]
  · have time := time_eq log
    have hit : log.countP (fun access => access.route = .tlb) ≤ log.length :=
      List.countP_le_length
    have fault : log.countP (fun access => access.route = .fault) ≤ log.length :=
      List.countP_le_length
    have sum : timee state = .ofNat (log.map fun access => access.route.time).sum := by
      have split : (log.map fun access => access.route.time).sum =
          log.countP (fun access => access.route = .fault) * 10000000 + log.length * 100 +
            (log.length - log.countP fun access => access.route = .tlb) * 100 := by omega
      rw [split, ofNat_toInt64, timee, total, counted.hits, counted.faults,
        ← UInt64.ofNat_sub hit]
      simp only [UInt64.ofNat_add, UInt64.ofNat_mul]
      rfl
    rw [sum, Int64.toInt_ofNat_of_lt (by omega)]

/-- One frame: a page is stored to, hit in the TLB, replaced and restored. -/
theorem statistics_exact_oneFrame : ∃ state,
    Trace (RecordedStep oneFrame) simInit
      [(.fork 0, none), (.switch 0, none), (.store 0 7, some ⟨true, 0, 0, .fault⟩),
        (.load 1, some ⟨false, 0, 0, .tlb⟩), (.load 2, some ⟨false, 0, 1, .fault⟩),
        (.load 0, some ⟨false, 0, 0, .fault⟩)] state ∧
      state.countReads.toNat = 3 ∧ state.countWrites.toNat = 1 ∧ state.countTlbhits.toNat = 1 ∧
      state.countPagefaults.toNat = 3 ∧ (timee state).toInt = 30000700 := by
  obtain ⟨state, folds⟩ := Option.isSome_iff_exists.mp (by decide +kernel :
    (List.foldlM (recordedAct oneFrame) simInit
      [(.fork 0, none), (.switch 0, none), (.store 0 7, some ⟨true, 0, 0, .fault⟩),
        (.load 1, some ⟨false, 0, 0, .tlb⟩), (.load 2, some ⟨false, 0, 1, .fault⟩),
        (.load 0, some ⟨false, 0, 0, .fault⟩)]).isSome = true)
  have accepted : oneFrame.Accepted := ⟨[.memSize 1], some "references", rfl⟩
  have trace := recordedTrace_of_foldlM folds
  obtain ⟨reads, writes, hits, faults, -, -, -, time⟩ :=
    statistics_exact accepted trace (by decide)
  exact ⟨state, trace, reads, writes, hits, faults, time⟩

/-! ## Memories that are large enough -/

/-- Every page that was accessed is in a frame, and the disk was not used. -/
structure Fitting (log : List Access) (os : Os) : Prop where
  /-- Accessed pages are in frames. -/
  loaded : ∀ key ∈ log.map Access.key, ∃ frame, os.rlt frame = { pcb := some key.1, vpn := key.2 }
  /-- There was one page fault for each page. -/
  faults : (log.countP fun access => access.route = .fault) = (log.map Access.key).toFinset.card
  /-- The disk was not used. -/
  disk : os.countDiskaccesses = 0
  /-- No page is saved. -/
  swapfile : os.swapfile = []

section Fitting

variable {config : Config} {log : List Access} {before looked : State} {current : Nat} {vpn : Vpn}
  {write : Bool}

theorem Owned.entry {os : Os} (owned : Owned config noHole os) {frame pcb : Nat} {page : Vpn}
    (held : os.rlt frame = { pcb := some pcb, vpn := page }) :
    ∃ pte, os.pte pcb page = some pte ∧ pte.valid = true ∧ pte.pfn.toNat = frame := by
  have owner : (os.rlt frame).pcb = some pcb := by rw [held]
  obtain ⟨pte, entry, valid, same⟩ := owned.owner id owner
  rw [held] at entry
  exact ⟨pte, entry, valid, same⟩

private theorem Owned.frame_injective {os : Os} (owned : Owned config noHole os)
    {first second pcb : Nat} {page : Vpn} (left : os.rlt first = { pcb := some pcb, vpn := page })
    (right : os.rlt second = { pcb := some pcb, vpn := page }) : first = second := by
  obtain ⟨pte, entry, -, frame⟩ := owned.entry left
  obtain ⟨pte', entry', -, frame'⟩ := owned.entry right
  obtain rfl := Option.some.inj (entry.symm.trans entry')
  exact frame.symm.trans frame'

/-- As long as fewer pages than frames were accessed, some frame is free. -/
theorem Counted.exists_free {hits : UInt64} {os : Os} (counted : Counted config log hits os)
    (owned : Owned config noHole os) {limit : Nat}
    (few : (log.map Access.key).toFinset.card < limit) :
    ∃ frame < limit, (os.rlt frame).pcb = none := by
  by_contra full
  have occupied : ∀ frame < limit, ∃ pcb, (os.rlt frame).pcb = some pcb := fun frame inside =>
    Option.ne_none_iff_exists'.mp fun free => full ⟨frame, inside, free⟩
  have held : ∀ frame < limit,
      os.rlt frame = { pcb := some ((os.rlt frame).pcb.getD 0), vpn := (os.rlt frame).vpn } := by
    intro frame inside
    obtain ⟨pcb, owner⟩ := occupied frame inside
    cases entry : os.rlt frame
    rw [entry] at owner
    simp_all
  have bound : (Finset.range limit).card ≤ (log.map Access.key).toFinset.card := by
    refine Finset.card_le_card_of_injOn
      (fun frame => ((os.rlt frame).pcb.getD 0, (os.rlt frame).vpn)) ?_ ?_
    · intro frame inside
      obtain ⟨pcb, owner⟩ := occupied frame (Finset.mem_range.mp inside)
      simpa [owner] using counted.seen owner
    · intro first inside second inside' same
      obtain ⟨samePcb, sameVpn⟩ := Prod.mk.inj same
      have right := held second (Finset.mem_range.mp inside')
      rw [← samePcb, ← sameVpn] at right
      exact owned.frame_injective (held first (Finset.mem_range.mp inside)) right
  rw [Finset.card_range] at bound
  omega

private theorem Faulted.unsaved {os swept vacated after : Os} {pfn : Pfn}
    (fault : Faulted config os current vpn write pfn swept vacated after)
    (vacant : (os.rlt pfn.toNat).pcb = none) (empty : os.swapfile = []) :
    after.countDiskaccesses = os.countDiskaccesses ∧ after.swapfile = [] := by
  obtain ⟨table, -, rfl⟩ := fault.filled
  have same := fault.only.rest
  cases fault.vacates with
  | evicted owner =>
      rw [fault.only.rlt, vacant] at owner
      cases owner
  | free =>
      have sweptEmpty : swept.swapfile = [] := fault.only.swapfile.trans empty
      have filled : pageFromDisk config (assignFrame swept current table pfn vpn write) pfn vpn
          (os.procList current).pid =
          (assignFrame swept current table pfn vpn write).writePage config pfn fun _ => 0 := by
        simp [pageFromDisk, assignFrame, Os.modifyPte, sweptEmpty]
      rw [filled]
      exact ⟨by rw [same]; rfl, sweptEmpty⟩

/-- A page fault with fewer pages than frames takes a free frame. -/
theorem Counted.takes_free (counted : Counted config log before.countTlbhits before.toOs)
    (owned : Owned config noHole before.toOs)
    (few : (log.map Access.key).toFinset.card < min config.numFrames 65536) {pfn : Pfn}
    {swept vacated after : Os}
    (fault : Faulted config { before.toOs with countPagefaults := before.countPagefaults + 1 }
      current vpn write pfn swept vacated after) : (before.rlt pfn.toNat).pcb = none := by
  obtain ⟨low, small, lowVacant⟩ := counted.exists_free owned few
  obtain ⟨frame, inRange, vacant, occupied⟩ :=
    exists_first_free ⟨low, (Nat.lt_min.mp small).1, lowVacant⟩
  have first : frame ≤ low := Nat.not_lt.mp fun earlier => occupied low earlier lowVacant
  have chosen := @getFreeFrame_of_free config
    { before with countPagefaults := before.countPagefaults + 1 } frame inRange vacant occupied
  obtain ⟨-, rfl⟩ := Prod.mk.inj (Option.some.inj (fault.free.symm.trans chosen))
  rwa [UInt16.toNat_ofNat', Nat.mod_eq_of_lt (first.trans_lt (Nat.lt_min.mp small).2)]

/-- An access keeps the disk unused as long as its page is one of few enough. -/
theorem Fitting.access {access : Access} {after : Os} {loads stores : UInt64}
    (fitting : Fitting log before.toOs)
    (counted : Counted config log before.countTlbhits before.toOs)
    (invariant : Invariant config before)
    (routed : Routed config before access.process access.page access.write looked access.route)
    (recorded : Recorded loads stores looked.toOs after)
    (few : ((log ++ [access]).map Access.key).toFinset.card ≤ min config.numFrames 65536) :
    Fitting (log ++ [access]) after := by
  suffices looks : Fitting (log ++ [access]) looked.toOs from
    ⟨recorded.rlt ▸ looks.loaded, looks.faults, recorded.disk.trans looks.disk,
      recorded.swapfile.trans looks.swapfile⟩
  have members : ∀ key, key ∈ (log ++ [access]).map Access.key ↔
      key ∈ log.map Access.key ∨ key = access.key := fun key => by
    rw [List.map_append, List.mem_append, List.map_singleton, List.mem_singleton]
  have keys : ((log ++ [access]).map Access.key).toFinset =
      insert access.key (log.map Access.key).toFinset := by
    ext key
    rw [List.mem_toFinset, members, Finset.mem_insert, List.mem_toFinset, or_comm]
  have faults : ((log ++ [access]).countP fun access => access.route = .fault) =
      (log.countP fun access => access.route = .fault) +
        if access.route = .fault then 1 else 0 := by
    rw [List.countP_append, List.countP_singleton]
    simp only [decide_eq_true_eq]
  by_cases found : access.route = .fault
  · rw [found] at routed
    obtain ⟨absent, pfn, swept, vacated, fault⟩ := routed.faulted
    have new : access.key ∉ log.map Access.key := by
      intro old
      obtain ⟨frame, held⟩ := fitting.loaded _ old
      obtain ⟨pte, entry, valid, -⟩ := invariant.owned.entry held
      rw [absent pte entry] at valid
      cases valid
    have grows : ((log ++ [access]).map Access.key).toFinset.card =
        (log.map Access.key).toFinset.card + 1 := by
      rw [keys, Finset.card_insert_of_notMem fun old => new (List.mem_toFinset.mp old)]
    have vacant := counted.takes_free invariant.owned (by omega) fault
    obtain ⟨disk, swapfile⟩ := fault.unsaved vacant fitting.swapfile
    refine ⟨fun key inside => ?_, ?_, disk.trans fitting.disk, swapfile⟩
    · rw [fault.rlt]
      rcases (members key).mp inside with old | rfl
      · obtain ⟨frame, held⟩ := fitting.loaded key old
        have elsewhere : frame ≠ pfn.toNat := by
          rintro rfl
          rw [held] at vacant
          cases vacant
        exact ⟨frame, by rw [Function.update_of_ne elsewhere, held]⟩
      · exact ⟨pfn.toNat, by rw [Function.update_self]; rfl⟩
    · rw [grows, faults, if_pos found, fitting.faults]
  · have old := counted.mem_of_resident (routed.resident invariant found)
    rw [routed.same found]
    refine ⟨fun key inside => fitting.loaded key ?_, ?_, fitting.disk, fitting.swapfile⟩
    · rcases (members key).mp inside with kept | rfl
      · exact kept
      · exact old
    · rw [keys, faults, if_neg found, fitting.faults, Nat.add_zero,
        Finset.insert_eq_of_mem (List.mem_toFinset.mpr old)]

private theorem RecordedStep.fitting {before after : State} {label : Action × Option Access}
    (step : RecordedStep config before label after) (consistent : Consistent config before)
    (accepted : config.Accepted) (counted : Counted config log before.countTlbhits before.toOs)
    (few : ((log ++ label.2.toList).map Access.key).toFinset.card ≤ min config.numFrames 65536)
    (fitting : Fitting log before.toOs) : Fitting (log ++ label.2.toList) after.toOs := by
  rcases step.cases consistent accepted with
    ⟨silent, recorded, -⟩ | ⟨access, looked, accesses, routed, recorded, -⟩
  · rw [silent, Option.toList_none, List.append_nil]
    exact ⟨recorded.rlt ▸ fitting.loaded, fitting.faults, recorded.disk.trans fitting.disk,
      recorded.swapfile.trans fitting.swapfile⟩
  · rw [accesses] at few ⊢
    exact fitting.access counted consistent.invariant routed recorded few

private theorem fitting_of_recorded {labels : List (Action × Option Access)} {state : State}
    (accepted : config.Accepted) (trace : Trace (RecordedStep config) simInit labels state)
    (few : ((accessesOf labels).map Access.key).toFinset.card ≤ min config.numFrames 65536) :
    Fitting (accessesOf labels) state.toOs := by
  induction trace with
  | nil => exact ⟨by simp [accessesOf], rfl, rfl, rfl⟩
  | @snoc labels label before after earlier step ih =>
      have consistent := consistent_of_recorded accepted earlier
      have counted := counted_of_recorded accepted earlier
      rw [accessesOf_snoc] at few ⊢
      have fewer : ((accessesOf labels).map Access.key).toFinset.card ≤
          min config.numFrames 65536 := by
        refine (Finset.card_le_card ?_).trans few
        rw [List.map_append, List.toFinset_append]
        exact Finset.subset_union_left
      exact step.fitting consistent accepted counted few (ih fewer)

end Fitting

/-- If the pages that are accessed are not more than the frames, nor than the numbers that a frame
can have, there is exactly one page fault for each of them, no page is saved and the disk is not
used. -/
theorem faults_compulsory {config : Config} (accepted : config.Accepted)
    {labels : List (Action × Option Access)} {state : State}
    (trace : Trace (RecordedStep config) simInit labels state)
    (few : ((accessesOf labels).map Access.key).toFinset.card ≤ min config.numFrames 65536) :
    state.countPagefaults = .ofNat ((accessesOf labels).map Access.key).toFinset.card ∧
      state.countDiskaccesses = 0 ∧ state.swapfile = [] ∧
      ∀ access ∈ accessesOf labels, ∃ pte,
        state.pte access.process access.page = some pte ∧ pte.valid = true := by
  have fitting := fitting_of_recorded accepted trace few
  have counted := counted_of_recorded accepted trace
  refine ⟨by rw [counted.faults, fitting.faults], fitting.disk, fitting.swapfile,
    fun access member => ?_⟩
  obtain ⟨frame, held⟩ := fitting.loaded _ (List.mem_map_of_mem member)
  obtain ⟨pte, entry, valid, -⟩ :=
    (consistent_of_recorded accepted trace).invariant.owned.entry held
  exact ⟨pte, entry, valid⟩

/-- Two processes access three pages under the default settings. -/
theorem faults_compulsory_defaults : ∃ state,
    Trace (RecordedStep .defaults) simInit
      [(.fork 0, none), (.fork 1, none), (.switch 0, none), (.store 0 7, some ⟨true, 0, 0, .fault⟩),
        (.load 2, some ⟨false, 0, 1, .fault⟩), (.switch 1, none),
        (.load 0, some ⟨false, 1, 0, .fault⟩), (.switch 0, none),
        (.load 1, some ⟨false, 0, 0, .table⟩)] state ∧
      state.countPagefaults = 3 ∧ state.countDiskaccesses = 0 ∧ state.swapfile = [] := by
  obtain ⟨state, folds⟩ := Option.isSome_iff_exists.mp (by decide +kernel :
    (List.foldlM (recordedAct .defaults) simInit
      [(.fork 0, none), (.fork 1, none), (.switch 0, none), (.store 0 7, some ⟨true, 0, 0, .fault⟩),
        (.load 2, some ⟨false, 0, 1, .fault⟩), (.switch 1, none),
        (.load 0, some ⟨false, 1, 0, .fault⟩), (.switch 0, none),
        (.load 1, some ⟨false, 0, 0, .table⟩)]).isSome = true)
  have accepted : Config.defaults.Accepted := ⟨[], some "references", rfl⟩
  have trace := recordedTrace_of_foldlM folds
  obtain ⟨faults, disk, swapfile, -⟩ := faults_compulsory accepted trace (by decide)
  exact ⟨state, trace, faults, disk, swapfile⟩

end CS2200.VirtualMemory
