import CS2200.VirtualMemory.Simulator

/-!
# What each simulator function can change

Inversion lemmas for the functions on the page-fault path. Everything proved about runs goes
through these, so that no later proof unfolds a function of the simulator twice.
-/

namespace CS2200.VirtualMemory

/-! ## Small facts about the state updates -/

namespace Os

@[simp] theorem modifyPte_same (os : Os) (table : Nat) (vpn : Vpn) (change : Pte → Pte) :
    (os.modifyPte table vpn change).tables table vpn = change (os.tables table vpn) := by
  simp [modifyPte]

theorem modifyPte_other (os : Os) {table other : Nat} {vpn otherVpn : Vpn} (change : Pte → Pte)
    (different : ¬(other = table ∧ otherVpn = vpn)) :
    (os.modifyPte table vpn change).tables other otherVpn = os.tables other otherVpn := by
  simp [modifyPte, different]

end Os

@[simp] theorem pageFromDisk_tables (config : Config) (os : Os) (pfn : Pfn) (vpn : Vpn)
    (pid : UInt32) : (pageFromDisk config os pfn vpn pid).tables = os.tables := by
  unfold pageFromDisk
  split <;> rfl

@[simp] theorem pageFromDisk_procList (config : Config) (os : Os) (pfn : Pfn) (vpn : Vpn)
    (pid : UInt32) : (pageFromDisk config os pfn vpn pid).procList = os.procList := by
  unfold pageFromDisk
  split <;> rfl

@[simp] theorem pageFromDisk_allocated (config : Config) (os : Os) (pfn : Pfn) (vpn : Vpn)
    (pid : UInt32) : (pageFromDisk config os pfn vpn pid).allocated = os.allocated := by
  unfold pageFromDisk
  split <;> rfl

@[simp] theorem pageFromDisk_current (config : Config) (os : Os) (pfn : Pfn) (vpn : Vpn)
    (pid : UInt32) : (pageFromDisk config os pfn vpn pid).current = os.current := by
  unfold pageFromDisk
  split <;> rfl

@[simp] theorem pageFromDisk_currentPagetable (config : Config) (os : Os) (pfn : Pfn) (vpn : Vpn)
    (pid : UInt32) :
    (pageFromDisk config os pfn vpn pid).currentPagetable = os.currentPagetable := by
  unfold pageFromDisk
  split <;> rfl

@[simp] theorem pageFromDisk_rlt (config : Config) (os : Os) (pfn : Pfn) (vpn : Vpn)
    (pid : UInt32) : (pageFromDisk config os pfn vpn pid).rlt = os.rlt := by
  unfold pageFromDisk
  split <;> rfl

/-! ## Frame replacement -/

/-- Only `used` bits of page table entries differ. -/
structure UsedOnly (before after : Os) : Prop where
  /-- Nothing outside the page tables differs. -/
  rest : after = { before with tables := after.tables }
  /-- Frame numbers agree. -/
  pfn : ∀ table vpn, (after.tables table vpn).pfn = (before.tables table vpn).pfn
  /-- Valid bits agree. -/
  valid : ∀ table vpn, (after.tables table vpn).valid = (before.tables table vpn).valid
  /-- Dirty bits agree. -/
  dirty : ∀ table vpn, (after.tables table vpn).dirty = (before.tables table vpn).dirty

namespace UsedOnly

theorem refl (os : Os) : UsedOnly os os :=
  ⟨rfl, fun _ _ => rfl, fun _ _ => rfl, fun _ _ => rfl⟩

private theorem trans {first second third : Os} (left : UsedOnly first second)
    (right : UsedOnly second third) : UsedOnly first third where
  rest := by
    rw [right.rest, left.rest]
  pfn table vpn := (right.pfn table vpn).trans (left.pfn table vpn)
  valid table vpn := (right.valid table vpn).trans (left.valid table vpn)
  dirty table vpn := (right.dirty table vpn).trans (left.dirty table vpn)

theorem clear (os : Os) (table : Nat) (vpn : Vpn) :
    UsedOnly os (os.modifyPte table vpn fun pte => { pte with used := false }) where
  rest := rfl
  pfn t v := by by_cases same : t = table ∧ v = vpn <;> simp [Os.modifyPte, same]
  valid t v := by by_cases same : t = table ∧ v = vpn <;> simp [Os.modifyPte, same]
  dirty t v := by by_cases same : t = table ∧ v = vpn <;> simp [Os.modifyPte, same]

variable {before after : Os}

theorem memory (only : UsedOnly before after) : after.memory = before.memory := by
  rw [only.rest]

theorem allocated (only : UsedOnly before after) : after.allocated = before.allocated := by
  rw [only.rest]

theorem procList (only : UsedOnly before after) : after.procList = before.procList := by
  rw [only.rest]

theorem current (only : UsedOnly before after) : after.current = before.current := by
  rw [only.rest]

theorem currentPagetable (only : UsedOnly before after) :
    after.currentPagetable = before.currentPagetable := by
  rw [only.rest]

theorem rlt (only : UsedOnly before after) : after.rlt = before.rlt := by
  rw [only.rest]

theorem swapfile (only : UsedOnly before after) : after.swapfile = before.swapfile := by
  rw [only.rest]

end UsedOnly

private theorem clockSweep_usedOnly {before after : Os} {frames : List Nat} {pfn : Pfn}
    (sweep : clockSweep before frames = some (after, pfn)) : UsedOnly before after := by
  induction frames generalizing before with
  | nil =>
      obtain ⟨rfl, -⟩ : before = after ∧ 0 = pfn := by simpa [clockSweep] using sweep
      exact .refl _
  | cons frame frames ih =>
      simp only [clockSweep, bind, Option.bind_eq_some_iff] at sweep
      obtain ⟨pcb, -, table, -, sweep⟩ := sweep
      split at sweep
      · exact (UsedOnly.clear ..).trans (ih sweep)
      · obtain ⟨rfl, -⟩ : before = after ∧ _ = pfn := by simpa using sweep
        exact .refl _

/-- The frame number that the sweep returns is that of a listed frame, or zero. -/
theorem clockSweep_pfn {before after : Os} {frames : List Nat} {pfn : Pfn}
    (sweep : clockSweep before frames = some (after, pfn)) :
    pfn = 0 ∨ ∃ frame ∈ frames, pfn = .ofNat frame := by
  induction frames generalizing before with
  | nil =>
      obtain ⟨-, rfl⟩ : before = after ∧ 0 = pfn := by simpa [clockSweep] using sweep
      exact .inl rfl
  | cons frame frames ih =>
      simp only [clockSweep, bind, Option.bind_eq_some_iff] at sweep
      obtain ⟨pcb, -, table, -, sweep⟩ := sweep
      split at sweep
      · rcases ih sweep with zero | ⟨found, member, equal⟩
        · exact .inl zero
        · exact .inr ⟨found, List.mem_cons_of_mem frame member, equal⟩
      · obtain ⟨-, rfl⟩ : before = after ∧ UInt16.ofNat frame = pfn := by simpa using sweep
        exact .inr ⟨frame, List.mem_cons_self, rfl⟩

theorem getFreeFrame_usedOnly {config : Config} {before after : Os} {pfn : Pfn}
    (found : getFreeFrame config before = some (after, pfn)) : UsedOnly before after := by
  unfold getFreeFrame at found
  split at found
  · obtain ⟨rfl, -⟩ : before = after ∧ _ = pfn := by simpa using found
    exact .refl _
  · exact clockSweep_usedOnly found

/-! ## Page faults -/

/-- The eviction of page `vpn` of process `pcb`, whose page table is `table`, as seen outside the
TLB. -/
def evictPage (config : Config) (os : Os) (pfn : Pfn) (pcb table : Nat) (vpn : Vpn) : Os :=
  (if (os.tables table vpn).dirty then pageToDisk config os pfn vpn (os.procList pcb).pid
    else os).modifyPte table vpn fun pte => { pte with valid := false }

section evictPage

variable (config : Config) (os : Os) (pfn : Pfn) (pcb table : Nat) (vpn : Vpn)

@[simp] theorem evictPage_tables :
    (evictPage config os pfn pcb table vpn).tables =
      (os.modifyPte table vpn fun pte => { pte with valid := false }).tables := by
  unfold evictPage
  split <;> rfl

@[simp] theorem evictPage_memory : (evictPage config os pfn pcb table vpn).memory = os.memory := by
  unfold evictPage
  split <;> rfl

@[simp] theorem evictPage_allocated :
    (evictPage config os pfn pcb table vpn).allocated = os.allocated := by
  unfold evictPage
  split <;> rfl

@[simp] theorem evictPage_procList :
    (evictPage config os pfn pcb table vpn).procList = os.procList := by
  unfold evictPage
  split <;> rfl

@[simp] theorem evictPage_current :
    (evictPage config os pfn pcb table vpn).current = os.current := by
  unfold evictPage
  split <;> rfl

@[simp] theorem evictPage_currentPagetable :
    (evictPage config os pfn pcb table vpn).currentPagetable = os.currentPagetable := by
  unfold evictPage
  split <;> rfl

@[simp] theorem evictPage_rlt : (evictPage config os pfn pcb table vpn).rlt = os.rlt := by
  unfold evictPage
  split <;> rfl

end evictPage

/-- The eviction branch leaves the state alone, or it evicts the valid page that the reverse lookup
table names for the frame. -/
theorem evictVictim_cases {config : Config} {before after : State} {frame : Pfn}
    (step : evictVictim config before frame = some after) :
    (after = before ∧ ∀ pcb, (before.rlt frame.toNat).pcb = some pcb →
        ∃ table, (before.procList pcb).pagetable = some table ∧
          (before.tables table (before.rlt frame.toNat).vpn).valid = false) ∨
      ∃ pcb table, (before.rlt frame.toNat).pcb = some pcb ∧
        (before.procList pcb).pagetable = some table ∧
        (before.tables table (before.rlt frame.toNat).vpn).valid = true ∧
        after =
          tlbClearone config
            { before with
              toOs := evictPage config before.toOs frame pcb table (before.rlt frame.toNat).vpn }
            (before.rlt frame.toNat).vpn := by
  unfold evictVictim at step
  split at step
  case h_1 vacant =>
    exact .inl ⟨(Option.some.inj step).symm, by simp [vacant]⟩
  case h_2 pcb owner =>
    simp only [bind, Option.bind_eq_some_iff] at step
    obtain ⟨table, pagetable, step⟩ := step
    split at step
    case isTrue valid =>
      exact .inr ⟨pcb, table, owner, pagetable, valid, (Option.some.inj step).symm⟩
    case isFalse invalid =>
      refine .inl ⟨(Option.some.inj step).symm, fun other sameOwner => ?_⟩
      obtain rfl : pcb = other := Option.some.inj (owner.symm.trans sameOwner)
      exact ⟨table, pagetable, by simpa using invalid⟩

/-- The state in which `page_from_disk` is called: the frame belongs to the requested page. -/
def assignFrame (os : Os) (current table : Nat) (pfn : Pfn) (vpn : Vpn) (write : Bool) : Os :=
  Os.modifyPte
    { os with rlt := Function.update os.rlt pfn.toNat { pcb := some current, vpn } }
    table vpn fun _ => { pfn, valid := true, used := true, dirty := write }

section assignFrame

variable (os : Os) (current table : Nat) (pfn : Pfn) (vpn : Vpn) (write : Bool)

theorem assignFrame_other {table otherTable : Nat} {vpn otherVpn : Vpn}
    (different : ¬(otherTable = table ∧ otherVpn = vpn)) :
    (assignFrame os current table pfn vpn write).tables otherTable otherVpn =
      os.tables otherTable otherVpn := by
  rw [assignFrame, Os.modifyPte_other _ _ different]

@[simp] theorem assignFrame_currentPagetable :
    (assignFrame os current table pfn vpn write).currentPagetable = os.currentPagetable := rfl

end assignFrame

theorem installPage_eq_some {config : Config} {before after : Os} {pfn : Pfn} {vpn : Vpn}
    {write : Bool} :
    installPage config before pfn vpn write = some after ↔
      ∃ current table, before.current = some current ∧ before.currentPagetable = some table ∧
        after =
          pageFromDisk config (assignFrame before current table pfn vpn write) pfn vpn
            (before.procList current).pid := by
  simp only [installPage, bind, Option.bind_eq_some_iff, Option.some.injEq]
  constructor
  · rintro ⟨current, hcurrent, table, htable, rfl⟩
    exact ⟨current, table, hcurrent, htable, rfl⟩
  · rintro ⟨current, table, hcurrent, htable, rfl⟩
    exact ⟨current, hcurrent, table, htable, rfl⟩

theorem pagefaultHandler_eq_some {config : Config} {before after : State} {vpn : Vpn}
    {write : Bool} {pfn : Pfn} :
    pagefaultHandler config before vpn write = some (after, pfn) ↔
      before.currentPagetable.isSome ∧ ∃ swept evicted installed,
        getFreeFrame config before.toOs = some (swept, pfn) ∧
        pfn.toNat < config.numFrames ∧
        evictVictim config { before with toOs := swept } pfn = some evicted ∧
        installPage config evicted.toOs pfn vpn write = some installed ∧
        after = { evicted with toOs := installed } := by
  simp only [pagefaultHandler, bind, Option.bind_eq_some_iff, Option.isSome_iff_exists, Prod.exists]
  constructor
  · rintro ⟨table, register, swept, found, free, step⟩
    split at step
    case isFalse => cases step
    case isTrue inRange =>
      simp only [Option.bind_eq_some_iff, Option.some.injEq, Prod.mk.injEq] at step
      obtain ⟨evicted, evict, installed, install, rfl, rfl⟩ := step
      exact ⟨⟨table, register⟩, swept, evicted, installed, free, inRange, evict, install, rfl⟩
  · rintro ⟨⟨table, register⟩, swept, evicted, installed, free, inRange, evict, install, rfl⟩
    exact ⟨table, register, swept, pfn, free, by simp [inRange, evict, install]⟩

/-! ## Process data is left alone by memory accesses -/

/-- Process control blocks, the page table register and the table allocator agree. -/
structure SameProcesses (before after : Os) : Prop where
  /-- The process list. -/
  procList : after.procList = before.procList
  /-- The number of allocated tables. -/
  allocated : after.allocated = before.allocated
  /-- The running process. -/
  current : after.current = before.current
  /-- The page table register. -/
  currentPagetable : after.currentPagetable = before.currentPagetable

namespace SameProcesses

theorem refl (os : Os) : SameProcesses os os := ⟨rfl, rfl, rfl, rfl⟩

theorem trans {first second third : Os} (left : SameProcesses first second)
    (right : SameProcesses second third) : SameProcesses first third where
  procList := right.procList.trans left.procList
  allocated := right.allocated.trans left.allocated
  current := right.current.trans left.current
  currentPagetable := right.currentPagetable.trans left.currentPagetable

end SameProcesses

section Frame

variable {config : Config} {before after : State} {vpn : Vpn} {pfn : Pfn} {write : Bool}

theorem evictVictim_sameProcesses (step : evictVictim config before pfn = some after) :
    SameProcesses before.toOs after.toOs := by
  rcases evictVictim_cases step with ⟨rfl, -⟩ | ⟨pcb, table, -, -, -, rfl⟩
  · exact .refl _
  · exact ⟨by simp [tlbClearone], by simp [tlbClearone], by simp [tlbClearone],
      by simp [tlbClearone]⟩

private theorem pagefaultHandler_sameProcesses
    (step : pagefaultHandler config before vpn write = some (after, pfn)) :
    SameProcesses before.toOs after.toOs := by
  obtain ⟨-, swept, evicted, installed, free, -, evict, install, rfl⟩ :=
    pagefaultHandler_eq_some.mp step
  have only := getFreeFrame_usedOnly free
  have sweep : SameProcesses before.toOs swept :=
    ⟨only.procList, only.allocated, only.current, only.currentPagetable⟩
  obtain ⟨current, table, -, -, rfl⟩ := installPage_eq_some.mp install
  refine (sweep.trans (evictVictim_sameProcesses evict)).trans ⟨?_, ?_, ?_, ?_⟩ <;>
    simp [assignFrame, Os.modifyPte]

theorem pagetableLookup_sameProcesses
    (step : pagetableLookup config before vpn write = some (after, pfn)) :
    SameProcesses before.toOs after.toOs := by
  simp only [pagetableLookup, bind, Option.bind_eq_some_iff] at step
  obtain ⟨table, register, step⟩ := step
  split at step
  · obtain ⟨rfl, -⟩ : before = after ∧ _ = pfn := by simpa using step
    exact .refl _
  · have handler := pagefaultHandler_sameProcesses step
    exact ⟨handler.procList, handler.allocated, handler.current, handler.currentPagetable⟩

end Frame

end CS2200.VirtualMemory
