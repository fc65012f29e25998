import CS2200.Library.Ledger
import CS2200.VirtualMemory.Ownership

/-!
# The bytes of a page through page faults

The byte of a page is found in its frame while the page is resident, and otherwise in its swap
entry or nowhere, in which case it reads as zero. A page fault leaves the bytes of all pages alone,
except that an evicted page whose entry is not dirty is forgotten: restoring a page has unlinked
its swap entry, so that no copy of it is left.
-/

namespace CS2200.VirtualMemory

/-! ## The swap list -/

@[simp] theorem SwapPage.holds_iff {pid : UInt32} {vpn : Vpn} {saved : SwapPage} :
    saved.holds pid vpn = true ↔ saved.pid = pid ∧ saved.vpn = vpn := by
  simp [SwapPage.holds]

/-- The byte that the swap list holds for a page, zero if it holds none. -/
def Os.saved (os : Os) (pid : UInt32) (vpn : Vpn) (k : Nat) : Word :=
  (os.swapfile.find? (SwapPage.holds pid vpn)).elim 0 fun page => page.data.getD k 0

/-- The swap list is a map with keys of forked processes whose page is absent. -/
structure Swapped (os : Os) : Prop where
  /-- A page has at most one entry. -/
  unique : os.swapfile.Pairwise fun first second =>
    ¬(first.pid = second.pid ∧ first.vpn = second.vpn)
  /-- A page with an entry belongs to a process and is not resident. -/
  absent : ∀ saved ∈ os.swapfile, ∃ pte,
    os.pte saved.pid.toNat saved.vpn = some pte ∧ pte.valid = false

theorem Os.saved_eq_zero {os : Os} {pid : UInt32} {vpn : Vpn}
    (missing : ∀ saved ∈ os.swapfile, ¬(saved.pid = pid ∧ saved.vpn = vpn)) (k : Nat) :
    os.saved pid vpn k = 0 := by
  have none : os.swapfile.find? (SwapPage.holds pid vpn) = none :=
    List.find?_eq_none.mpr fun saved member => by simpa using missing saved member
  simp [saved, none]

private theorem Swapped.saved_eq_zero {os : Os} (swapped : Swapped os) {pid : UInt32} {vpn : Vpn}
    (present : ∀ pte, os.pte pid.toNat vpn = some pte → pte.valid = true) (k : Nat) :
    os.saved pid vpn k = 0 := by
  refine Os.saved_eq_zero (fun saved member => ?_) k
  rintro ⟨rfl, rfl⟩
  obtain ⟨pte, entry, valid⟩ := swapped.absent saved member
  rw [present pte entry] at valid
  cases valid

section pageFromDisk

variable (config : Config) (os : Os) (pfn : Pfn) (vpn : Vpn) (pid : UInt32)

theorem pageFromDisk_memory (address : Nat) :
    (pageFromDisk config os pfn vpn pid).memory address =
      if pfn.toNat * config.pageSize ≤ address ∧
          address < pfn.toNat * config.pageSize + config.pageSize then
        os.saved pid vpn (address - pfn.toNat * config.pageSize)
      else os.memory address := by
  cases found : os.swapfile.find? (SwapPage.holds pid vpn) with
  | none => simp [pageFromDisk, found, Os.saved, Os.writePage]
  | some saved => simp [pageFromDisk, found, Os.saved, Os.writePage]

theorem pageFromDisk_swapfile :
    (pageFromDisk config os pfn vpn pid).swapfile =
      os.swapfile.eraseP (SwapPage.holds pid vpn) := by
  cases found : os.swapfile.find? (SwapPage.holds pid vpn) with
  | none =>
      have missing : ∀ saved ∈ os.swapfile, ¬(saved.holds pid vpn) = true := by
        simpa using found
      simp only [pageFromDisk, found, Os.writePage]
      exact (List.eraseP_of_forall_not missing).symm
  | some saved => simp [pageFromDisk, found]

private theorem pageFromDisk_saved {otherPid : UInt32} {otherVpn : Vpn}
    (different : ¬(otherPid = pid ∧ otherVpn = vpn)) (k : Nat) :
    (pageFromDisk config os pfn vpn pid).saved otherPid otherVpn k =
      os.saved otherPid otherVpn k := by
  unfold Os.saved
  rw [pageFromDisk_swapfile, find?_eraseP_of_disjoint]
  intro saved holds
  by_contra both
  obtain ⟨rfl, rfl⟩ := SwapPage.holds_iff.mp holds
  exact different (SwapPage.holds_iff.mp (by simpa using both))

end pageFromDisk

theorem evictPage_swapfile (config : Config) (os : Os) (pfn : Pfn) (pcb table : Nat) (vpn : Vpn) :
    (evictPage config os pfn pcb table vpn).swapfile =
      if (os.tables table vpn).dirty then
        { pid := (os.procList pcb).pid, vpn, data := os.page config pfn } :: os.swapfile
      else os.swapfile := by
  unfold evictPage
  split <;> rfl

private theorem evictPage_saved (config : Config) (os : Os) (pfn : Pfn) (pcb table : Nat)
    (vpn : Vpn)
    {pid : UInt32} {otherVpn : Vpn} (different : ¬((os.procList pcb).pid = pid ∧ vpn = otherVpn))
    (k : Nat) : (evictPage config os pfn pcb table vpn).saved pid otherVpn k =
      os.saved pid otherVpn k := by
  unfold Os.saved
  rw [evictPage_swapfile]
  split
  · rw [List.find?_cons_of_neg (by simpa using different)]
  · rfl

/-- The swap entry of a page that was dirty repeats its frame. -/
theorem evictPage_saved_dirty (config : Config) (os : Os) (pfn : Pfn) (pcb table : Nat) (vpn : Vpn)
    (dirty : (os.tables table vpn).dirty = true) (k : Nat) :
    (evictPage config os pfn pcb table vpn).saved (os.procList pcb).pid vpn k =
      (os.page config pfn).getD k 0 := by
  unfold Os.saved
  rw [evictPage_swapfile, if_pos dirty, List.find?_cons_of_pos (by simp)]
  rfl

private theorem evictPage_saved_clean (config : Config) (os : Os) (pfn : Pfn) (pcb table : Nat)
    (vpn : Vpn)
    (clean : (os.tables table vpn).dirty = false) (pid : UInt32) (otherVpn : Vpn) (k : Nat) :
    (evictPage config os pfn pcb table vpn).saved pid otherVpn k = os.saved pid otherVpn k := by
  unfold Os.saved
  rw [evictPage_swapfile, if_neg (by simp [clean])]

private theorem Os.page_getD (config : Config) (os : Os) (pfn : Pfn) {k : Nat}
    (inside : k < config.pageSize) :
    (os.page config pfn).getD k 0 = os.memory (pfn.toNat * config.pageSize + k) := by
  simp [page, List.getD, inside]

/-! ## The byte of a page -/

/-- The byte at offset `k` of a page of a process: in its frame, in its swap entry, or zero. -/
def Os.content (config : Config) (os : Os) (pcb : Nat) (vpn : Vpn) (k : Nat) : Word :=
  match (os.pte pcb vpn).filter Pte.valid with
  | some pte => os.memory (pte.pfn.toNat * config.pageSize + k)
  | none => os.saved (os.procList pcb).pid vpn k

namespace Os

variable {config : Config} {os : Os} {pcb : Nat} {vpn : Vpn} {pte : Pte}

theorem content_resident (entry : os.pte pcb vpn = some pte) (valid : pte.valid = true) (k : Nat) :
    os.content config pcb vpn k = os.memory (pte.pfn.toNat * config.pageSize + k) := by
  have resident : (os.pte pcb vpn).filter Pte.valid = some pte := by
    rw [entry]
    exact Option.filter_some_pos valid
  simp only [content, resident]

theorem content_absent (absent : ∀ pte, os.pte pcb vpn = some pte → pte.valid = false) (k : Nat) :
    os.content config pcb vpn k = os.saved (os.procList pcb).pid vpn k := by
  unfold content
  split
  case h_1 pte resident =>
    obtain ⟨entry, valid⟩ := Option.filter_eq_some_iff.mp resident
    rw [absent pte entry] at valid
    cases valid
  case h_2 => rfl

theorem resident_or_absent (os : Os) (pcb : Nat) (vpn : Vpn) :
    (∃ pte, os.pte pcb vpn = some pte ∧ pte.valid = true) ∨
      ∀ pte, os.pte pcb vpn = some pte → pte.valid = false := by
  cases os.pte pcb vpn with
  | none => simp
  | some pte => cases valid : pte.valid <;> simp [valid]

/-- The page that owns the frame is not dirty, so that evicting it forgets its bytes. -/
def Forgets (os : Os) (pfn : Pfn) (pcb : Nat) (vpn : Vpn) : Prop :=
  os.rlt pfn.toNat = { pcb := some pcb, vpn } ∧
    ∃ pte, os.pte pcb vpn = some pte ∧ pte.dirty = false

end Os

theorem frame_disjoint {size first second k j : Nat} (different : first ≠ second)
    (kInside : k < size) (jInside : j < size) : first * size + k ≠ second * size + j := by
  intro equal
  have quotient : (first * size + k) / size = (second * size + j) / size := by rw [equal]
  have positive : 0 < size := by omega
  rw [Nat.mul_comm first, Nat.mul_comm second, Nat.mul_add_div positive,
    Nat.mul_add_div positive, Nat.div_eq_of_lt kInside, Nat.div_eq_of_lt jInside] at quotient
  exact different (by simpa using quotient)

theorem Processes.pid_ne {config : Config} {os : Os} (processes : Processes config os)
    {first second table otherTable : Nat}
    (firstTable : (os.procList first).pagetable = some table)
    (secondTable : (os.procList second).pagetable = some otherTable) (different : first ≠ second) :
    (os.procList first).pid ≠ (os.procList second).pid := by
  intro equal
  apply different
  rw [← (processes.pid firstTable).1, equal, (processes.pid secondTable).1]

/-! ## Vacating a frame -/

section Vacate

variable {config : Config} {os vacated : Os} {pfn : Pfn}

theorem Os.pte_of_forked {pcb table : Nat} (pagetable : (os.procList pcb).pagetable = some table)
    (vpn : Vpn) : os.pte pcb vpn = some (os.tables table vpn) :=
  Os.pte_eq_some.mpr ⟨table, pagetable, rfl⟩

private theorem Vacated.swapped (step : Vacated config os pfn vacated) (swapped : Swapped os)
    (owned : Owned config noHole os) (processes : Processes config os) : Swapped vacated := by
  cases step with
  | free => exact swapped
  | @evicted pcb table owner pagetable =>
      obtain ⟨victim, entry, valid, -⟩ := owned.owner id owner
      have own := (processes.pid pagetable).1
      have present : ∀ saved ∈ os.swapfile,
          ¬(saved.pid = (os.procList pcb).pid ∧ saved.vpn = (os.rlt pfn.toNat).vpn) := by
        rintro saved member ⟨pid, vpn⟩
        obtain ⟨pte, entry', invalid⟩ := swapped.absent saved member
        rw [pid, vpn, own, entry] at entry'
        obtain rfl := Option.some.inj entry'
        rw [valid] at invalid
        cases invalid
      refine ⟨?_, fun saved member => ?_⟩
      · rw [evictPage_swapfile]
        split
        · refine List.pairwise_cons.mpr ⟨fun saved member => ?_, swapped.unique⟩
          exact fun same => present saved member ⟨same.1.symm, same.2.symm⟩
        · exact swapped.unique
      · rw [processes.pte_evictPage pagetable]
        rw [evictPage_swapfile] at member
        have old : saved ∈ os.swapfile → ¬(saved.pid.toNat = pcb ∧
            saved.vpn = (os.rlt pfn.toNat).vpn) := by
          rintro member ⟨pid, vpn⟩
          refine present saved member ⟨UInt32.toNat.inj ?_, vpn⟩
          rw [pid, own]
        split at member
        · rcases List.mem_cons.mp member with rfl | member
          · simp [own, entry]
          · rw [if_neg (old member)]
            exact swapped.absent saved member
        · rw [if_neg (old member)]
          exact swapped.absent saved member

/-- Vacating a frame keeps the bytes of every page that it does not forget. -/
theorem Vacated.content_kept (step : Vacated config os pfn vacated)
    (owned : Owned config noHole os) (processes : Processes config os)
    {pcb table : Nat} (forked : (os.procList pcb).pagetable = some table) {vpn : Vpn}
    (kept : ¬os.Forgets pfn pcb vpn) {k : Nat} (inside : k < config.pageSize) :
    vacated.content config pcb vpn k = os.content config pcb vpn k := by
  cases step with
  | free => rfl
  | @evicted victim victimTable owner pagetable =>
      have entries := processes.pte_evictPage pagetable pfn
        (os.rlt pfn.toNat).vpn pcb vpn
      by_cases same : pcb = victim ∧ vpn = (os.rlt pfn.toNat).vpn
      · obtain ⟨rfl, rfl⟩ := same
        obtain ⟨pte, entry, valid, frame⟩ := owned.owner id owner
        obtain rfl := Option.some.inj ((Os.pte_of_forked pagetable _).symm.trans entry)
        have dirty : (os.tables victimTable (os.rlt pfn.toNat).vpn).dirty = true := by
          by_contra clean
          exact kept ⟨by rw [← owner], _, entry, by simpa using clean⟩
        rw [if_pos ⟨rfl, rfl⟩, entry] at entries
        rw [Os.content_resident entry valid, Os.content_absent (by simp [entries]),
          evictPage_procList, evictPage_saved_dirty _ _ _ _ _ _ dirty, Os.page_getD _ _ _ inside,
          frame]
      · rw [if_neg same] at entries
        have saved : (evictPage config os pfn victim victimTable (os.rlt pfn.toNat).vpn).saved
            (os.procList pcb).pid vpn k = os.saved (os.procList pcb).pid vpn k := by
          apply evictPage_saved
          rintro ⟨samePid, sameVpn⟩
          refine same ⟨?_, sameVpn.symm⟩
          by_contra different
          exact processes.pid_ne pagetable forked (Ne.symm different) samePid
        unfold Os.content
        rw [entries, evictPage_memory, evictPage_procList, saved]

/-- What vacating a frame forgets reads as zero. -/
theorem Vacated.content_forgotten (step : Vacated config os pfn vacated) (swapped : Swapped os)
    (owned : Owned config noHole os) (processes : Processes config os) {pcb : Nat} {vpn : Vpn}
    (forgets : os.Forgets pfn pcb vpn) (k : Nat) : vacated.content config pcb vpn k = 0 := by
  obtain ⟨rlt, victim, entry, clean⟩ := forgets
  cases step with
  | free free =>
      rw [rlt] at free
      cases free
  | @evicted victim table owner pagetable =>
      obtain rfl : pcb = victim := by simpa [rlt] using owner
      obtain ⟨pte, entry', valid, -⟩ := owned.owner id owner
      rw [rlt] at entry' ⊢
      obtain rfl := Option.some.inj (entry.symm.trans entry')
      obtain rfl := Option.some.inj ((Os.pte_of_forked pagetable _).symm.trans entry)
      have entries := processes.pte_evictPage pagetable pfn vpn pcb vpn
      rw [if_pos ⟨rfl, rfl⟩, entry] at entries
      rw [Os.content_absent (by simp [entries]), evictPage_procList,
        evictPage_saved_clean _ _ _ _ _ _ clean]
      refine swapped.saved_eq_zero (fun pte found => ?_) k
      rw [(processes.pid pagetable).1] at found
      exact Option.some.inj (found.symm.trans entry) ▸ valid

end Vacate

/-! ## Filling a frame -/

section Fill

variable {config : Config} {os : Os} {pfn : Pfn} {current table : Nat} {vpn : Vpn}

/-- The state after the vacant frame was given to a page and filled from the swap list. -/
abbrev fillFrame (config : Config) (os : Os) (pfn : Pfn) (current table : Nat) (vpn : Vpn)
    (write : Bool) : Os :=
  pageFromDisk config (assignFrame os current table pfn vpn write) pfn vpn
    (os.procList current).pid

@[simp] theorem assignFrame_procList (os : Os) (pfn : Pfn) (current table : Nat) (vpn : Vpn)
    (write : Bool) : (assignFrame os current table pfn vpn write).procList = os.procList := rfl

@[simp] theorem assignFrame_saved (os : Os) (pfn : Pfn) (current table : Nat) (vpn : Vpn)
    (write : Bool) : (assignFrame os current table pfn vpn write).saved = os.saved := rfl

private theorem fillFrame_swapped (swapped : Swapped os) (processes : Processes config os)
    (pagetable : (os.procList current).pagetable = some table) (write : Bool) :
    Swapped (fillFrame config os pfn current table vpn write) := by
  have swapfile : (fillFrame config os pfn current table vpn write).swapfile =
      os.swapfile.eraseP (SwapPage.holds (os.procList current).pid vpn) :=
    pageFromDisk_swapfile ..
  refine ⟨?_, fun saved member => ?_⟩
  · rw [swapfile]
    exact swapped.unique.sublist List.eraseP_sublist
  · rw [swapfile] at member
    obtain ⟨pte, entry, absent⟩ := swapped.absent saved (List.mem_of_mem_eraseP member)
    refine ⟨pte, ?_, absent⟩
    rw [pageFromDisk_pte, processes.pte_assignFrame pagetable, if_neg, entry]
    rintro ⟨pid, sameVpn⟩
    have erased : saved.holds (os.procList current).pid vpn = false := by
      refine not_of_mem_eraseP (swapped.unique.imp fun different both => ?_) member
      obtain ⟨first, second⟩ := both
      rw [SwapPage.holds_iff] at first second
      exact different ⟨first.1.trans second.1.symm, first.2.trans second.2.symm⟩
    rw [SwapPage.holds_iff.mpr ⟨UInt32.toNat.inj ?_, sameVpn⟩] at erased
    · cases erased
    · rw [pid, (processes.pid pagetable).1]

/-- Bringing an absent page in keeps the bytes of every page. -/
theorem fillFrame_content (owned : Owned config (· = pfn.toNat) os)
    (processes : Processes config os) (pagetable : (os.procList current).pagetable = some table)
    (absent : (os.tables table vpn).valid = false) (write : Bool)
    {pcb pcbTable : Nat} (forked : (os.procList pcb).pagetable = some pcbTable) (page : Vpn)
    {k : Nat} (inside : k < config.pageSize) :
    (fillFrame config os pfn current table vpn write).content config pcb page k =
      os.content config pcb page k := by
  have entries : (fillFrame config os pfn current table vpn write).pte pcb page = _ :=
    (pageFromDisk_pte ..).trans (processes.pte_assignFrame pagetable pfn vpn write pcb page)
  by_cases same : pcb = current ∧ page = vpn
  · obtain ⟨rfl, rfl⟩ := same
    rw [if_pos ⟨rfl, rfl⟩, Os.pte_of_forked pagetable, Option.map_some] at entries
    rw [Os.content_resident entries rfl, pageFromDisk_memory,
      if_pos ⟨Nat.le_add_right .., Nat.add_lt_add_left inside _⟩, Nat.add_sub_cancel_left,
      assignFrame_saved, Os.content_absent]
    intro pte entry
    obtain rfl := Option.some.inj ((Os.pte_of_forked pagetable page).symm.trans entry)
    exact absent
  · rw [if_neg same] at entries
    rcases os.resident_or_absent pcb page with ⟨pte, entry, valid⟩ | gone
    · have different := (owned.resident entry valid).1
      rw [Os.content_resident (entries.trans entry) valid, Os.content_resident entry valid,
        pageFromDisk_memory, if_neg]
      · rfl
      · rintro ⟨lower, upper⟩
        have offset : pte.pfn.toNat * config.pageSize + k - pfn.toNat * config.pageSize <
            config.pageSize := by omega
        exact frame_disjoint different inside offset (by omega)
    · rw [Os.content_absent (by rwa [entries]), Os.content_absent gone, pageFromDisk_procList,
        pageFromDisk_saved, assignFrame_procList, assignFrame_saved]
      rintro ⟨samePid, samePage⟩
      refine same ⟨?_, samePage⟩
      by_contra different
      exact processes.pid_ne forked pagetable different samePid

end Fill

/-! ## Translations -/

section Translation

variable {config : Config} {before after : Os} {current : Nat} {vpn : Vpn} {write : Bool}
  {pfn : Pfn}

theorem UsedOnly.swapped (only : UsedOnly before after) (swapped : Swapped before) :
    Swapped after where
  unique := by
    rw [only.swapfile]
    exact swapped.unique
  absent saved member := by
    rw [only.swapfile] at member
    obtain ⟨old, entry, absent⟩ := swapped.absent saved member
    obtain ⟨pte, entry, -, valid, -⟩ := only.symm.pte entry
    exact ⟨pte, entry, valid.trans absent⟩

private theorem UsedOnly.content (only : UsedOnly before after) (pcb : Nat) (page : Vpn) (k : Nat) :
    after.content config pcb page k = before.content config pcb page k := by
  rcases before.resident_or_absent pcb page with ⟨old, entry, valid⟩ | absent
  · obtain ⟨pte, newEntry, samePfn, sameValid, -⟩ := only.symm.pte entry
    rw [Os.content_resident newEntry (sameValid.trans valid), Os.content_resident entry valid,
      only.memory, samePfn]
  · rw [Os.content_absent absent, Os.content_absent]
    · simp only [Os.saved, only.swapfile, only.procList]
    · intro pte entry
      obtain ⟨old, oldEntry, -, sameValid, -⟩ := only.pte entry
      exact sameValid ▸ absent old oldEntry

theorem UsedOnly.forgets (only : UsedOnly before after) {pcb : Nat} {page : Vpn} :
    after.Forgets pfn pcb page ↔ before.Forgets pfn pcb page := by
  unfold Os.Forgets
  rw [only.rlt]
  refine and_congr_right fun _ => ⟨?_, ?_⟩
  · rintro ⟨pte, entry, clean⟩
    obtain ⟨old, oldEntry, -, -, sameDirty⟩ := only.pte entry
    exact ⟨old, oldEntry, sameDirty.trans clean⟩
  · rintro ⟨old, oldEntry, clean⟩
    obtain ⟨pte, entry, -, -, sameDirty⟩ := only.symm.pte oldEntry
    exact ⟨pte, entry, sameDirty.trans clean⟩

theorem Faulted.rlt (fault : Faulted config before current vpn write pfn swept vacated after) :
    after.rlt = Function.update before.rlt pfn.toNat { pcb := some current, vpn } := by
  obtain ⟨table, -, rfl⟩ := fault.filled
  have vacatedRlt : vacated.rlt = swept.rlt := by
    cases fault.vacates with
    | free => rfl
    | evicted => simp
  simp [assignFrame, Os.modifyPte, vacatedRlt, fault.only.rlt]

theorem Faulted.swapped
    (fault : Faulted config before current vpn write pfn swept vacated after)
    (swapped : Swapped before) (owned : Owned config noHole before)
    (processes : Processes config before) : Swapped after := by
  obtain ⟨table, pagetable, rfl⟩ := fault.filled
  have sweep := fault.only.sameProcesses
  have same := sweep.trans fault.vacates.sameProcesses
  have kept := fault.vacates.swapped (fault.only.swapped swapped) (owned.of_usedOnly fault.only)
    (processes.of_sameProcesses sweep)
  rw [← same.procList] at pagetable ⊢
  exact fillFrame_swapped kept (processes.of_sameProcesses same) pagetable write

/-- What a page fault leaves of a page is what vacating the frame leaves of it. -/
theorem Faulted.content (fault : Faulted config before current vpn write pfn swept vacated after)
    (owned : Owned config noHole before) (processes : Processes config before)
    (absent : ∀ pte, before.pte current vpn = some pte → pte.valid = false)
    {pcb table : Nat} (forked : (before.procList pcb).pagetable = some table) (page : Vpn) {k : Nat}
    (inside : k < config.pageSize) :
    after.content config pcb page k = vacated.content config pcb page k := by
  obtain ⟨register, pagetable, rfl⟩ := fault.filled
  have sweep := fault.only.sameProcesses
  have same := sweep.trans fault.vacates.sameProcesses
  have gone : (vacated.tables register vpn).valid = false := by
    apply fault.vacates.absent
    rw [fault.only.valid]
    exact absent _ (Os.pte_of_forked pagetable vpn)
  have hole := fault.vacates.owned (owned.of_usedOnly fault.only)
    (processes.of_sameProcesses sweep)
  rw [← same.procList] at pagetable forked ⊢
  exact fillFrame_content hole (processes.of_sameProcesses same) pagetable gone write forked page
    inside

theorem Faulted.content_kept
    (fault : Faulted config before current vpn write pfn swept vacated after)
    (owned : Owned config noHole before) (processes : Processes config before)
    (absent : ∀ pte, before.pte current vpn = some pte → pte.valid = false)
    {pcb table : Nat} (forked : (before.procList pcb).pagetable = some table) {page : Vpn}
    (kept : ¬before.Forgets pfn pcb page) {k : Nat} (inside : k < config.pageSize) :
    after.content config pcb page k = before.content config pcb page k := by
  have sweep := fault.only.sameProcesses
  rw [fault.content owned processes absent forked page inside,
    fault.vacates.content_kept (owned.of_usedOnly fault.only) (processes.of_sameProcesses sweep)
      (by rwa [sweep.procList]) (by rwa [fault.only.forgets]) inside, fault.only.content]

theorem Faulted.content_forgotten
    (fault : Faulted config before current vpn write pfn swept vacated after)
    (swapped : Swapped before) (owned : Owned config noHole before)
    (processes : Processes config before)
    (absent : ∀ pte, before.pte current vpn = some pte → pte.valid = false)
    {pcb table : Nat} (forked : (before.procList pcb).pagetable = some table) {page : Vpn}
    (forgets : before.Forgets pfn pcb page) {k : Nat} (inside : k < config.pageSize) :
    after.content config pcb page k = 0 := by
  have sweep := fault.only.sameProcesses
  rw [fault.content owned processes absent forked page inside]
  exact fault.vacates.content_forgotten (fault.only.swapped swapped)
    (owned.of_usedOnly fault.only) (processes.of_sameProcesses sweep)
    (fault.only.forgets.mpr forgets) k

end Translation

end CS2200.VirtualMemory
