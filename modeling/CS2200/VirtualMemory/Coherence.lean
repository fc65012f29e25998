import CS2200.VirtualMemory.Swap

/-!
# Coherence of the virtual memory

A load returns the byte that its process last stored at the address, as long as no page fault has
evicted a page with nonzero bytes whose page table entry is not dirty. Such pages exist: a store to
a resident page leaves its dirty bit alone, and a page that a load restores from the swap list is
neither dirty nor on the swap list any more.
-/

namespace CS2200.VirtualMemory

/-! ## Command sequences -/

/-- Forks use identifiers in range that were not forked before, and accesses are made by forked
processes. -/
def Command.Legal (config : Config) (os : Os) : Command → Prop
  | .fork pid => pid.toNat < config.maxJobs ∧ (os.procList pid.toNat).pagetable = none
  | .load pid _ | .store pid _ _ => (os.procList pid.toNat).pagetable ≠ none

instance (config : Config) (os : Os) : (command : Command) → Decidable (command.Legal config os)
  | .fork _ => inferInstanceAs (Decidable (_ ∧ _))
  | .load _ _ | .store _ _ _ => inferInstanceAs (Decidable (_ ≠ _))

/-- One legal command that does not abort. -/
def CommandStep (config : Config) (before : State) (command : Command) (after : State) : Prop :=
  command.Legal config before.toOs ∧
    ∃ output, simCommand config before command = some (after, output)

/-- Legal commands lead from the initial state to `state`. -/
abbrev Reaches (config : Config) (commands : List Command) (state : State) : Prop :=
  Trace (CommandStep config) simInit commands state

/-- The state after one legal command. -/
def legalCommand (config : Config) (state : State) (command : Command) : Option State :=
  if command.Legal config state.toOs then (simCommand config state command).map Prod.fst else none

theorem reaches_of_foldlM {config : Config} {commands : List Command} {state : State}
    (folds : commands.foldlM (legalCommand config) simInit = some state) :
    Reaches config commands state :=
  (Trace.of_foldlM folds).mono fun step => by
    simpa [legalCommand, CommandStep, Option.ite_none_right_eq_some] using step

/-- The byte that a process last stored at an address, or zero. -/
def lastStored (commands : List Command) (pid : UInt32) (va : VAddr) : Word :=
  commands.foldl
    (fun byte command =>
      match command with
      | .store storing address val => if storing = pid ∧ address = va then val else byte
      | .fork _ | .load _ _ => byte)
    0

/-- Whether a translation for a process faults while `get_free_frame` chooses a frame whose page is
not dirty but has a nonzero byte. -/
def losesPage (config : Config) (os : Os) (pid : UInt32) (vpn : Vpn) : Bool :=
  (os.pte pid.toNat vpn).any (fun pte => !pte.valid) &&
    ((getFreeFrame config os).map Prod.snd).any fun pfn =>
      (os.rlt pfn.toNat).pcb.any fun owner =>
        (os.pte owner (os.rlt pfn.toNat).vpn).any fun victim =>
          !victim.dirty && (os.page config pfn).any (· != 0)

/-- Whether a command loses a page. -/
def Command.loses (config : Config) (os : Os) : Command → Bool
  | .fork _ => false
  | .load pid va | .store pid va _ => losesPage config os pid (config.vaddrPagenum va)

/-- After every part of the sequence, a load of any address by any forked process returns the byte
that the process last stored there. -/
def Coherent (config : Config) (commands : List Command) : Prop :=
  ∀ earlier, earlier <+: commands → ∀ state, Reaches config earlier state → ∀ pid va,
    (state.procList pid.toNat).pagetable ≠ none →
      ∃ after, simCommand config state (.load pid va) =
        some (after, some (lastStored earlier pid va))

/-- No command of the sequence loses a page. -/
def Lossless (config : Config) (commands : List Command) : Prop :=
  ∀ earlier command, earlier ++ [command] <+: commands → ∀ before after,
    Reaches config earlier before → CommandStep config before command after →
      command.loses config before.toOs = false

theorem lastStored_store (commands : List Command) (storing : UInt32) (address : VAddr) (val : Word)
    (pid : UInt32) (va : VAddr) :
    lastStored (commands ++ [.store storing address val]) pid va =
      if storing = pid ∧ address = va then val else lastStored commands pid va := by
  simp [lastStored, List.foldl_append]

theorem lastStored_load (commands : List Command) (loading : UInt32) (address : VAddr)
    (pid : UInt32) (va : VAddr) :
    lastStored (commands ++ [.load loading address]) pid va = lastStored commands pid va := by
  simp [lastStored, List.foldl_append]

theorem lastStored_fork (commands : List Command) (forked pid : UInt32) (va : VAddr) :
    lastStored (commands ++ [.fork forked]) pid va = lastStored commands pid va := by
  simp [lastStored, List.foldl_append]

/-! ## The state apart from the CPU -/

/-- Everything that frames, page tables and the swap list hold agrees. -/
structure SamePages (before after : Os) : Prop where
  /-- Physical memory. -/
  memory : after.memory = before.memory
  /-- Page tables. -/
  tables : after.tables = before.tables
  /-- The process list. -/
  procList : after.procList = before.procList
  /-- The reverse lookup table. -/
  rlt : after.rlt = before.rlt
  /-- The swap list. -/
  swapfile : after.swapfile = before.swapfile

namespace SamePages

variable {config : Config} {before after : Os}

theorem pte (same : SamePages before after) : after.pte = before.pte := by
  funext pcb vpn
  simp only [Os.pte, same.procList, same.tables]

theorem content (same : SamePages before after) :
    after.content config = before.content config := by
  funext pcb vpn k
  simp only [Os.content, Os.saved, same.pte, same.memory, same.swapfile, same.procList]

theorem swapped (same : SamePages before after) (swapped : Swapped before) : Swapped after where
  unique := by
    rw [same.swapfile]
    exact swapped.unique
  absent := by
    rw [same.swapfile, same.pte]
    exact swapped.absent

private theorem clockSweep (same : SamePages before after) (frames : List Nat) :
    clockSweep after frames = (clockSweep before frames).map fun result =>
      ({ after with tables := result.1.tables }, result.2) := by
  induction frames generalizing before after with
  | nil => simp [VirtualMemory.clockSweep, ← same.tables]
  | cons frame frames ih =>
      simp only [VirtualMemory.clockSweep, bind, same.rlt, same.procList, same.tables]
      cases (before.rlt frame).pcb with
      | none => rfl
      | some pcb =>
          simp only [Option.bind_some]
          cases (before.procList pcb).pagetable with
          | none => rfl
          | some table =>
              simp only [Option.bind_some]
              split
              · have cleared : SamePages
                    (before.modifyPte table (before.rlt frame).vpn
                      fun pte => { pte with used := false })
                    (after.modifyPte table (before.rlt frame).vpn
                      fun pte => { pte with used := false }) :=
                  ⟨same.memory, by simp only [Os.modifyPte, same.tables], same.procList,
                    same.rlt, same.swapfile⟩
                rw [ih cleared]
                simp only [Os.modifyPte, same.procList, same.rlt]
              · simp [← same.tables, ← same.procList, ← same.rlt]

theorem getFreeFrame_eq (same : SamePages before after) :
    VirtualMemory.getFreeFrame config after =
      (VirtualMemory.getFreeFrame config before).map fun result =>
        ({ after with tables := result.1.tables }, result.2) := by
  unfold VirtualMemory.getFreeFrame
  rw [show (fun frame => decide ((after.rlt frame).pcb = none)) =
    fun frame => decide ((before.rlt frame).pcb = none) by rw [same.rlt]]
  split
  · simp [← same.tables]
  · exact same.clockSweep _

theorem getFreeFrame (same : SamePages before after) :
    (getFreeFrame config after).map Prod.snd = (getFreeFrame config before).map Prod.snd := by
  rw [same.getFreeFrame_eq, Option.map_map]
  rfl

private theorem losesPage (same : SamePages before after) :
    losesPage config after = losesPage config before := by
  funext pid vpn
  simp only [VirtualMemory.losesPage, same.getFreeFrame, same.pte, same.rlt, Os.page, same.memory]

end SamePages

/-! ## Page faults -/

/-- What holds between commands. -/
structure Consistent (config : Config) (state : State) : Prop where
  /-- Frames, page tables and the TLB. -/
  invariant : Invariant config state
  /-- The swap list. -/
  swapped : Swapped state.toOs
  /-- Frames hold pages inside the page table. -/
  inTable : ∀ frame, (state.rlt frame).vpn.toNat < config.numPte

/-- What a translation of page `vpn` for process `pid` does to the bytes of all pages. -/
structure Carried (config : Config) (before : Os) (pid : UInt32) (vpn : Vpn) (after : Os) :
    Prop where
  /-- The requested page keeps its bytes. -/
  target : ∀ {k}, k < config.pageSize →
    after.content config pid.toNat vpn k = before.content config pid.toNat vpn k
  /-- Without a loss every page keeps its bytes. -/
  kept : losesPage config before pid vpn = false → ∀ {pcb table},
    (before.procList pcb).pagetable = some table → ∀ page {k}, k < config.pageSize →
      after.content config pcb page k = before.content config pcb page k
  /-- With a loss a nonzero byte of another page becomes zero. -/
  lost : losesPage config before pid vpn = true → ∃ pcb table page k,
    (before.procList pcb).pagetable = some table ∧ page.toNat < config.numPte ∧
      k < config.pageSize ∧ ¬(pcb = pid.toNat ∧ page = vpn) ∧
      before.content config pcb page k ≠ 0 ∧ after.content config pcb page k = 0

private theorem Carried.of_samePages {config : Config} {first before after : Os} {pid : UInt32}
    {vpn : Vpn} (carried : Carried config before pid vpn after) (same : SamePages first before) :
    Carried config first pid vpn after := by
  obtain ⟨target, kept, lost⟩ := carried
  simp only [same.content, same.losesPage, same.procList] at target kept lost
  exact ⟨target, kept, lost⟩

section Carried

variable {config : Config} {os : Os} {pfn : Pfn}

/-- A page in a frame that would be forgotten is resident there. -/
theorem Os.Forgets.resident {pcb : Nat} {page : Vpn} (forgets : os.Forgets pfn pcb page)
    (owned : Owned config noHole os) :
    ∃ pte, os.pte pcb page = some pte ∧ pte.valid = true ∧ pte.pfn.toNat = pfn.toNat := by
  have owner : (os.rlt pfn.toNat).pcb = some pcb := by rw [forgets.1]
  have resident := owned.owner id owner
  rwa [forgets.1] at resident

private theorem losesPage_iff {pid : UInt32} {vpn : Vpn} {table : Nat}
    (forked : (os.procList pid.toNat).pagetable = some table)
    (absent : ∀ pte, os.pte pid.toNat vpn = some pte → pte.valid = false)
    (chosen : (getFreeFrame config os).map Prod.snd = some pfn) :
    losesPage config os pid vpn = true ↔ ∃ pcb page, os.Forgets pfn pcb page ∧
      ∃ k < config.pageSize, os.memory (pfn.toNat * config.pageSize + k) ≠ 0 := by
  have entry := Os.pte_of_forked forked vpn
  have invalid := absent _ entry
  have nonzero : (os.page config pfn).any (· != 0) = true ↔
      ∃ k < config.pageSize, os.memory (pfn.toNat * config.pageSize + k) ≠ 0 := by
    simp [Os.page]
  simp only [losesPage, entry, invalid, chosen, Option.any_some, Option.any_eq_true,
    Bool.and_eq_true, nonzero, Bool.not_false, Bool.not_eq_true', true_and]
  constructor
  · rintro ⟨pcb, owner, victim, found, clean, lost⟩
    exact ⟨pcb, _, ⟨by rw [← owner], victim, found, clean⟩, lost⟩
  · rintro ⟨pcb, page, ⟨rlt, victim, found, clean⟩, lost⟩
    exact ⟨pcb, by rw [rlt], victim, by rwa [rlt], clean, lost⟩

theorem Translated.carried {before after : State} {pid : UInt32} {vpn : Vpn} {write : Bool}
    (step : Translated config before.toOs pid.toNat vpn write pfn after.toOs)
    (consistent : Consistent config before)
    (forked : (before.procList pid.toNat).pagetable ≠ none) :
    Carried config before.toOs pid vpn after.toOs := by
  obtain ⟨table, pagetable⟩ := Option.ne_none_iff_exists'.mp forked
  obtain ⟨⟨processes, owned, -⟩, swapped, inTable⟩ := consistent
  generalize before.toOs = os at *
  generalize after.toOs = final at *
  cases step with
  | resident entry valid =>
      have harmless : losesPage config os pid vpn = false := by simp [losesPage, entry, valid]
      exact ⟨fun _ => rfl, fun _ _ _ _ _ _ _ => rfl, by simp [harmless]⟩
  | @faulted swept vacated _ absent fault =>
      have same : SamePages os { os with countPagefaults := os.countPagefaults + 1 } :=
        ⟨rfl, rfl, rfl, rfl, rfl⟩
      have chosen : (getFreeFrame config os).map Prod.snd = some pfn := by
        rw [← same.getFreeFrame, fault.free]
        rfl
      have countedOwned : Owned config noHole
          { os with countPagefaults := os.countPagefaults + 1 } := ⟨owned.owner, owned.resident⟩
      have countedProcesses : Processes config
          { os with countPagefaults := os.countPagefaults + 1 } :=
        processes.of_sameProcesses ⟨rfl, rfl, rfl, rfl⟩
      have loses := losesPage_iff pagetable absent chosen
      have content : ∀ {pcb pcbTable}, (os.procList pcb).pagetable = some pcbTable → ∀ {page},
          ¬os.Forgets pfn pcb page → ∀ {k}, k < config.pageSize →
            final.content config pcb page k = os.content config pcb page k :=
        fun owner _ spared _ inside =>
          fault.content_kept countedOwned countedProcesses absent owner spared inside
      have forgotten : ∀ {pcb pcbTable}, (os.procList pcb).pagetable = some pcbTable → ∀ {page},
          os.Forgets pfn pcb page → ∀ {k}, k < config.pageSize →
            final.content config pcb page k = 0 :=
        fun owner _ forgets _ inside =>
          fault.content_forgotten (same.swapped swapped) countedOwned countedProcesses absent owner
            forgets inside
      refine ⟨content pagetable fun forgets => ?_, fun harmless pcb pcbTable owner page k inside =>
        ?_, fun losing => ?_⟩
      · obtain ⟨pte, entry, valid, -⟩ := forgets.resident owned
        rw [absent pte entry] at valid
        cases valid
      · by_cases forgets : os.Forgets pfn pcb page
        · obtain ⟨pte, entry, valid, frame⟩ := forgets.resident owned
          rw [forgotten owner forgets inside, Os.content_resident entry valid, frame]
          by_contra nonzero
          simp [loses.mpr ⟨pcb, page, forgets, k, inside, Ne.symm nonzero⟩] at harmless
        · exact content owner forgets inside
      · obtain ⟨pcb, page, forgets, k, inside, nonzero⟩ := loses.mp losing
        obtain ⟨pte, entry, valid, frame⟩ := forgets.resident owned
        obtain ⟨pcbTable, owner, -⟩ := Os.pte_eq_some.mp entry
        refine ⟨pcb, pcbTable, page, k, owner, ?_, inside, ?_, ?_, forgotten owner forgets inside⟩
        · have bound := inTable pfn.toNat
          rwa [forgets.1] at bound
        · rintro ⟨rfl, rfl⟩
          rw [absent pte entry] at valid
          cases valid
        · rwa [Os.content_resident entry valid, frame]

end Carried

/-! ## Commands -/

namespace Consistent

variable {config : Config} {state after : State} {pid : UInt32} {vpn : Vpn} {pfn : Pfn}

theorem simInit (accepted : config.Accepted) : Consistent config simInit where
  invariant := .simInit config
  swapped := ⟨List.Pairwise.nil, by simp [VirtualMemory.simInit]⟩
  inTable _ := by
    have positive : 0 < config.numPte := by
      by_contra zero
      have product := accepted.numPte_mul
      simp [Nat.eq_zero_of_not_pos zero] at product
    simpa [VirtualMemory.simInit] using positive

private theorem switchTo (consistent : Consistent config state)
    (forked : (state.procList pid.toNat).pagetable ≠ none) :
    ∃ switched, switchTo config state pid = some switched ∧ Consistent config switched ∧
      switched.current = some pid.toNat ∧ SamePages state.toOs switched.toOs := by
  obtain ⟨table, pagetable⟩ := Option.ne_none_iff_exists'.mp forked
  by_cases running : state.current.map (fun index => (state.procList index).pid) = some pid
  · refine ⟨state, by simp [VirtualMemory.switchTo, running], consistent, ?_,
      ⟨rfl, rfl, rfl, rfl, rfl⟩⟩
    obtain ⟨index, current, rfl⟩ := Option.map_eq_some_iff.mp running
    obtain ⟨register, -, own⟩ := consistent.invariant.processes.register current
    rw [current, (consistent.invariant.processes.pid own).1]
  · have inRange := (consistent.invariant.processes.pid pagetable).2
    obtain ⟨switched, switch⟩ : ∃ switched, procSwitch config state pid = some switched := by
      simp [procSwitch, inRange, pagetable]
    have kept := consistent.invariant.procSwitch forked switch
    simp only [procSwitch, inRange, if_true, pagetable, bind, Option.bind_some,
      Option.some.injEq] at switch
    subst switch
    refine ⟨_, ?_, ⟨kept, ?_, consistent.inTable⟩, rfl, ⟨rfl, rfl, rfl, rfl, rfl⟩⟩
    · simp [VirtualMemory.switchTo, running, procSwitch, inRange, pagetable]
    · exact ⟨consistent.swapped.unique, consistent.swapped.absent⟩

private theorem translated {before : State} {current : Nat} {write : Bool}
    (step : Translated config before.toOs current vpn write pfn after.toOs)
    (consistent : Consistent config before) (kept : Invariant config after)
    (inTable : vpn.toNat < config.numPte) : Consistent config after := by
  obtain ⟨⟨processes, owned, -⟩, swapped, bound⟩ := consistent
  suffices Swapped after.toOs ∧ ∀ frame, (after.rlt frame).vpn.toNat < config.numPte from
    ⟨kept, this.1, this.2⟩
  generalize before.toOs = os at *
  generalize after.toOs = final at *
  cases step with
  | resident => exact ⟨swapped, bound⟩
  | @faulted swept vacated _ absent fault =>
      refine ⟨fault.swapped ⟨swapped.unique, swapped.absent⟩ ⟨owned.owner, owned.resident⟩
        (processes.of_sameProcesses ⟨rfl, rfl, rfl, rfl⟩), fun frame => ?_⟩
      have rlt := fault.rlt
      rw [rlt]
      by_cases here : frame = pfn.toNat
      · simpa [here] using inTable
      · simpa [here] using bound frame

theorem lookup (consistent : Consistent config state) (accepted : config.Accepted) {current : Nat}
    (running : state.current = some current) (va : VAddr) (write : Bool) :
    ∃ looked pfn pte, tlbLookup config state (config.vaddrPagenum va) write = some (looked, pfn) ∧
      Consistent config looked ∧
      Translated config state.toOs current (config.vaddrPagenum va) write pfn looked.toOs ∧
      looked.pte current (config.vaddrPagenum va) = some pte ∧ pte.valid = true ∧
      pte.pfn = pfn := by
  obtain ⟨looked, pfn, lookup, step, kept, translates⟩ := consistent.invariant.tlbLookup_total
    accepted.numFrames_pos running (config.vaddrPagenum va) write
  obtain ⟨table, register, pagetable⟩ := kept.processes.register
    (step.sameProcesses.current.trans running)
  obtain ⟨designated, register', valid, rfl⟩ := translates
  obtain rfl := Option.some.inj (register.symm.trans register')
  exact ⟨looked, _, _, lookup, consistent.translated step kept (accepted.vaddrPagenum_lt va), step,
    Os.pte_of_forked pagetable _, valid, rfl⟩

/-- An access by a forked process switches to it and translates the address, without aborting. -/
theorem access (consistent : Consistent config state) (accepted : config.Accepted)
    (forked : (state.procList pid.toNat).pagetable ≠ none) (va : VAddr) (write : Bool) :
    ∃ switched after pfn pte, VirtualMemory.switchTo config state pid = some switched ∧
      tlbLookup config switched (config.vaddrPagenum va) write = some (after, pfn) ∧
      Consistent config after ∧ after.procList = state.procList ∧
      after.pte pid.toNat (config.vaddrPagenum va) = some pte ∧ pte.valid = true ∧ pte.pfn = pfn ∧
      Carried config state.toOs pid (config.vaddrPagenum va) after.toOs := by
  obtain ⟨switched, switch, ready, running, same⟩ := consistent.switchTo forked
  obtain ⟨looked, pfn, pte, lookup, kept, step, entry, valid, equal⟩ :=
    ready.lookup accepted running va write
  have carried := step.carried ready (by rwa [same.procList])
  exact ⟨switched, looked, pfn, pte, switch, lookup, kept,
    step.sameProcesses.procList.trans same.procList, entry, valid, equal,
    carried.of_samePages same⟩

end Consistent

/-! ## Loads, stores and forks -/

section Memory

variable {config : Config} {state after : State} {pid : UInt32} {va : VAddr}

theorem Consistent.of_samePages {before : State} (consistent : Consistent config before)
    (invariant : Invariant config after) (same : SamePages before.toOs after.toOs) :
    Consistent config after where
  invariant := invariant
  swapped := same.swapped consistent.swapped
  inTable frame := by
    rw [same.rlt]
    exact consistent.inTable frame

theorem Consistent.load (consistent : Consistent config state) (accepted : config.Accepted)
    (forked : (state.procList pid.toNat).pagetable ≠ none) (va : VAddr) :
    ∃ after, simCommand config state (.load pid va) =
        some (after, some (state.content config pid.toNat (config.vaddrPagenum va)
          (config.vaddrOffset va))) ∧
      Consistent config after ∧ after.procList = state.procList ∧
      Carried config state.toOs pid (config.vaddrPagenum va) after.toOs := by
  obtain ⟨table, pagetable⟩ := Option.ne_none_iff_exists'.mp forked
  obtain ⟨switched, looked, pfn, pte, switch, lookup, kept, procList, entry, valid, rfl, carried⟩ :=
    consistent.access accepted forked va false
  have inside := accepted.vaddrOffset_lt va
  have inRange := (consistent.invariant.processes.pid pagetable).2
  have same : SamePages looked.toOs { looked.toOs with countReads := looked.countReads + 1 } :=
    ⟨rfl, rfl, rfl, rfl, rfl⟩
  refine ⟨{ looked with countReads := looked.countReads + 1 }, ?_,
    kept.of_samePages (kept.invariant.of_memory rfl) same, procList, ?_⟩
  · rw [← carried.target inside, Os.content_resident entry valid]
    simp [simCommand, Nat.not_le.mpr inRange, switch, VirtualMemory.memLoad, lookup,
      physicalAddress]
  · obtain ⟨target, kept, lost⟩ := carried
    rw [← same.content] at target kept lost
    exact ⟨target, kept, lost⟩

theorem Os.content_write {os : Os} (owned : Owned config noHole os) (accepted : config.Accepted)
    {current : Nat} {pte : Pte} (entry : os.pte current (config.vaddrPagenum va) = some pte)
    (valid : pte.valid = true) (val : Word) (pcb : Nat) (page : Vpn) {k : Nat}
    (inside : k < config.pageSize) :
    { os with memory := Function.update os.memory (physicalAddress config pte.pfn va) val }.content
        config pcb page k =
      if pcb = current ∧ page = config.vaddrPagenum va ∧ k = config.vaddrOffset va then val
      else os.content config pcb page k := by
  have offset := accepted.vaddrOffset_lt va
  rcases os.resident_or_absent pcb page with ⟨other, found, present⟩ | absent
  · rw [Os.content_resident found present, Os.content_resident (by exact found) present]
    by_cases same : pcb = current ∧ page = config.vaddrPagenum va
    · obtain ⟨rfl, rfl⟩ := same
      obtain rfl := Option.some.inj (found.symm.trans entry)
      by_cases here : k = config.vaddrOffset va
      · simp [here, physicalAddress]
      · simp [here, physicalAddress, Function.update_of_ne]
    · rw [if_neg fun both => same ⟨both.1, both.2.1⟩]
      refine Function.update_of_ne (frame_disjoint (fun frames => same ?_) inside offset) _ _
      have first := (owned.resident found present).2.2
      have second := (owned.resident entry valid).2.2
      rw [frames, second] at first
      simpa [eq_comm] using first
  · rw [if_neg, Os.content_absent absent, Os.content_absent (by exact absent)]
    · rfl
    · rintro ⟨rfl, rfl, -⟩
      rw [absent pte entry] at valid
      cases valid

theorem Consistent.store (consistent : Consistent config state) (accepted : config.Accepted)
    (forked : (state.procList pid.toNat).pagetable ≠ none) (va : VAddr) (val : Word) :
    ∃ middle after, simCommand config state (.store pid va val) = some (after, none) ∧
      Consistent config after ∧ after.procList = state.procList ∧
      Carried config state.toOs pid (config.vaddrPagenum va) middle ∧
      ∀ pcb page {k}, k < config.pageSize → after.content config pcb page k =
        if pcb = pid.toNat ∧ page = config.vaddrPagenum va ∧ k = config.vaddrOffset va then val
        else middle.content config pcb page k := by
  obtain ⟨table, pagetable⟩ := Option.ne_none_iff_exists'.mp forked
  obtain ⟨switched, looked, pfn, pte, switch, lookup, kept, procList, entry, valid, rfl, carried⟩ :=
    consistent.access accepted forked va true
  have inRange := (consistent.invariant.processes.pid pagetable).2
  refine ⟨looked.toOs, { looked with
    countWrites := looked.countWrites + 1
    memory := Function.update looked.memory (physicalAddress config pte.pfn va) val }, ?_,
    ⟨kept.invariant.of_memory rfl, ⟨kept.swapped.unique, kept.swapped.absent⟩, kept.inTable⟩,
    procList, carried, fun pcb page k inside => ?_⟩
  · simp [simCommand, Nat.not_le.mpr inRange, switch, VirtualMemory.memStore, lookup]
  · exact Os.content_write kept.invariant.owned accepted entry valid val pcb page inside

/-- Frames and swap list hold nothing of a process, and it is not running. -/
structure Os.Unused (os : Os) (pid : UInt32) : Prop where
  /-- The process is not running. -/
  idle : os.current ≠ some pid.toNat
  /-- The process owns no frame. -/
  unowned : ∀ frame, (os.rlt frame).pcb ≠ some pid.toNat
  /-- No page of the process is saved. -/
  unsaved : ∀ saved ∈ os.swapfile, saved.pid ≠ pid

/-- Nothing can be left of a process that was never forked. -/
theorem Consistent.unused_of_fresh (consistent : Consistent config state)
    (fresh : (state.procList pid.toNat).pagetable = none) : state.Unused pid where
  idle := consistent.invariant.idle_of_fresh fresh
  unowned := consistent.invariant.unowned_of_fresh fresh
  unsaved := by
    rintro saved member rfl
    obtain ⟨pte, entry, -⟩ := consistent.swapped.absent saved member
    simp [Os.pte, fresh] at entry

theorem Consistent.procFork (consistent : Consistent config state)
    (unused : state.Unused pid) (step : procFork config state pid = some after) :
    Consistent config after ∧
      (∀ pcb, (after.procList pcb).pagetable ≠ none ↔
        pcb = pid.toNat ∨ (state.procList pcb).pagetable ≠ none) ∧
      (∀ page k, after.content config pid.toNat page k = 0) ∧
      ∀ pcb, pcb ≠ pid.toNat → ∀ page k,
        after.content config pcb page k = state.content config pcb page k := by
  have entries := Invariant.procFork_pte consistent.invariant.processes.allocated step
  have kept := consistent.invariant.procFork_unowned unused.idle unused.unowned step
  unfold VirtualMemory.procFork at step
  split at step
  case isFalse => cases step
  case isTrue inRange =>
    obtain rfl := Option.some.inj step
    refine ⟨⟨kept, ⟨consistent.swapped.unique, fun saved member => ?_⟩, consistent.inTable⟩,
      fun pcb => ?_, fun page k => ?_, fun pcb other page k => ?_⟩
    · rw [entries, if_neg fun equal => unused.unsaved saved member (UInt32.toNat.inj equal)]
      exact consistent.swapped.absent saved member
    · by_cases forked : pcb = pid.toNat <;> simp [forked]
    · rw [Os.content_absent]
      · refine Os.saved_eq_zero (fun saved member => ?_) k
        rintro ⟨samePid, -⟩
        exact unused.unsaved saved member (by simpa using samePid)
      · intro pte entry
        rw [entries, if_pos rfl] at entry
        obtain rfl := Option.some.inj entry
        rfl
    · unfold Os.content
      rw [entries, if_neg other]
      simp only [Function.update_of_ne other]
      rfl

theorem Consistent.fork (consistent : Consistent config state) (inRange : pid.toNat < config.maxJobs)
    (fresh : (state.procList pid.toNat).pagetable = none) :
    ∃ after, simCommand config state (.fork pid) = some (after, none) ∧ Consistent config after ∧
      (∀ pcb, (after.procList pcb).pagetable ≠ none ↔
        pcb = pid.toNat ∨ (state.procList pcb).pagetable ≠ none) ∧
      (∀ page k, after.content config pid.toNat page k = 0) ∧
      ∀ pcb, pcb ≠ pid.toNat → ∀ page k,
        after.content config pcb page k = state.content config pcb page k := by
  obtain ⟨after, fork⟩ : ∃ after, VirtualMemory.procFork config state pid = some after := by
    simp [VirtualMemory.procFork, inRange]
  exact ⟨after, by simp [simCommand, inRange, fork],
    consistent.procFork (consistent.unused_of_fresh fresh) fork⟩

end Memory

/-! ## Runs -/

/-- Every byte of every process is the one that it last stored. -/
def Agrees (config : Config) (state : State) (commands : List Command) : Prop :=
  ∀ pid va, (state.procList pid.toNat).pagetable ≠ none →
    state.content config pid.toNat (config.vaddrPagenum va) (config.vaddrOffset va) =
      lastStored commands pid va

section Runs

variable {config : Config} {before after state : State} {commands : List Command}
  {command : Command}

theorem CommandStep.consistent (step : CommandStep config before command after)
    (consistent : Consistent config before) (accepted : config.Accepted) :
    Consistent config after := by
  obtain ⟨legal, output, step⟩ := step
  cases command with
  | fork pid =>
      obtain ⟨forked, step', kept, -⟩ := consistent.fork legal.1 legal.2
      rw [step] at step'
      exact (Prod.mk.inj (Option.some.inj step')).1 ▸ kept
  | load pid va =>
      obtain ⟨loaded, step', kept, -⟩ := consistent.load accepted legal va
      rw [step] at step'
      exact (Prod.mk.inj (Option.some.inj step')).1 ▸ kept
  | store pid va val =>
      obtain ⟨middle, stored, step', kept, -⟩ := consistent.store accepted legal va val
      rw [step] at step'
      exact (Prod.mk.inj (Option.some.inj step')).1 ▸ kept

theorem Reaches.consistent (reaches : Reaches config commands state) (accepted : config.Accepted) :
    Consistent config state :=
  reaches.invariant (.simInit accepted) fun consistent step => step.consistent consistent accepted

private theorem Consistent.answers (consistent : Consistent config state)
    (accepted : config.Accepted) : (∀ pid va, (state.procList pid.toNat).pagetable ≠ none →
      ∃ after, simCommand config state (.load pid va) =
        some (after, some (lastStored commands pid va))) ↔ Agrees config state commands := by
  refine forall₂_congr fun pid va => forall_congr' fun forked => ?_
  obtain ⟨loaded, step, -⟩ := consistent.load accepted forked va
  simp [step]

/-- Only forked processes have stored anything. -/
theorem Reaches.unforked (reaches : Reaches config commands state) (accepted : config.Accepted) :
    ∀ pid va, (state.procList pid.toNat).pagetable = none → lastStored commands pid va = 0 := by
  induction reaches with
  | nil => exact fun _ _ _ => rfl
  | snoc earlier step ih =>
      intro pid va unforked
      have consistent := Reaches.consistent earlier accepted
      obtain ⟨legal, output, step⟩ := step
      rename Command => command
      cases command with
      | fork fresh =>
          obtain ⟨result, step', -, processes, -⟩ := consistent.fork legal.1 legal.2
          obtain rfl := (Prod.mk.inj (Option.some.inj (step.symm.trans step'))).1
          rw [lastStored_fork]
          refine ih pid va (by_contra fun forked => ?_)
          exact (processes pid.toNat).mpr (.inr forked) unforked
      | load loading address =>
          obtain ⟨loaded, step', -, procList, -⟩ := consistent.load accepted legal address
          obtain rfl := (Prod.mk.inj (Option.some.inj (step.symm.trans step'))).1
          rw [lastStored_load]
          exact ih pid va (procList ▸ unforked)
      | store storing address val =>
          obtain ⟨middle, stored, step', -, procList, -⟩ :=
            consistent.store accepted legal address val
          obtain rfl := (Prod.mk.inj (Option.some.inj (step.symm.trans step'))).1
          rw [procList] at unforked
          rw [lastStored_store, if_neg, ih pid va unforked]
          rintro ⟨rfl, -⟩
          exact legal unforked

/-- A command that loses no page keeps the bytes as they were stored. -/
theorem CommandStep.agrees (step : CommandStep config before command after)
    (reaches : Reaches config commands before) (accepted : config.Accepted)
    (lossless : command.loses config before.toOs = false)
    (agrees : Agrees config before commands) :
    Agrees config after (commands ++ [command]) := by
  intro pid va forked
  have consistent := reaches.consistent accepted
  have inside := accepted.vaddrOffset_lt va
  obtain ⟨legal, output, step⟩ := step
  cases command with
  | fork fresh =>
      obtain ⟨result, step', -, processes, empty, others⟩ := consistent.fork legal.1 legal.2
      obtain rfl := (Prod.mk.inj (Option.some.inj (step.symm.trans step'))).1
      rw [lastStored_fork]
      by_cases same : pid = fresh
      · subst same
        rw [empty, reaches.unforked accepted pid va legal.2]
      · have other : pid.toNat ≠ fresh.toNat := fun equal => same (UInt32.toNat.inj equal)
        rw [others _ other]
        exact agrees pid va (((processes _).mp forked).resolve_left other)
  | load loading address =>
      obtain ⟨loaded, step', -, procList, carried⟩ := consistent.load accepted legal address
      obtain rfl := (Prod.mk.inj (Option.some.inj (step.symm.trans step'))).1
      rw [procList] at forked
      obtain ⟨table, pagetable⟩ := Option.ne_none_iff_exists'.mp forked
      rw [lastStored_load, carried.kept lossless pagetable _ inside]
      exact agrees pid va forked
  | store storing address val =>
      obtain ⟨middle, stored, step', -, procList, carried, content⟩ :=
        consistent.store accepted legal address val
      obtain rfl := (Prod.mk.inj (Option.some.inj (step.symm.trans step'))).1
      rw [procList] at forked
      obtain ⟨table, pagetable⟩ := Option.ne_none_iff_exists'.mp forked
      rw [lastStored_store, content _ _ inside, carried.kept lossless pagetable _ inside,
        agrees pid va forked]
      refine if_congr ?_ rfl rfl
      constructor
      · rintro ⟨samePid, page, offset⟩
        exact ⟨(UInt32.toNat.inj samePid).symm, (Config.vaddr_ext page offset).symm⟩
      · rintro ⟨rfl, rfl⟩
        exact ⟨rfl, rfl, rfl⟩

private theorem Carried.lostAddress {pid : UInt32} {vpn : Vpn} {final : Os}
    (carried : Carried config before.toOs pid vpn final)
    (consistent : Consistent config before) (accepted : config.Accepted)
    (loses : losesPage config before.toOs pid vpn = true) :
    ∃ owner va, (before.procList owner.toNat).pagetable ≠ none ∧
      ¬(owner = pid ∧ config.vaddrPagenum va = vpn) ∧
      before.content config owner.toNat (config.vaddrPagenum va) (config.vaddrOffset va) ≠ 0 ∧
      final.content config owner.toNat (config.vaddrPagenum va) (config.vaddrOffset va) = 0 := by
  obtain ⟨pcb, table, page, k, pagetable, inTable, inside, different, nonzero, zero⟩ :=
    carried.lost loses
  obtain ⟨va, rfl, rfl⟩ := accepted.exists_vaddr inTable inside
  obtain ⟨own, -⟩ := consistent.invariant.processes.pid pagetable
  refine ⟨(before.procList pcb).pid, va, by simp [own, pagetable], fun same => ?_, by rwa [own],
    by rwa [own]⟩
  exact different ⟨by rw [← same.1, own], same.2⟩

/-- After a command that loses a page some byte is not the one that was stored. -/
theorem CommandStep.disagrees (step : CommandStep config before command after)
    (consistent : Consistent config before) (accepted : config.Accepted)
    (loses : command.loses config before.toOs = true) (agrees : Agrees config before commands) :
    ¬Agrees config after (commands ++ [command]) := by
  intro agreesAfter
  obtain ⟨legal, output, step⟩ := step
  cases command with
  | fork => cases loses
  | load loading address =>
      obtain ⟨loaded, step', -, procList, carried⟩ := consistent.load accepted legal address
      obtain rfl := (Prod.mk.inj (Option.some.inj (step.symm.trans step'))).1
      obtain ⟨pid, va, forked, -, nonzero, zero⟩ := carried.lostAddress consistent accepted loses
      have kept := agreesAfter pid va (by rwa [procList])
      rw [lastStored_load, zero, ← agrees pid va forked] at kept
      exact nonzero kept.symm
  | store storing address val =>
      obtain ⟨middle, stored, step', -, procList, carried, content⟩ :=
        consistent.store accepted legal address val
      obtain rfl := (Prod.mk.inj (Option.some.inj (step.symm.trans step'))).1
      obtain ⟨pid, va, forked, different, nonzero, zero⟩ :=
        carried.lostAddress consistent accepted loses
      have kept := agreesAfter pid va (by rwa [procList])
      rw [content _ _ (accepted.vaddrOffset_lt va), if_neg, zero, lastStored_store, if_neg,
        ← agrees pid va forked] at kept
      · exact nonzero kept.symm
      · rintro ⟨rfl, rfl⟩
        exact different ⟨rfl, rfl⟩
      · rintro ⟨same, page, -⟩
        exact different ⟨UInt32.toNat.inj same, page⟩

/-- The loads that may follow any part of a sequence of legal commands return the bytes last stored
if and only if no command of the sequence faults into a frame whose page is not dirty but has a
nonzero byte. -/
theorem coherent_iff_lossless (accepted : config.Accepted) (commands : List Command) :
    Coherent config commands ↔ Lossless config commands := by
  constructor
  · intro coherent earlier command part before after reaches step
    have consistent := reaches.consistent accepted
    have agrees := (consistent.answers accepted).mp
      (coherent earlier ((List.prefix_append _ _).trans part) before reaches)
    have agreesAfter := ((step.consistent consistent accepted).answers accepted).mp
      (coherent _ part after (reaches.snoc step))
    by_contra loses
    exact step.disagrees consistent accepted (by simpa using loses) agrees agreesAfter
  · intro lossless earlier part state reaches
    refine ((reaches.consistent accepted).answers accepted).mpr ?_
    induction reaches with
    | nil =>
        intro pid va forked
        exact absurd rfl forked
    | snoc reached step ih =>
        exact step.agrees reached accepted (lossless _ _ part _ _ reached step)
          (ih ((List.prefix_append _ _).trans part))

end Runs

/-- The settings of `-m 1`: one frame of two bytes. -/
def oneFrame : Config := { Config.defaults with memSize := 2 }

/-- With one frame, a byte that was saved is read again. -/
theorem coherent_iff_lossless_oneFrame :
    (∃ state after, Reaches oneFrame [.fork 0, .store 0 0 1, .load 0 2] state ∧
      simCommand oneFrame state (.load 0 0) = some (after, some 1)) ∧
    (Coherent oneFrame [.fork 0, .store 0 0 1, .load 0 2, .load 0 0] ↔
      Lossless oneFrame [.fork 0, .store 0 0 1, .load 0 2, .load 0 0]) := by
  obtain ⟨state, folds, load⟩ := (Option.any_eq_true _ _).mp (by decide +kernel :
    ([.fork 0, .store 0 0 1, .load 0 2].foldlM (legalCommand oneFrame) simInit).any (fun state =>
      (simCommand oneFrame state (.load 0 0)).any fun result => result.2 = some 1) = true)
  obtain ⟨⟨after, output⟩, step, one⟩ := (Option.any_eq_true _ _).mp load
  obtain rfl : output = some 1 := of_decide_eq_true one
  exact ⟨⟨state, after, reaches_of_foldlM folds, step⟩,
    coherent_iff_lossless ⟨[.memSize 1], some "references", rfl⟩ _⟩

/-- With one frame, a byte stored to a page that a load brought in is lost when the next page is
loaded; and so is a byte that was saved once, when its page is evicted for the second time. -/
theorem stored_byte_lost :
    oneFrame.Accepted ∧
    (∃ state after,
      Reaches oneFrame [.fork 0, .load 0 0, .store 0 0 1, .load 0 2] state ∧
        simCommand oneFrame state (.load 0 0) = some (after, some 0) ∧
        lastStored [.fork 0, .load 0 0, .store 0 0 1, .load 0 2] 0 0 = 1) ∧
    ∃ state after,
      Reaches oneFrame [.fork 0, .store 0 0 1, .load 0 2, .load 0 0, .load 0 2] state ∧
        simCommand oneFrame state (.load 0 0) = some (after, some 0) ∧
        lastStored [.fork 0, .store 0 0 1, .load 0 2, .load 0 0, .load 0 2] 0 0 = 1 := by
  have loaded : ∀ commands : List Command,
      (commands.foldlM (legalCommand oneFrame) simInit).any (fun state =>
        (simCommand oneFrame state (.load 0 0)).any fun result => result.2 = some 0) = true →
      ∃ state after, Reaches oneFrame commands state ∧
        simCommand oneFrame state (.load 0 0) = some (after, some 0) := by
    intro commands runs
    obtain ⟨state, folds, load⟩ := (Option.any_eq_true _ _).mp runs
    obtain ⟨⟨after, output⟩, step, zero⟩ := (Option.any_eq_true _ _).mp load
    obtain rfl : output = some 0 := of_decide_eq_true zero
    exact ⟨state, after, reaches_of_foldlM folds, step⟩
  refine ⟨⟨[.memSize 1], some "references", rfl⟩, ?_, ?_⟩
  · obtain ⟨state, after, reaches, load⟩ :=
      loaded [.fork 0, .load 0 0, .store 0 0 1, .load 0 2] (by decide +kernel)
    exact ⟨state, after, reaches, load, by decide⟩
  · obtain ⟨state, after, reaches, load⟩ :=
      loaded [.fork 0, .store 0 0 1, .load 0 2, .load 0 0, .load 0 2] (by decide +kernel)
    exact ⟨state, after, reaches, load, by decide⟩

end CS2200.VirtualMemory
