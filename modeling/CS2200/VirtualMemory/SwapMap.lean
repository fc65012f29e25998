import CS2200.VirtualMemory.Steps

/-!
# The swap list is a finite map

`page_to_disk` pushes blindly and `page_from_disk` unlinks the first match. Along every run the
calls of the two are logged, and the swap list is compared with the abstract map which holds for
each page the bytes that were saved last and not restored since.
-/

namespace CS2200.VirtualMemory

open Ledger

/-- The key of a saved page. -/
def SwapPage.key (saved : SwapPage) : UInt32 × Vpn := (saved.pid, saved.vpn)

/-- A call of `page_to_disk`, with the page it saves, or of `page_from_disk`, with its key. -/
abbrev DiskEvent := Ledger.Event SwapPage (UInt32 × Vpn)

/-- The call of `page_to_disk` by `pagefault_handler` for the frame that it chose. -/
def victimEvents (config : Config) (os : Os) (pfn : Pfn) : List DiskEvent :=
  ((os.rlt pfn.toNat).pcb.bind fun owner =>
    (os.pte owner (os.rlt pfn.toNat).vpn).bind fun victim =>
      if victim.valid && victim.dirty then
        some (.save
          { pid := (os.procList owner).pid
            vpn := (os.rlt pfn.toNat).vpn
            data := os.page config pfn })
      else none).toList

/-- The disk accesses of `pagefault_handler`. -/
def faultEvents (config : Config) (os : Os) (current : Nat) (request : Vpn) : List DiskEvent :=
  match getFreeFrame config os with
  | none => []
  | some (swept, pfn) =>
      victimEvents config swept pfn ++ [.restore ((os.procList current).pid, request)]

/-- The disk accesses of a translation. -/
def lookupEvents (config : Config) (os : Os) (vpn : Vpn) : List DiskEvent :=
  match os.current with
  | none => []
  | some current =>
      if (os.pte current vpn).any fun pte => pte.valid then []
      else faultEvents config { os with countPagefaults := os.countPagefaults + 1 } current vpn

/-- The disk accesses of an action. -/
def Action.events (config : Config) (os : Os) : Action → List DiskEvent
  | .fork _ | .switch _ => []
  | .load va | .store va _ => lookupEvents config os (config.vaddrPagenum va)

/-- The state after a sequence of actions and the log of its disk accesses. -/
def logged (config : Config) (actions : List Action) : Option State × List DiskEvent :=
  actions.foldl
    (fun run action =>
      match run.1 with
      | none => run
      | some state =>
          ((act config state action).map Prod.fst, run.2 ++ action.events config state.toOs))
    (some simInit, [])

/-- The log of the disk accesses of a sequence of actions. -/
def diskLog (config : Config) (actions : List Action) : List DiskEvent := (logged config actions).2

section Log

variable {config : Config} {actions : List Action} {state : State}

theorem logged_snoc (actions : List Action) (action : Action) :
    logged config (actions ++ [action]) =
      match (logged config actions).1 with
      | none => logged config actions
      | some state => ((act config state action).map Prod.fst,
          (logged config actions).2 ++ action.events config state.toOs) := by
  simp [logged, List.foldl_append]

private theorem logged_state (trace : Trace (LegalStep config) simInit actions state) :
    (logged config actions).1 = some state := by
  induction trace with
  | nil => rfl
  | snoc earlier step ih =>
      obtain ⟨-, output, step⟩ := step
      simp [logged_snoc, ih, step]

private theorem diskLog_snoc (trace : Trace (LegalStep config) simInit actions state)
    (action : Action) : diskLog config (actions ++ [action]) =
      diskLog config actions ++ action.events config state.toOs := by
  simp [diskLog, logged_snoc, logged_state trace]

end Log

/-! ## Page faults -/

theorem SwapPage.holds_eq (pid : UInt32) (vpn : Vpn) :
    SwapPage.holds pid vpn = fun saved => decide (saved.key = (pid, vpn)) := by
  funext saved
  simp [SwapPage.holds, SwapPage.key, Bool.decide_and, beq_eq_decide]

section Fault

variable {config : Config} {before after : Os} {pfn : Pfn} {pending : UInt32 × Vpn → Option SwapPage}

private theorem Swapped.not_pending (swapped : Swapped before)
    (represents : Represents SwapPage.key before.swapfile pending) {pid : UInt32} {vpn : Vpn}
    (present : ∀ pte, before.pte pid.toNat vpn = some pte → pte.valid = true) :
    pending (pid, vpn) = none := by
  rw [← represents.find]
  refine List.find?_eq_none.mpr fun saved member same => ?_
  obtain ⟨rfl, rfl⟩ := Prod.mk.inj (of_decide_eq_true same)
  obtain ⟨pte, entry, absent⟩ := swapped.absent saved member
  rw [present pte entry] at absent
  cases absent

/-- Vacating a frame performs its events on the swap list. -/
theorem Vacated.represents (step : Vacated config before pfn after)
    (represents : Represents SwapPage.key before.swapfile pending) (swapped : Swapped before)
    (owned : Owned config noHole before) (processes : Processes config before) :
    after.swapfile = (victimEvents config before pfn).foldl (apply SwapPage.key) before.swapfile ∧
      Represents SwapPage.key after.swapfile
        ((victimEvents config before pfn).foldl (record SwapPage.key) pending) := by
  cases step with
  | free vacant => simpa [victimEvents, vacant] using represents
  | @evicted pcb table owner pagetable =>
      obtain ⟨victim, entry, valid, -⟩ := owned.owner id owner
      obtain rfl := Option.some.inj ((Os.pte_of_forked pagetable _).symm.trans entry)
      obtain ⟨own, -⟩ := processes.pid pagetable
      by_cases dirty : (before.tables table (before.rlt pfn.toNat).vpn).dirty = true
      · have events : victimEvents config before pfn = [.save
            { pid := (before.procList pcb).pid
              vpn := (before.rlt pfn.toNat).vpn
              data := before.page config pfn }] := by
          simp [victimEvents, owner, entry, valid, dirty]
        have fits : pending ((before.procList pcb).pid, (before.rlt pfn.toNat).vpn) = none := by
          refine swapped.not_pending represents fun pte found => ?_
          rw [own, entry] at found
          exact Option.some.inj found ▸ valid
        rw [events, evictPage_swapfile, if_pos dirty]
        exact ⟨rfl, represents.apply (.save
          ⟨(before.procList pcb).pid, (before.rlt pfn.toNat).vpn, before.page config pfn⟩) fits⟩
      · have events : victimEvents config before pfn = [] := by
          simp [victimEvents, owner, entry, valid, dirty]
        rw [events, evictPage_swapfile, if_neg dirty]
        exact ⟨rfl, represents⟩

theorem pageFromDisk_apply (config : Config) (os : Os) (pfn : Pfn) (vpn : Vpn) (pid : UInt32) :
    (pageFromDisk config os pfn vpn pid).swapfile =
      apply SwapPage.key os.swapfile (.restore (pid, vpn)) := by
  rw [pageFromDisk_swapfile, SwapPage.holds_eq, apply]

private theorem Faulted.represents {current : Nat} {request : Vpn} {write : Bool}
    {swept vacated : Os}
    (fault : Faulted config before current request write pfn swept vacated after)
    (represents : Represents SwapPage.key before.swapfile pending) (swapped : Swapped before)
    (owned : Owned config noHole before) (processes : Processes config before) :
    after.swapfile =
        (faultEvents config before current request).foldl (apply SwapPage.key) before.swapfile ∧
      Represents SwapPage.key after.swapfile
        ((faultEvents config before current request).foldl (record SwapPage.key) pending) := by
  have sweep := fault.only.sameProcesses
  rw [← fault.only.swapfile] at represents ⊢
  obtain ⟨list, kept⟩ := fault.vacates.represents represents (fault.only.swapped swapped)
    (owned.of_usedOnly fault.only) (processes.of_sameProcesses sweep)
  obtain ⟨table, -, rfl⟩ := fault.filled
  have events : faultEvents config before current request =
      victimEvents config swept pfn ++ [.restore ((before.procList current).pid, request)] := by
    simp [faultEvents, fault.free]
  have restored : (assignFrame vacated current table pfn request write).swapfile =
      vacated.swapfile := rfl
  rw [events, List.foldl_append, List.foldl_append, ← list, pageFromDisk_apply, restored]
  exact ⟨rfl, kept.apply (.restore _) trivial⟩

end Fault

section Runs

variable {config : Config} {actions : List Action} {before after state : State} {action : Action}
  {pending : UInt32 × Vpn → Option SwapPage}

private theorem Translated.represents {current : Nat} {vpn : Vpn} {write : Bool} {pfn : Pfn}
    {looked : Os} (step : Translated config before.toOs current vpn write pfn looked)
    (running : before.current = some current)
    (represents : Represents SwapPage.key before.swapfile pending)
    (consistent : Consistent config before) :
    looked.swapfile =
        (lookupEvents config before.toOs vpn).foldl (apply SwapPage.key) before.swapfile ∧
      Represents SwapPage.key looked.swapfile
        ((lookupEvents config before.toOs vpn).foldl (record SwapPage.key) pending) := by
  obtain ⟨⟨processes, owned, -⟩, swapped, -⟩ := consistent
  generalize before.toOs = os at *
  unfold lookupEvents
  split
  case h_1 idle =>
    rw [running] at idle
    cases idle
  case h_2 owner isRunning =>
    obtain rfl := Option.some.inj (running.symm.trans isRunning)
    cases step with
    | resident entry valid => simpa [entry, valid] using represents
    | faulted absent fault =>
        have gone : ((os.pte current vpn).any fun pte => pte.valid) = false := by
          cases entry : os.pte current vpn with
          | none => rfl
          | some pte => exact absent pte entry
        simp only [gone, Bool.false_eq_true, if_false]
        exact fault.represents represents ⟨swapped.unique, swapped.absent⟩
          ⟨owned.owner, owned.resident⟩ (processes.of_sameProcesses ⟨rfl, rfl, rfl, rfl⟩)

/-- Every action performs its events on the swap list. -/
theorem Effect.represents (effect : Effect config before.toOs action after.toOs)
    (represents : Represents SwapPage.key before.swapfile pending)
    (consistent : Consistent config before) :
    after.swapfile =
        (action.events config before.toOs).foldl (apply SwapPage.key) before.swapfile ∧
      Represents SwapPage.key after.swapfile
        ((action.events config before.toOs).foldl (record SwapPage.key) pending) := by
  generalize after.toOs = final at *
  cases effect with
  | fork _ _ _ swapfile =>
      rw [swapfile]
      exact ⟨rfl, represents⟩
  | switch same =>
      rw [same.swapfile]
      exact ⟨rfl, represents⟩
  | load running step same =>
      rw [same.swapfile]
      exact step.represents running represents consistent
  | store running step _ _ _ same =>
      rw [same.swapfile]
      exact step.represents running represents consistent

private theorem represents_of_trace (accepted : config.Accepted)
    (trace : Trace (LegalStep config) simInit actions state) :
    state.swapfile = replay SwapPage.key (diskLog config actions) ∧
      Represents SwapPage.key state.swapfile (Ledger.pending SwapPage.key (diskLog config actions)) := by
  induction trace with
  | nil => exact ⟨rfl, .nil⟩
  | snoc earlier step ih =>
      obtain ⟨list, represents⟩ := ih
      have consistent := Consistent.of_trace accepted earlier
      obtain ⟨-, effect⟩ := (step.clean consistent).effect consistent accepted
      rw [diskLog_snoc earlier, replay_append, pending_append, ← list]
      exact effect.represents represents consistent

end Runs

/-! ## The run theorem -/

/-- What one call of `page_from_disk` does, where `log` holds the calls before it. -/
structure Restores (config : Config) (log : List DiskEvent) (os : Os) (pfn : Pfn) (vpn : Vpn)
    (pid : UInt32) : Prop where
  /-- The frame receives the bytes that were saved last and not restored since, zeros if none. -/
  bytes : ∀ k < config.pageSize,
    (pageFromDisk config os pfn vpn pid).memory (pfn.toNat * config.pageSize + k) =
      (pending SwapPage.key log (pid, vpn)).elim 0 fun saved => saved.data.getD k 0
  /-- No entry of the page is left, and all others are. -/
  unlinked : (pageFromDisk config os pfn vpn pid).swapfile =
    os.swapfile.filter fun saved => !saved.holds pid vpn
  /-- The other frames keep their bytes. -/
  others : ∀ address, address < pfn.toNat * config.pageSize ∨
    pfn.toNat * config.pageSize + config.pageSize ≤ address →
    (pageFromDisk config os pfn vpn pid).memory address = os.memory address

/-- A list that represents its log is restored as the log says. -/
theorem restores_of_represents {config : Config} {log : List DiskEvent} {os : Os}
    (represents : Represents SwapPage.key os.swapfile (pending SwapPage.key log)) (pfn : Pfn)
    (vpn : Vpn) (pid : UInt32) : Restores config log os pfn vpn pid where
  bytes k inside := by
    rw [pageFromDisk_memory, if_pos ⟨Nat.le_add_right .., Nat.add_lt_add_left inside _⟩,
      Nat.add_sub_cancel_left, Os.saved, SwapPage.holds_eq, represents.find]
  unlinked := by rw [pageFromDisk_apply, represents.apply_restore, SwapPage.holds_eq]
  others address outside := by
    rw [pageFromDisk_memory, if_neg]
    omega

/-- The calls that `pagefault_handler` makes for the running process. -/
theorem Invariant.pagefaultHandler_calls {config : Config} {state : State}
    (invariant : Invariant config state) (positive : 0 < config.numFrames) {current : Nat}
    (running : state.current = some current) (request : Vpn) (write : Bool) :
    ∃ after swept pfn evicted table,
      pagefaultHandler config state request write = some (after, pfn) ∧
      getFreeFrame config state.toOs = some (swept, pfn) ∧
      evictVictim config { state with toOs := swept } pfn = some evicted ∧
      (state.procList current).pagetable = some table ∧
      after.toOs = pageFromDisk config (assignFrame evicted.toOs current table pfn request write)
        pfn request (state.procList current).pid ∧
      Vacated config swept pfn evicted.toOs := by
  obtain ⟨after, pfn, handler⟩ :=
    invariant.ready.pagefaultHandler_isSome positive running request write
  obtain ⟨swept, evicted, table, free, -, evict, vacates, pagetable, filled⟩ :=
    invariant.of_pagefaultHandler running handler
  exact ⟨after, swept, pfn, evicted, table, handler, free, evict, pagetable, filled, vacates⟩

/-- In every state that legal actions reach: the swap list has at most one entry for a page and none
for a resident page; it is what the logged calls of `page_to_disk` and `page_from_disk` leave; and
when the running process faults on an absent page, the handler's call of `page_from_disk`, after the
victim was saved, copies the bytes into the frame that were saved last for the page and not restored
since, unlinks the entry of the page, and changes nothing else. -/
theorem swap_list_map {config : Config} (accepted : config.Accepted) {actions : List Action}
    {state : State} (trace : Trace (LegalStep config) simInit actions state) :
    (state.swapfile.Pairwise fun first second =>
      ¬(first.pid = second.pid ∧ first.vpn = second.vpn)) ∧
    (∀ saved ∈ state.swapfile, ∃ pte,
      state.pte saved.pid.toNat saved.vpn = some pte ∧ pte.valid = false) ∧
    state.swapfile = replay SwapPage.key (diskLog config actions) ∧
    ∀ current request write, state.current = some current →
      (∀ pte, state.pte current request = some pte → pte.valid = false) →
      ∃ after swept pfn evicted table,
        pagefaultHandler config { state with countPagefaults := state.countPagefaults + 1 }
          request write = some (after, pfn) ∧
        getFreeFrame config { state.toOs with countPagefaults := state.countPagefaults + 1 } =
          some (swept, pfn) ∧
        evictVictim config { state with toOs := swept } pfn = some evicted ∧
        (state.procList current).pagetable = some table ∧
        after.toOs = pageFromDisk config (assignFrame evicted.toOs current table pfn request write)
          pfn request (state.procList current).pid ∧
        Restores config (diskLog config actions ++ victimEvents config swept pfn)
          (assignFrame evicted.toOs current table pfn request write) pfn request
          (state.procList current).pid := by
  have consistent := Consistent.of_trace accepted trace
  obtain ⟨list, represents⟩ := represents_of_trace accepted trace
  refine ⟨consistent.swapped.unique, consistent.swapped.absent, list,
    fun current request write running absent => ?_⟩
  have counted := consistent.invariant.counted
  obtain ⟨after, swept, pfn, evicted, table, handler, free, evict, pagetable, restored, vacates⟩ :=
    counted.pagefaultHandler_calls accepted.numFrames_pos running request write
  refine ⟨after, swept, pfn, evicted, table, handler, free, evict, pagetable, restored, ?_⟩
  have only := getFreeFrame_usedOnly free
  have swapped : Swapped swept := by
    refine only.swapped ?_
    exact ⟨consistent.swapped.unique, consistent.swapped.absent⟩
  have sweptRepresents : Represents SwapPage.key swept.swapfile
      (pending SwapPage.key (diskLog config actions)) := by
    rw [only.swapfile]
    exact represents
  have kept := (vacates.represents sweptRepresents swapped (counted.owned.of_usedOnly only)
    (counted.processes.of_sameProcesses only.sameProcesses)).2
  rw [← pending_append] at kept
  refine restores_of_represents ?_ pfn request _
  exact kept

/-- A page that was saved, read back and not saved again. -/
theorem swap_list_map_oneFrame :
    ∃ state, Trace (LegalStep oneFrame) simInit
        [.fork 0, .switch 0, .store 0 1, .load 2, .load 0] state ∧
      (state.swapfile.Pairwise fun first second =>
        ¬(first.pid = second.pid ∧ first.vpn = second.vpn)) ∧
      state.swapfile = replay SwapPage.key
        (diskLog oneFrame [.fork 0, .switch 0, .store 0 1, .load 2, .load 0]) := by
  obtain ⟨state, folds⟩ := Option.isSome_iff_exists.mp (by decide +kernel :
    (List.foldlM (legalAct oneFrame) simInit
      [.fork 0, .switch 0, .store 0 1, .load 2, .load 0]).isSome = true)
  have trace := legalTrace_of_foldlM folds
  have map := swap_list_map ⟨[.memSize 1], some "references", rfl⟩ trace
  exact ⟨state, trace, map.1, map.2.2.1⟩

end CS2200.VirtualMemory
