import CS2200.VirtualMemory.Steps

/-!
# Free frames

`get_free_frame` finds the first free frame, but returns its number in 16 bits. In a memory of more
than 65536 frames the first free one may be beyond them. The frame that is returned is then occupied,
and its page is evicted.
-/

namespace CS2200.VirtualMemory

/-- `get_free_frame` returns a free frame, `pagefault_handler` invalidates no page, and it calls
`page_to_disk` for none. -/
structure UsesFreeFrame (config : Config) (state : State) : Prop where
  /-- The frame. -/
  chosen : ∃ pfn, getFreeFrame config state.toOs = some (state.toOs, pfn) ∧
    pfn.toNat < config.numFrames ∧ (state.rlt pfn.toNat).pcb = none
  /-- Valid pages stay valid. -/
  valid : ∀ vpn write after pfn, pagefaultHandler config state vpn write = some (after, pfn) →
    ∀ table page, (state.tables table page).valid = true → (after.tables table page).valid = true
  /-- No page is saved. -/
  saved : ∀ vpn write after pfn, pagefaultHandler config state vpn write = some (after, pfn) →
    after.swapfile.Sublist state.swapfile

section FreeFrames

variable {config : Config} {state : State}

theorem getFreeFrame_of_free {frame : Nat} (inRange : frame < config.numFrames)
    (free : (state.rlt frame).pcb = none)
    (occupied : ∀ other < frame, (state.rlt other).pcb ≠ none) :
    getFreeFrame config state.toOs = some (state.toOs, .ofNat frame) := by
  have first : (List.range config.numFrames).find? (fun other => (state.rlt other).pcb = none) =
      some frame := by
    rw [List.find?_range_eq_some]
    exact ⟨by simpa using free, List.mem_range.mpr inRange, fun other before => by
      simpa using occupied other before⟩
  unfold getFreeFrame
  rw [first]

theorem exists_first_free (free : ∃ frame < config.numFrames, (state.rlt frame).pcb = none) :
    ∃ frame < config.numFrames, (state.rlt frame).pcb = none ∧
      ∀ other < frame, (state.rlt other).pcb ≠ none := by
  obtain ⟨inRange, vacant⟩ := Nat.find_spec free
  exact ⟨Nat.find free, inRange, vacant, fun other before vacantBefore =>
    Nat.find_min free before ⟨Nat.lt_trans before inRange, vacantBefore⟩⟩

private theorem pageFromDisk_swapfile_sublist (os : Os) (pfn : Pfn) (vpn : Vpn) (pid : UInt32) :
    (pageFromDisk config os pfn vpn pid).swapfile.Sublist os.swapfile := by
  unfold pageFromDisk
  split
  · exact List.Sublist.refl _
  · exact List.eraseP_sublist

/-- A page fault that is given a free frame evicts nothing. -/
theorem pagefaultHandler_of_free {pfn : Pfn}
    (free : getFreeFrame config state.toOs = some (state.toOs, pfn))
    (vacant : (state.rlt pfn.toNat).pcb = none) {vpn : Vpn} {write : Bool} {after : State}
    {victim : Pfn} (step : pagefaultHandler config state vpn write = some (after, victim)) :
    (∀ table page, (state.tables table page).valid = true →
        (after.tables table page).valid = true) ∧
      after.swapfile.Sublist state.swapfile := by
  obtain ⟨-, swept, evicted, installed, free', -, evict, install, rfl⟩ :=
    pagefaultHandler_eq_some.mp step
  obtain ⟨rfl, rfl⟩ := Prod.mk.inj (Option.some.inj (free.symm.trans free'))
  obtain rfl : state = evicted := by simpa [evictVictim, vacant] using evict
  obtain ⟨current, register, -, -, rfl⟩ := installPage_eq_some.mp install
  refine ⟨fun table page valid => ?_, pageFromDisk_swapfile_sublist ..⟩
  rw [pageFromDisk_tables]
  by_cases requested : table = register ∧ page = vpn
  · obtain ⟨rfl, rfl⟩ := requested
    simp [assignFrame]
  · rw [assignFrame_other _ _ _ _ requested]
    exact valid

/-- As long as some frame is free, `get_free_frame` returns a free frame and nothing is evicted if
and only if a frame below 65536 is free. -/
theorem usesFreeFrame_iff (free : ∃ frame < config.numFrames, (state.rlt frame).pcb = none) :
    UsesFreeFrame config state ↔
      ∃ frame < config.numFrames, frame < 65536 ∧ (state.rlt frame).pcb = none := by
  constructor
  · rintro ⟨⟨pfn, -, inRange, vacant⟩, -, -⟩
    exact ⟨pfn.toNat, inRange, pfn.toNat_lt, vacant⟩
  · rintro ⟨low, -, small, lowVacant⟩
    obtain ⟨frame, inRange, vacant, occupied⟩ := exists_first_free free
    have first : frame ≤ low := Nat.not_lt.mp fun before => occupied low before lowVacant
    have number : (UInt16.ofNat frame).toNat = frame := by
      rw [UInt16.toNat_ofNat', Nat.mod_eq_of_lt (Nat.lt_of_le_of_lt first small)]
    have chosen := getFreeFrame_of_free inRange vacant occupied
    rw [← number] at inRange vacant
    exact ⟨⟨_, chosen, inRange, vacant⟩,
      fun _ _ _ _ step => (pagefaultHandler_of_free chosen vacant step).1,
      fun _ _ _ _ step => (pagefaultHandler_of_free chosen vacant step).2⟩

/-- Two processes have filled three of the eight frames. -/
theorem usesFreeFrame_iff_twoProcesses :
    ∃ state, Trace (LegalStep .defaults) simInit
        [.fork 0, .fork 1, .switch 0, .load 0, .store 2 7, .switch 1, .load 0] state ∧
      (∀ frame < 3, (state.rlt frame).pcb ≠ none) ∧
      (UsesFreeFrame .defaults state ↔
        ∃ frame < Config.defaults.numFrames, frame < 65536 ∧ (state.rlt frame).pcb = none) := by
  obtain ⟨state, folds, frames⟩ := (Option.any_eq_true _ _).mp (by decide +kernel :
    ([.fork 0, .fork 1, .switch 0, .load 0, .store 2 7, .switch 1, .load 0].foldlM
      (legalAct .defaults) simInit).any (fun state =>
        (∀ frame < 3, (state.rlt frame).pcb ≠ none) ∧ (state.rlt 3).pcb = none) = true)
  obtain ⟨occupied, vacant⟩ := of_decide_eq_true frames
  exact ⟨state, legalTrace_of_foldlM folds, occupied, usesFreeFrame_iff ⟨3, by decide, vacant⟩⟩

end FreeFrames

/-! ## A run that fills 65536 frames -/

/-- The settings of `-m 20`: 524288 frames of two bytes. -/
def manyFrames : Config := { Config.defaults with memSize := 2 ^ 20 }

theorem manyFrames_accepted : manyFrames.Accepted :=
  ⟨[.memSize 20], some "references", rfl⟩

/-- Loads from the first pages of the address space. -/
def loads (count : Nat) : List Action :=
  (List.range count).map fun page => .load (.ofNat (2 * page))

/-- Two processes load from all of their pages, and a third one starts. -/
def fillFrames : List Action :=
  [.fork 0, .fork 1, .fork 2, .switch 0] ++ loads 32768 ++ [.switch 1] ++ loads 32768 ++ [.switch 2]

/-- The first frames hold the pages of the processes one after the other, and the others are
free. -/
structure Filled (os : Os) (count : Nat) : Prop where
  /-- Occupied frames. -/
  occupied : ∀ frame < count,
    os.rlt frame = { pcb := some (frame / 32768), vpn := .ofNat (frame % 32768) }
  /-- Free frames. -/
  vacant : ∀ frame, count ≤ frame → (os.rlt frame).pcb = none

section Fill

variable {config : Config} {actions : List Action} {state : State} {count : Nat}

/-- A run can be continued by any legal action. -/
theorem exists_effect (accepted : config.Accepted)
    (trace : Trace (LegalStep config) simInit actions state) (action : Action)
    (legal : action.Legal config state) :
    ∃ after, Trace (LegalStep config) simInit (actions ++ [action]) after ∧
      Effect config state.toOs action after.toOs := by
  have consistent := Consistent.of_trace accepted trace
  obtain ⟨after, step⟩ := consistent.invariant.act_total accepted legal
  exact ⟨after, trace.snoc step, ((step.clean consistent).effect consistent accepted).2⟩

theorem Filled.of_rlt {before after : Os} (filled : Filled before count)
    (same : after.rlt = before.rlt) : Filled after count where
  occupied frame inside := by
    rw [same]
    exact filled.occupied frame inside
  vacant frame beyond := by
    rw [same]
    exact filled.vacant frame beyond

private theorem Filled.absent (filled : Filled state.toOs count)
    (owned : Owned config noHole state.toOs)
    {pte : Pte} (entry : state.pte (count / 32768) (.ofNat (count % 32768)) = some pte) :
    pte.valid = false := by
  rw [← Bool.not_eq_true]
  intro valid
  obtain ⟨-, -, rlt⟩ := owned.resident entry valid
  rcases Nat.lt_or_ge pte.pfn.toNat count with inside | beyond
  · rw [filled.occupied _ inside] at rlt
    obtain ⟨process, page⟩ := Rlte.mk.inj rlt
    have number := congrArg UInt16.toNat page
    rw [UInt16.toNat_ofNat', UInt16.toNat_ofNat'] at number
    have owner := Option.some.inj process
    omega
  · have free := filled.vacant _ beyond
    rw [rlt] at free
    cases free

private theorem Filled.load (trace : Trace (LegalStep manyFrames) simInit actions state)
    (filled : Filled state.toOs count) (small : count < 65536)
    (running : state.current = some (count / 32768)) :
    ∃ after, Trace (LegalStep manyFrames) simInit
        (actions ++ [.load (.ofNat (2 * (count % 32768)))]) after ∧
      Filled after.toOs (count + 1) ∧ after.current = state.current ∧
        after.procList = state.procList := by
  have consistent := Consistent.of_trace manyFrames_accepted trace
  obtain ⟨after, continued, effect⟩ := exists_effect manyFrames_accepted trace
    (.load (.ofNat (2 * (count % 32768)))) (by simp [Action.Legal, running])
  refine ⟨after, continued, ?_⟩
  have page : manyFrames.vaddrPagenum (.ofNat (2 * (count % 32768))) = .ofNat (count % 32768) := by
    rw [Config.vaddrPagenum, UInt16.toNat_ofNat', Nat.mod_eq_of_lt (by omega)]
    congr 1
    exact Nat.mul_div_cancel_left _ (by decide)
  have owned := consistent.invariant.owned
  have absent := fun pte => @Filled.absent manyFrames state count filled owned pte
  generalize after.toOs = final at *
  cases effect with
  | @load _ current pfn looked _ running' step same sameCurrent =>
      obtain rfl := Option.some.inj (running.symm.trans running')
      rw [page] at step
      have processes := step.sameProcesses
      refine ⟨?_, sameCurrent, same.procList.trans processes.procList⟩
      refine Filled.of_rlt ?_ same.rlt
      cases step with
      | resident entry valid =>
          rw [absent _ entry] at valid
          cases valid
      | faulted _ fault =>
          have free : getFreeFrame manyFrames
              { state.toOs with countPagefaults := state.countPagefaults + 1 } = some
                ({ state.toOs with countPagefaults := state.countPagefaults + 1 }, .ofNat count) :=
            @getFreeFrame_of_free manyFrames
              { state with countPagefaults := state.countPagefaults + 1 } count
              (Nat.lt_trans small (by decide)) (filled.vacant count (Nat.le_refl _))
              fun other before => by
                have owner : (state.rlt other).pcb = some (other / 32768) := by
                  rw [filled.occupied other before]
                simp [owner]
          obtain ⟨-, rfl⟩ := Prod.mk.inj (Option.some.inj (fault.free.symm.trans free))
          have rlt := fault.rlt
          rw [UInt16.toNat_ofNat', Nat.mod_eq_of_lt small] at rlt
          constructor
          · intro frame inside
            rw [rlt]
            by_cases last : frame = count
            · subst last
              simp
            · rw [Function.update_of_ne last]
              exact filled.occupied frame (by omega)
          · intro frame beyond
            rw [rlt, Function.update_of_ne (by omega)]
            exact filled.vacant frame (by omega)

private theorem Filled.loads (trace : Trace (LegalStep manyFrames) simInit actions state)
    {process : Nat} (filled : Filled state.toOs (32768 * process)) (small : process < 2)
    (running : state.current = some process) :
    ∃ after, Trace (LegalStep manyFrames) simInit (actions ++ VirtualMemory.loads 32768) after ∧
      Filled after.toOs (32768 * (process + 1)) ∧ after.procList = state.procList := by
  have several : ∀ number ≤ 32768, ∃ after,
      Trace (LegalStep manyFrames) simInit (actions ++ VirtualMemory.loads number) after ∧
        Filled after.toOs (32768 * process + number) ∧ after.current = some process ∧
          after.procList = state.procList := by
    intro number
    induction number with
    | zero => exact fun _ => ⟨state, by simpa [VirtualMemory.loads] using trace, filled, running, rfl⟩
    | succ number ih =>
        intro bound
        obtain ⟨middle, earlier, part, stillRunning, same⟩ := ih (Nat.le_of_succ_le bound)
        have quotient : (32768 * process + number) / 32768 = process := by omega
        have remainder : (32768 * process + number) % 32768 = number := by omega
        obtain ⟨after, continued, more, sameCurrent, sameProcesses⟩ :=
          part.load earlier (by omega) (by rw [quotient, stillRunning])
        rw [remainder, List.append_assoc] at continued
        refine ⟨after, ?_, more, sameCurrent.trans stillRunning, sameProcesses.trans same⟩
        rwa [VirtualMemory.loads, List.range_succ, List.map_append]
  obtain ⟨after, continued, full, -, same⟩ := several 32768 (Nat.le_refl _)
  exact ⟨after, continued, full, same⟩

private theorem exists_fork (accepted : config.Accepted)
    (trace : Trace (LegalStep config) simInit actions state) {pid : UInt32}
    (inRange : pid.toNat < config.maxJobs) (fresh : (state.procList pid.toNat).pagetable = none) :
    ∃ after table, Trace (LegalStep config) simInit (actions ++ [.fork pid]) after ∧
      after.rlt = state.rlt ∧ after.procList =
        Function.update state.procList pid.toNat { pid, pagetable := some table } := by
  obtain ⟨after, continued, effect⟩ := exists_effect accepted trace (.fork pid) ⟨inRange, fresh⟩
  refine ⟨after, state.allocated, continued, ?_⟩
  generalize after.toOs = final at *
  cases effect with
  | fork _ _ rlt _ _ _ procList => exact ⟨rlt, procList⟩

private theorem exists_switch (accepted : config.Accepted)
    (trace : Trace (LegalStep config) simInit actions state) {pid : UInt32}
    (forked : (state.procList pid.toNat).pagetable ≠ none) :
    ∃ after, Trace (LegalStep config) simInit (actions ++ [.switch pid]) after ∧
      after.rlt = state.rlt ∧ after.procList = state.procList ∧
        after.current = some pid.toNat := by
  obtain ⟨after, continued, effect⟩ := exists_effect accepted trace (.switch pid) forked
  refine ⟨after, continued, ?_⟩
  generalize after.toOs = final at *
  cases effect with
  | switch same current => exact ⟨same.rlt, same.procList, current⟩

/-- The third process finds the first 65536 frames occupied. -/
theorem fillFrames_fills : ∃ state, Trace (LegalStep manyFrames) simInit fillFrames state ∧
    Filled state.toOs 65536 ∧ state.current = some 2 := by
  have accepted := manyFrames_accepted
  obtain ⟨first, firstTable, trace, firstRlt, firstList⟩ :=
    exists_fork accepted .nil (by decide : (0 : UInt32).toNat < manyFrames.maxJobs) rfl
  obtain ⟨second, secondTable, trace, secondRlt, secondList⟩ :=
    exists_fork accepted trace (by decide : (1 : UInt32).toNat < manyFrames.maxJobs)
      (by rw [firstList]; rfl)
  obtain ⟨third, thirdTable, trace, thirdRlt, thirdList⟩ :=
    exists_fork accepted trace (by decide : (2 : UInt32).toNat < manyFrames.maxJobs)
      (by rw [secondList, firstList]; rfl)
  have forked : ∀ pid : UInt32, pid = 0 ∨ pid = 1 ∨ pid = 2 →
      (third.procList pid.toNat).pagetable ≠ none := by
    rintro pid (rfl | rfl | rfl) <;> simp [thirdList, secondList, firstList]
  have empty : Filled third.toOs 0 :=
    ⟨fun frame inside => absurd inside (Nat.not_lt_zero frame), fun frame _ => by
      rw [thirdRlt, secondRlt, firstRlt]
      rfl⟩
  obtain ⟨started, trace, rlt, startedList, running⟩ :=
    exists_switch accepted trace (forked 0 (.inl rfl))
  obtain ⟨loaded, trace, half, loadedList⟩ :=
    (empty.of_rlt rlt).loads trace (by decide : 0 < 2) running
  rw [startedList] at loadedList
  obtain ⟨switched, trace, rlt, switchedList, running⟩ :=
    exists_switch accepted trace (by rw [loadedList]; exact forked 1 (.inr (.inl rfl)))
  obtain ⟨filled, trace, full, filledList⟩ :=
    (half.of_rlt rlt).loads trace (by decide : 1 < 2) running
  rw [switchedList, loadedList] at filledList
  obtain ⟨state, trace, rlt, -, running⟩ :=
    exists_switch accepted trace (by rw [filledList]; exact forked 2 (.inr (.inr rfl)))
  exact ⟨state, by simpa [fillFrames] using trace, full.of_rlt rlt, running⟩

end Fill

/-- The first free frame is frame 65536, and `get_free_frame` returns the occupied frame 0. -/
theorem free_frame_truncated : manyFrames.Accepted ∧ ∃ state,
    Trace (LegalStep manyFrames) simInit fillFrames state ∧
      65536 < manyFrames.numFrames ∧ (state.rlt 65536).pcb = none ∧
      getFreeFrame manyFrames state.toOs = some (state.toOs, 0) ∧
      (state.rlt 0).pcb = some 0 ∧ ¬ UsesFreeFrame manyFrames state := by
  obtain ⟨state, trace, filled, -⟩ := fillFrames_fills
  have owner : (state.rlt 0).pcb = some 0 := by rw [filled.occupied 0 (by decide)]
  have vacant := filled.vacant 65536 (Nat.le_refl _)
  have chosen : getFreeFrame manyFrames state.toOs = some (state.toOs, .ofNat 65536) :=
    getFreeFrame_of_free (by decide) vacant fun other before => by
      simp [filled.occupied other before]
  refine ⟨manyFrames_accepted, state, trace, by decide, vacant, chosen, owner, ?_⟩
  rintro ⟨⟨pfn, free, -, none⟩, -, -⟩
  obtain ⟨-, rfl⟩ := Prod.mk.inj (Option.some.inj (chosen.symm.trans free))
  cases owner.symm.trans none

end CS2200.VirtualMemory
