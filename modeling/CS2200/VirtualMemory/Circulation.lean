import CS2200.VirtualMemory.ClockSweep

/-!
# The clock does not go round

Every sweep of `get_free_frame` begins at frame 0. When memory is full for the first time all pages
have their used bits, so that the first two sweeps take frames 0 and 1. The third one takes frame 0
again, and no sweep in between has looked beyond frame 1.
-/

namespace CS2200.VirtualMemory

/-- The sweep of an action that faults when no frame is free. -/
def Action.record (config : Config) (os : Os) (action : Action) : Option (Sweep.Record Nat) :=
  if os.full config then
    (action.choice config os).map fun found =>
      { taken := found.2.toNat, examined := clockExamined os (List.range config.numFrames) }
  else none

/-- What is observed at some of the actions of a run, in the states before them. -/
def observed {β : Type*} (config : Config) (observe : Os → Action → Option β) :
    State → List Action → List β
  | _, [] => []
  | state, action :: actions =>
      match act config state action with
      | none => []
      | some (after, _) =>
          (observe state.toOs action).toList ++ observed config observe after actions

/-- The sweeps of a run. -/
def sweepsOf (config : Config) : State → List Action → List (Sweep.Record Nat) :=
  observed config fun os action => action.record config os

/-- The page faults of a run that find no free frame. -/
def fullFaults (config : Config) : State → List Action → List Action :=
  observed config fun os action =>
    if os.full config && action.faults config os then some action else none

/-- The sweeps so far were those over a table whose slots were all used, and have left the used bits
of the frames as they are. -/
structure Swept (config : Config) (os : Os) (records : List (Sweep.Record Nat)) (count : Nat)
    (bits : Nat → Bool) : Prop where
  /-- The sweeps so far. -/
  records : records = Sweep.sweeps 0 (List.range config.numFrames) count bits
  /-- At the first sweep all frames are used. -/
  start : ∀ frame ∈ List.range config.numFrames, bits frame = true
  /-- The used bits of occupied frames. -/
  used : ∀ frame < config.numFrames, (os.rlt frame).pcb ≠ none →
    os.frameUsed frame = Sweep.iterate 0 (List.range config.numFrames) count bits frame
  /-- Sweeps are made in a full memory only. -/
  full : 0 < count → os.full config = true

section Runs

variable {config : Config} {before after state : State} {action : Action} {actions : List Action}
  {records : List (Sweep.Record Nat)} {count : Nat} {bits : Nat → Bool}

private theorem observed_append {β : Type*} (observe : Os → Action → Option β) {first last : State}
    (trace : Trace (CleanStep config) first actions last) (more : List Action) :
    observed config observe first (actions ++ more) =
      observed config observe first actions ++ observed config observe last more := by
  induction trace generalizing more with
  | nil => rfl
  | @snoc earlier action before after _ step ih =>
      obtain ⟨⟨-, output, performs⟩, -⟩ := step
      rw [List.append_assoc, List.singleton_append, ih, ih]
      simp [observed, performs]

theorem observed_snoc {β : Type*} (observe : Os → Action → Option β)
    (trace : Trace (CleanStep config) simInit actions before)
    (step : CleanStep config before action after) :
    observed config observe simInit (actions ++ [action]) =
      observed config observe simInit actions ++ (observe before.toOs action).toList := by
  obtain ⟨⟨-, output, performs⟩, -⟩ := step
  rw [observed_append observe trace]
  simp [observed, performs]

/-- An action makes a sweep when it faults and no frame is free. -/
theorem Consistent.isSome_record (consistent : Consistent config state)
    (positive : 0 < config.numFrames) (action : Action) :
    (action.record config state.toOs).isSome =
      (state.full config && action.faults config state.toOs) := by
  obtain ⟨swept, pfn, free, -⟩ :=
    getFreeFrame_total consistent.invariant.owned.ownersForked positive
  unfold Action.record Action.choice
  rw [free]
  cases state.full config <;> cases action.faults config state.toOs <;> rfl

private theorem length_sweepsOf (accepted : config.Accepted)
    (trace : Trace (CleanStep config) simInit actions state) :
    (sweepsOf config simInit actions).length = (fullFaults config simInit actions).length := by
  induction trace with
  | nil => rfl
  | @snoc earlier action before after trace step ih =>
      have sweeps := (Consistent.of_cleanTrace accepted trace).isSome_record
        accepted.numFrames_pos action
      rw [sweepsOf, fullFaults] at ih ⊢
      rw [observed_snoc _ trace step, observed_snoc _ trace step, List.length_append,
        List.length_append, ih, ← sweeps]
      cases action.record config before.toOs <;> rfl

theorem CleanStep.full (step : CleanStep config before action after)
    (effect : Effect config before.toOs action after.toOs) (invariant : Invariant config before)
    (full : before.full config = true) : after.full config = true := by
  rw [full_iff] at full ⊢
  intro frame inRange
  rcases step.used effect invariant with
    ⟨-, same, -⟩ | ⟨swept, pfn, current, vpn, -, -, update, -⟩
  · rw [same]
    exact full frame inRange
  · rw [update]
    by_cases here : frame = pfn.toNat
    · simp [here]
    · rw [Function.update_of_ne here]
      exact full frame inRange

private theorem Action.record_eq_some {os : Os} {record : Sweep.Record Nat}
    (sweeps : action.record config os = some record) :
    os.full config = true ∧ ∃ swept pfn, action.choice config os = some (swept, pfn) ∧
      { taken := pfn.toNat, examined := clockExamined os (List.range config.numFrames) } =
        record := by
  unfold Action.record at sweeps
  split at sweeps
  case isTrue full =>
    obtain ⟨⟨swept, pfn⟩, choice, same⟩ := Option.map_eq_some_iff.mp sweeps
    exact ⟨full, swept, pfn, choice, same⟩
  case isFalse => cases sweeps

/-- An action that makes no sweep faults, if at all, when a frame is free. -/
theorem Action.full_of_record_eq_none {os swept : Os} {pfn : Pfn}
    (none : action.record config os = none) (choice : action.choice config os = some (swept, pfn)) :
    os.full config = false := by
  rw [← Bool.not_eq_true]
  intro full
  simp [Action.record, full, choice] at none

private theorem Action.swept_of_record_eq_none {os : Os} (none : action.record config os = none) :
    action.swept config os = os := by
  unfold Action.swept
  rcases choice : action.choice config os with _ | ⟨swept, pfn⟩
  · rfl
  · have notFull := Action.full_of_record_eq_none none choice
    simp only [Os.full, List.all_eq_false, Option.not_isSome_iff_eq_none] at notFull
    obtain ⟨frame, member, vacant⟩ := notFull
    obtain ⟨free, found⟩ : ∃ free, (List.range config.numFrames).find?
        (fun frame => (os.rlt frame).pcb = Option.none) = some free := by
      rw [← Option.isSome_iff_exists, List.find?_isSome]
      exact ⟨frame, member, decide_eq_true vacant⟩
    have chosen := Action.choice_eq_some choice
    rw [getFreeFrame, found] at chosen
    exact (Prod.mk.inj (Option.some.inj chosen)).1.symm

/-- A sweep takes its place after the earlier ones. -/
theorem Swept.sweep (swept : Swept config before.toOs records count bits)
    (invariant : Invariant config before) (kept : Invariant config after)
    (step : CleanStep config before action after)
    (effect : Effect config before.toOs action after.toOs) {record : Sweep.Record Nat}
    (sweeps : action.record config before.toOs = some record) :
    Swept config after.toOs (records ++ [record]) (count + 1) bits := by
  obtain ⟨recorded, start, used, -⟩ := swept
  obtain ⟨full, sweptOs, pfn, choice, rfl⟩ := Action.record_eq_some sweeps
  obtain ⟨isSweep, bitsAfter⟩ := getFreeFrame_spec invariant.owned invariant.processes full
    (Action.choice_eq_some choice)
  have agree : ∀ frame ∈ List.range config.numFrames, before.frameUsed frame =
      Sweep.iterate 0 (List.range config.numFrames) count bits frame := fun frame member =>
    used frame (List.mem_range.mp member) (full_iff.mp full frame (List.mem_range.mp member))
  have sameSweep := isSweep.trans (Sweep.sweep_congr agree)
  refine ⟨?_, start, fun frame inRange occupied => ?_, fun _ => step.full effect invariant full⟩
  · rw [Sweep.sweeps_succ, recorded, ← sameSweep]
  · rw [Sweep.iterate_succ, Sweep.after, ← sameSweep, ← Sweep.examined_congr agree,
      ← agree frame (List.mem_range.mpr inRange)]
    rcases step.frameUsed effect invariant kept.owned occupied with
      ⟨_, _, choice', rfl, bit⟩ | ⟨other, -, bit⟩
    · obtain ⟨-, rfl⟩ := Prod.mk.inj (Option.some.inj (choice.symm.trans choice'))
      simp [bit]
    · rw [bit, Action.swept, choice, Option.elim_some, bitsAfter,
        decide_eq_false (Ne.symm (other _ _ choice)), Bool.false_or]

/-- An action that makes no sweep leaves used bits alone, or brings a page with its used bit into a
free frame before the first sweep. -/
theorem Swept.idle (swept : Swept config before.toOs records count bits)
    (invariant : Invariant config before) (kept : Invariant config after)
    (step : CleanStep config before action after)
    (effect : Effect config before.toOs action after.toOs)
    (none : action.record config before.toOs = none) :
    Swept config after.toOs records count bits := by
  obtain ⟨recorded, start, used, full⟩ := swept
  refine ⟨recorded, start, fun frame inRange occupied => ?_,
    fun positive => step.full effect invariant (full positive)⟩
  rcases step.frameUsed effect invariant kept.owned occupied with
    ⟨sweptOs, pfn, choice, -, bit⟩ | ⟨-, same, bit⟩
  · have early : count = 0 := by
      by_contra later
      have notFull := Action.full_of_record_eq_none none choice
      cases (full (Nat.pos_of_ne_zero later)).symm.trans notFull
    rw [bit, early, Sweep.iterate, start frame (List.mem_range.mpr inRange)]
  · rw [same] at occupied
    rw [bit, Action.swept_of_record_eq_none none, used frame inRange occupied]

private theorem Swept.of_trace (accepted : config.Accepted)
    (trace : Trace (CleanStep config) simInit actions state) :
    ∃ count bits, Swept config state.toOs (sweepsOf config simInit actions) count bits := by
  induction trace with
  | nil =>
      exact ⟨0, fun _ => true, rfl, fun _ _ => rfl, fun frame _ occupied => absurd rfl occupied,
        fun positive => absurd positive (Nat.lt_irrefl 0)⟩
  | @snoc earlier action before after trace step ih =>
      obtain ⟨count, bits, swept⟩ := ih
      have consistent := Consistent.of_cleanTrace accepted trace
      obtain ⟨kept, effect⟩ := step.effect consistent accepted
      rw [sweepsOf, observed_snoc _ trace step]
      cases sweeps : action.record config before.toOs with
      | none =>
          rw [Option.toList_none, List.append_nil]
          exact ⟨count, bits,
            swept.idle consistent.invariant kept.invariant step effect sweeps⟩
      | some record =>
          exact ⟨count + 1, bits,
            swept.sweep consistent.invariant kept.invariant step effect sweeps⟩

/-- Between two evictions of the same frame every other frame is looked at, if and only if there are
at most two frames or at most two page faults of the run find no free frame. -/
theorem frames_circulate_iff (accepted : config.Accepted)
    (trace : Trace (CleanStep config) simInit actions state) :
    Sweep.Circulates (List.range config.numFrames) (sweepsOf config simInit actions) ↔
      config.numFrames ≤ 2 ∨ (fullFaults config simInit actions).length ≤ 2 := by
  rw [← length_sweepsOf accepted trace]
  obtain ⟨count, bits, records, start, -, -⟩ := Swept.of_trace accepted trace
  obtain ⟨frames, positive⟩ := Nat.exists_eq_add_one.mpr accepted.numFrames_pos
  have first : List.range config.numFrames = 0 :: (List.range frames).map Nat.succ := by
    rw [positive, List.range_succ_eq_map]
  have nodup := @List.nodup_range config.numFrames
  have length := @List.length_range config.numFrames
  rw [records, Sweep.length_sweeps]
  rw [first] at start nodup length ⊢
  rw [← length]
  exact Sweep.circulates_iff nodup start count

/-- Two page faults in a full memory of four frames. -/
theorem frames_circulate_iff_fourFrames :
    fullFaults fourFrames simInit
        [.fork 0, .switch 0, .load 0, .load 2, .load 4, .load 6, .load 8, .load 10] =
      [.load 8, .load 10] ∧
    (Sweep.Circulates (List.range fourFrames.numFrames) (sweepsOf fourFrames simInit
        [.fork 0, .switch 0, .load 0, .load 2, .load 4, .load 6, .load 8, .load 10]) ↔
      fourFrames.numFrames ≤ 2 ∨ (fullFaults fourFrames simInit
        [.fork 0, .switch 0, .load 0, .load 2, .load 4, .load 6, .load 8, .load 10]).length ≤ 2) := by
  obtain ⟨state, folds⟩ := Option.isSome_iff_exists.mp (by decide +kernel :
    (List.foldlM (legalAct fourFrames) simInit
      [.fork 0, .switch 0, .load 0, .load 2, .load 4, .load 6, .load 8, .load 10]).isSome = true)
  have accepted : fourFrames.Accepted := ⟨[.memSize 3], some "references", rfl⟩
  exact ⟨by decide +kernel,
    frames_circulate_iff accepted (cleanTrace_of_trace accepted (legalTrace_of_foldlM folds))⟩

end Runs

/-- Frame 0 is evicted again before the sweep has looked at frames 2 and 3. -/
theorem clock_restarts : fourFrames.Accepted ∧ ∃ state,
    Trace (LegalStep fourFrames) simInit
      [.fork 0, .switch 0, .load 0, .load 2, .load 4, .load 6, .load 8, .load 10, .load 12] state ∧
    sweepsOf fourFrames simInit
        [.fork 0, .switch 0, .load 0, .load 2, .load 4, .load 6, .load 8, .load 10, .load 12] =
      [{ taken := 0, examined := [0, 1, 2, 3] }, { taken := 1, examined := [0, 1] },
        { taken := 0, examined := [0] }] ∧
    ¬ Sweep.Circulates (List.range fourFrames.numFrames) (sweepsOf fourFrames simInit
      [.fork 0, .switch 0, .load 0, .load 2, .load 4, .load 6, .load 8, .load 10, .load 12]) := by
  obtain ⟨state, folds⟩ := Option.isSome_iff_exists.mp (by decide +kernel :
    (List.foldlM (legalAct fourFrames) simInit
      [.fork 0, .switch 0, .load 0, .load 2, .load 4, .load 6, .load 8, .load 10,
        .load 12]).isSome = true)
  have sweeps : sweepsOf fourFrames simInit
      [.fork 0, .switch 0, .load 0, .load 2, .load 4, .load 6, .load 8, .load 10, .load 12] =
        [{ taken := 0, examined := [0, 1, 2, 3] }, { taken := 1, examined := [0, 1] },
          { taken := 0, examined := [0] }] := by decide +kernel
  refine ⟨⟨[.memSize 3], some "references", rfl⟩, state, legalTrace_of_foldlM folds, sweeps, ?_⟩
  rw [sweeps]
  intro circulates
  obtain ⟨record, member, looked⟩ := circulates [] _ [_] _ [] rfl rfl (by decide) 2 (by decide)
    (by decide)
  simp only [List.singleton_append, List.mem_cons, List.not_mem_nil, or_false] at member
  rcases member with rfl | rfl
  · exact absurd looked (by decide)
  · exact absurd looked (by decide)

end CS2200.VirtualMemory
