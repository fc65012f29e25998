import CS2200.VirtualMemory.Steps

/-!
# Where the bytes of a process come from

Frames and swap entries pass from one process to another without being scrubbed when they are
evicted. A process nevertheless reads only zeros and bytes that it stored itself at the address it
reads, since its last fork. When an identifier is forked again while pages of its earlier process
are left, those pages come back.
-/

namespace CS2200.VirtualMemory

/-- A process stored a byte at an address. -/
def Stored (actions : List Action) (pid : UInt32) (va : VAddr) (byte : Word) : Prop :=
  ∃ earlier later, actions = earlier ++ .store va byte :: later ∧ running earlier = some pid

/-- A process stored a byte at an address and was not forked again afterwards. -/
def StoredSinceFork (actions : List Action) (pid : UInt32) (va : VAddr) (byte : Word) : Prop :=
  ∃ earlier later, actions = earlier ++ .store va byte :: later ∧ running earlier = some pid ∧
    .fork pid ∉ later

/-- Every byte of every forked process is zero or was stored there by the process since its fork. -/
def Own (config : Config) (actions : List Action) (state : State) : Prop :=
  ∀ pid va, (state.procList pid.toNat).pagetable ≠ none →
    let byte := state.content config pid.toNat (config.vaddrPagenum va) (config.vaddrOffset va)
    byte = 0 ∨ StoredSinceFork actions pid va byte

section Stored

variable {actions : List Action} {pid : UInt32} {va : VAddr} {byte : Word}

private theorem StoredSinceFork.stored (stored : StoredSinceFork actions pid va byte) :
    Stored actions pid va byte := by
  obtain ⟨earlier, later, split, run, -⟩ := stored
  exact ⟨earlier, later, split, run⟩

private theorem StoredSinceFork.snoc (stored : StoredSinceFork actions pid va byte)
    {action : Action}
    (notForked : action ≠ .fork pid) : StoredSinceFork (actions ++ [action]) pid va byte := by
  obtain ⟨earlier, later, rfl, run, unforked⟩ := stored
  refine ⟨earlier, later ++ [action], by simp, run, ?_⟩
  simpa [unforked] using notForked.symm

private theorem storedSinceFork_store (run : running actions = some pid) :
    StoredSinceFork (actions ++ [.store va byte]) pid va byte :=
  ⟨actions, [], rfl, run, nofun⟩

private theorem StoredSinceFork.after_fork {earlier later : List Action}
    (stored : StoredSinceFork (earlier ++ .fork pid :: later) pid va byte) :
    ∃ first rest, later = first ++ .store va byte :: rest ∧
      running (earlier ++ .fork pid :: first) = some pid := by
  obtain ⟨before, after, split, run, unforked⟩ := stored
  rcases List.append_eq_append_iff.mp split with ⟨first, rfl, rest⟩ | ⟨gap, rfl, rest⟩
  · cases first with
    | nil => cases rest
    | cons action first =>
        obtain ⟨rfl, rfl⟩ := List.cons.inj rest
        exact ⟨first, after, rfl, run⟩
  · cases gap with
    | nil => cases rest
    | cons action gap =>
        obtain ⟨rfl, rfl⟩ := List.cons.inj rest
        simp at unforked

end Stored

section Origin

variable {config : Config} {before after state : State} {actions : List Action} {action : Action}

private theorem CleanStep.own (step : CleanStep config before action after)
    (trace : Trace (CleanStep config) simInit actions before) (accepted : config.Accepted)
    (own : Own config actions before) : Own config (actions ++ [action]) after := by
  intro pid va forked byte
  obtain ⟨table, pagetable⟩ := Option.ne_none_iff_exists'.mp forked
  have consistent := Consistent.of_cleanTrace accepted trace
  obtain ⟨-, effect⟩ := step.effect consistent accepted
  have current := current_eq_running accepted trace
  rcases effect.content consistent accepted pagetable (config.vaddrPagenum va)
    (accepted.vaddrOffset_lt va) with zero | ⟨forkedBefore, notForked, kept⟩ |
    ⟨stored, store, run, page, offset⟩
  · exact .inl zero
  · refine (own pid va (by simp [forkedBefore])).imp (fun zero => kept.trans zero) fun origin => ?_
    rw [show byte = _ from kept]
    exact origin.snoc fun fork => notForked pid fork rfl
  · obtain rfl := Config.vaddr_ext page offset
    rw [current] at run
    obtain ⟨runner, isRunning, same⟩ := Option.map_eq_some_iff.mp run
    obtain rfl := UInt32.toNat.inj same
    rw [store]
    exact .inr (storedSinceFork_store isRunning)

/-- In a run whose forks leave nothing of an earlier process behind, the bytes of every process are
its own. -/
theorem own_of_cleanTrace (accepted : config.Accepted)
    (trace : Trace (CleanStep config) simInit actions state) : Own config actions state := by
  induction trace with
  | nil => exact fun pid va forked => absurd rfl forked
  | snoc earlier step ih => exact step.own earlier accepted ih

/-- A load by the running process returns zero or a byte that it stored there since its fork. -/
theorem load_own (accepted : config.Accepted)
    (trace : Trace (CleanStep config) simInit actions state) {pid : UInt32}
    (isRunning : running actions = some pid) (va : VAddr) :
    ∃ after byte, act config state (.load va) = some (after, some byte) ∧
      (byte = 0 ∨ StoredSinceFork actions pid va byte) := by
  have consistent := Consistent.of_cleanTrace accepted trace
  have current : state.current = some pid.toNat := by
    rw [current_eq_running accepted trace, isRunning, Option.map_some]
  obtain ⟨after, load, -⟩ := consistent.act_load accepted current va
  obtain ⟨table, -, pagetable⟩ := consistent.invariant.processes.register current
  exact ⟨after, _, load, own_of_cleanTrace accepted trace pid va (by simp [pagetable])⟩

end Origin

/-! ## Isolation -/

/-- Whatever frames and swap entries were reused: after every legal run a load by the running
process returns zero or a byte that this process stored earlier at the same address. -/
theorem loads_own_bytes {config : Config} (accepted : config.Accepted) {actions : List Action}
    {state : State} (trace : Trace (LegalStep config) simInit actions state) {pid : UInt32}
    (isRunning : running actions = some pid) (va : VAddr) :
    ∃ after byte, act config state (.load va) = some (after, some byte) ∧
      (byte = 0 ∨ Stored actions pid va byte) := by
  obtain ⟨after, byte, load, own⟩ := load_own accepted (cleanTrace_of_trace accepted trace)
    isRunning va
  exact ⟨after, byte, load, own.imp_right StoredSinceFork.stored⟩

/-- Two processes in one frame. -/
theorem loads_own_bytes_oneFrame :
    ∃ state, Trace (LegalStep oneFrame) simInit
        [.fork 0, .fork 1, .switch 0, .store 0 7, .switch 1, .store 0 9, .switch 0] state ∧
      ∃ after byte, act oneFrame state (.load 0) = some (after, some byte) ∧
        (byte = 0 ∨ Stored [.fork 0, .fork 1, .switch 0, .store 0 7, .switch 1, .store 0 9,
          .switch 0] 0 0 byte) := by
  obtain ⟨state, folds⟩ := Option.isSome_iff_exists.mp (by decide +kernel :
    (List.foldlM (legalAct oneFrame) simInit
      [.fork 0, .fork 1, .switch 0, .store 0 7, .switch 1, .store 0 9, .switch 0]).isSome = true)
  have trace := legalTrace_of_foldlM folds
  exact ⟨state, trace, loads_own_bytes ⟨[.memSize 1], some "references", rfl⟩ trace rfl 0⟩

/-! ## Forking an identifier again -/

/-- In a run in which every forked process is one that is not running, owns no frame and has no
saved page, a process reads zero at every address to which it has not stored since it was forked,
in every continuation of the run. -/
theorem forked_process_fresh {config : Config} (accepted : config.Accepted)
    {earlier later : List Action} {pid : UInt32} {state : State}
    (trace : Trace (CleanStep config) simInit (earlier ++ .fork pid :: later) state)
    (isRunning : running (earlier ++ .fork pid :: later) = some pid) {va : VAddr}
    (unstored : ∀ first byte rest, later = first ++ .store va byte :: rest →
      running (earlier ++ .fork pid :: first) ≠ some pid) :
    ∃ after, act config state (.load va) = some (after, some 0) := by
  obtain ⟨after, byte, load, rfl | stored⟩ := load_own accepted trace isRunning va
  · exact ⟨after, load⟩
  · obtain ⟨first, rest, split, run⟩ := stored.after_fork
    exact absurd run (unstored first byte rest split)

/-- An identifier that is forked again before its process has run. -/
theorem forked_process_fresh_again :
    ∃ state, Trace (CleanStep .defaults) simInit ([.fork 0] ++ .fork 0 :: [.switch 0]) state ∧
      ∃ after, act .defaults state (.load 5) = some (after, some 0) := by
  have accepted : Config.defaults.Accepted := ⟨[], some "references", rfl⟩
  have forks : ∀ {actions before}, Trace (CleanStep .defaults) simInit actions before →
      before.Unused 0 → ∃ after, Trace (CleanStep .defaults) simInit (actions ++ [.fork 0]) after ∧
        after.Unused 0 ∧ (after.procList 0).pagetable ≠ none := by
    intro actions before trace unused
    have step : CleanStep .defaults before (.fork 0) _ :=
      ⟨⟨by show 0 < 8; decide, none, rfl⟩, by rintro pid ⟨⟩; exact unused⟩
    obtain ⟨-, effect⟩ := step.effect (.of_cleanTrace accepted trace) accepted
    exact ⟨_, trace.snoc step, effect.unused, nofun⟩
  obtain ⟨first, firstTrace, unused, -⟩ := forks .nil
    ((Consistent.simInit accepted).unused_of_fresh rfl)
  obtain ⟨second, secondTrace, -, forked⟩ := forks firstTrace unused
  have legal : Action.Legal .defaults second (.switch 0) := forked
  have consistent := Consistent.of_cleanTrace accepted secondTrace
  obtain ⟨third, step⟩ := consistent.invariant.act_total accepted legal
  have trace : Trace (CleanStep .defaults) simInit ([.fork 0] ++ .fork 0 :: [.switch 0]) third :=
    secondTrace.snoc (step.clean consistent)
  have isRunning : running ([.fork 0] ++ .fork 0 :: [.switch 0]) = some 0 := rfl
  refine ⟨third, trace, forked_process_fresh accepted trace isRunning
    fun first byte rest split => ?_⟩
  cases first with
  | nil => cases split
  | cons action first =>
      obtain ⟨-, split⟩ := List.cons.inj split
      cases first <;> cases split

/-- With one frame, the byte of the earlier process is read from its frame when the identifier of
the running process is forked again, and from the swap list when another process is running. -/
theorem forked_process_stale :
    oneFrame.Accepted ∧
    (∃ state after,
      Trace (PossibleStep oneFrame) simInit ([.fork 0, .switch 0, .store 0 1] ++ [.fork 0]) state ∧
        act oneFrame state (.load 0) = some (after, some 1)) ∧
    ∃ state after,
      Trace (PossibleStep oneFrame) simInit
        ([.fork 0, .fork 1, .switch 0, .store 0 1, .switch 1, .load 0] ++ .fork 0 :: [.switch 0])
        state ∧
        act oneFrame state (.load 0) = some (after, some 1) := by
  have loaded : ∀ actions : List Action,
      (actions.foldlM (possibleAct oneFrame) simInit).any (fun state =>
        (act oneFrame state (.load 0)).any fun result => result.2 = some 1) = true →
      ∃ state after, Trace (PossibleStep oneFrame) simInit actions state ∧
        act oneFrame state (.load 0) = some (after, some 1) := by
    intro actions runs
    obtain ⟨state, folds, load⟩ := (Option.any_eq_true _ _).mp runs
    obtain ⟨⟨after, output⟩, step, one⟩ := (Option.any_eq_true _ _).mp load
    obtain rfl : output = some 1 := of_decide_eq_true one
    exact ⟨state, after, possibleTrace_of_foldlM folds, step⟩
  refine ⟨⟨[.memSize 1], some "references", rfl⟩, ?_, ?_⟩
  · exact loaded _ (by decide +kernel)
  · exact loaded _ (by decide +kernel)

end CS2200.VirtualMemory
