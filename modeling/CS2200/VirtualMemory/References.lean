import CS2200.Library.CString
import CS2200.VirtualMemory.Progress

/-!
# Reading a references file

`sim_readdata` reads the file piece by piece with `fgets`, takes the first four tokens of each piece
and executes what they say. It checks neither that a token is there nor that a process was forked,
and it takes the end of a line that is too long for its buffer for another line.
-/

namespace CS2200.VirtualMemory

open CString

/-! ## The reader -/

/-- What stops the reader. -/
inductive Fault where
  /-- `NULL` is dereferenced where `strtok` found no token. -/
  | nullToken
  /-- An assertion fails. -/
  | assertion
  deriving DecidableEq, Repr

/-- Use a result of `strtok`. -/
def deref (token : Option (List UInt8)) : Except Fault (List UInt8) :=
  token.elim (.error .nullToken) .ok

/-- Go on after a function that makes assertions. -/
def check {α : Type} (result : Option α) : Except Fault α := result.elim (.error .assertion) .ok

/-- `WHITESPACE`. -/
def whitespace : List UInt8 := [32, 9, 10, 13]

/-- The tokens of a buffer. -/
structure Fields where
  /-- Command. -/
  cmd : Option (List UInt8)
  /-- First argument. -/
  arg1 : Option (List UInt8)
  /-- Second argument. -/
  arg2 : Option (List UInt8)
  /-- Third argument. -/
  arg3 : Option (List UInt8)
  deriving DecidableEq, Repr

/-- The four calls of `strtok`. -/
def fields (buff : List UInt8) : Fields :=
  let (cmd, saved) := strtok whitespace (contents buff)
  let (arg1, saved) := strtok whitespace saved
  let (arg2, saved) := strtok whitespace saved
  let (arg3, _) := strtok whitespace saved
  { cmd, arg1, arg2, arg3 }

/-- The commands. -/
inductive Verb where
  | fork
  | load
  | store
  deriving DecidableEq, Repr

/-- The cases of `switch (cmd[0])`, none by default. -/
def verb (cmd : List UInt8) : Option Verb :=
  if cmd.head? = some '@'.toUInt8 then some .fork
  else if cmd.head? = some 'l'.toUInt8 then some .load
  else if cmd.head? = some 's'.toUInt8 then some .store
  else none

/-- `int pid`, which is compared as unsigned. -/
def pidOf (arg1 : List UInt8) : UInt32 := (atoi arg1).toUInt32

/-- `vaddr_t addr`. -/
def addrOf (arg2 : List UInt8) : VAddr := (atoi arg2).toUInt32.toUInt16

/-- `word_t val`. -/
def valOf (arg3 : List UInt8) : Word := (atoi arg3 % 256).toUInt32.toUInt8

/-- `proc_getname`: the name in this entry is only printed. -/
def procGetname (config : Config) (state : State) (pid : UInt32) : Option Pcb :=
  if pid.toNat < config.maxJobs then some (state.procList pid.toNat) else none

/-- Unless the process is running, its name is printed, and it is switched to. -/
def announceSwitch (config : Config) (state : State) (pid : UInt32) : Option State :=
  if state.current.map (fun index => (state.procList index).pid) = some pid then some state
  else do
    let _ ← procGetname config state pid
    procSwitch config state pid

/-- The `switch` of `sim_readdata`. The expected value of a load is only compared with what is
loaded. -/
def execute (config : Config) (state : State) (fields : Fields) : Except Fault State := do
  match verb (← deref fields.cmd) with
  | some .fork =>
      let pid := pidOf (← deref fields.arg1)
      if pid.toNat < config.maxJobs then
        let _ ← deref fields.arg2
        check (procFork config state pid)
      else .ok state
  | some .load =>
      let pid := pidOf (← deref fields.arg1)
      let addr := addrOf (← deref fields.arg2)
      let _ ← deref fields.arg3
      if pid.toNat ≥ config.maxJobs then .ok state
      else
        let state ← check (announceSwitch config state pid)
        let (state, _) ← check (memLoad config state addr)
        .ok state
  | some .store =>
      let pid := pidOf (← deref fields.arg1)
      let addr := addrOf (← deref fields.arg2)
      let val := valOf (← deref fields.arg3)
      if pid.toNat ≥ config.maxJobs then .ok state
      else
        let state ← check (announceSwitch config state pid)
        check (memStore config state addr val)
  | none => .ok state

/-- The body of the loop of `sim_readdata`. -/
def readBuffer (config : Config) (state : State) (buff : List UInt8) : Except Fault State :=
  execute config state (fields buff)

/-- `sizeof(buff)`. -/
def bufferSize : Nat := 512

/-- The loop of `sim_readdata`. -/
def simReaddata (config : Config) (state : State) (fp : List UInt8) : Except Fault State :=
  match _reads : fgets bufferSize fp with
  | none => .ok state
  | some (buff, rest) => do
      let state ← readBuffer config state buff
      simReaddata config state rest
termination_by fp.length
decreasing_by exact fgets_length_lt (by decide) _reads

/-- The pieces of a text that the loop reads. -/
def pieces (text : List UInt8) : List (List UInt8) :=
  buffers (by decide : 2 ≤ bufferSize) text

theorem bind_eq_ok {α β : Type} {first : Except Fault α} {next : α → Except Fault β} {result : β} :
    (first >>= next) = .ok result ↔ ∃ middle, first = .ok middle ∧ next middle = .ok result := by
  cases first with
  | error fault =>
      constructor
      · intro fails
        cases fails
      · rintro ⟨_, fails, -⟩
        cases fails
  | ok middle =>
      constructor
      · intro runs
        exact ⟨middle, rfl, runs⟩
      · rintro ⟨_, same, runs⟩
        obtain rfl := Except.ok.inj same
        exact runs

theorem foldlM_snoc {config : Config} {before after : State} {buffs : List (List UInt8)}
    {buff : List UInt8} :
    (buffs ++ [buff]).foldlM (readBuffer config) before = .ok after ↔
      ∃ middle, buffs.foldlM (readBuffer config) before = .ok middle ∧
        readBuffer config middle buff = .ok after := by
  rw [List.foldlM_append, bind_eq_ok]
  simp only [List.foldlM_cons, List.foldlM_nil, bind_pure]

@[simp] theorem deref_eq_ok {token : Option (List UInt8)} {string : List UInt8} :
    deref token = .ok string ↔ token = some string := by
  cases token <;> simp [deref]

private theorem arguments_eq_ok {first second third : Option (List UInt8)}
    {next : List UInt8 → List UInt8 → List UInt8 → Except Fault State} {after : State} :
    (do next (← deref first) (← deref second) (← deref third)) = .ok after ↔
      ∃ arg1 arg2 arg3, first = some arg1 ∧ second = some arg2 ∧ third = some arg3 ∧
        next arg1 arg2 arg3 = .ok after := by
  simp only [bind_eq_ok, deref_eq_ok]
  grind

@[simp] theorem check_eq_ok {α : Type} {result : Option α} {value : α} :
    check result = .ok value ↔ result = some value := by
  cases result <;> simp [check]

/-- The assertion of `proc_getname` is the first one of `proc_switch`. -/
theorem announceSwitch_eq (config : Config) (state : State) (pid : UInt32) :
    announceSwitch config state pid = switchTo config state pid := by
  unfold announceSwitch switchTo procGetname procSwitch
  split
  · rfl
  · by_cases inRange : pid.toNat < config.maxJobs <;> simp [inRange]

/-- The loop executes the pieces one after the other. -/
theorem simReaddata_eq (config : Config) (state : State) (fp : List UInt8) :
    simReaddata config state fp = (pieces fp).foldlM (readBuffer config) state := by
  fun_induction simReaddata config state fp with
  | case1 state fp ends =>
      rw [pieces, buffers_of_none _ ends]
      rfl
  | case2 state fp buff rest reads ih =>
      rw [pieces, buffers_of_some _ reads, List.foldlM_cons]
      exact congrArg (readBuffer config state buff >>= ·) (funext ih)

private theorem simReaddata_append {config : Config} {state : State} {first : List UInt8}
    (closed : Closed first) (second : List UInt8) :
    simReaddata config state (first ++ second) =
      simReaddata config state first >>= fun middle => simReaddata config middle second := by
  simp only [simReaddata_eq]
  rw [pieces, buffers_append _ closed, List.foldlM_append]
  rfl

/-! ## What a piece does -/

/-- A piece is executed without a fault. -/
inductive Executed (config : Config) (before : State) (fields : Fields) : State → Prop
  /-- No command of the simulator. -/
  | ignored {cmd : List UInt8} : fields.cmd = some cmd → verb cmd = none →
      Executed config before fields before
  /-- A fork whose identifier is out of range. -/
  | tooMany {cmd arg1 : List UInt8} : fields.cmd = some cmd → verb cmd = some .fork →
      fields.arg1 = some arg1 → config.maxJobs ≤ (pidOf arg1).toNat →
      Executed config before fields before
  | forked {cmd arg1 arg2 : List UInt8} {after : State} : fields.cmd = some cmd →
      verb cmd = some .fork → fields.arg1 = some arg1 → fields.arg2 = some arg2 →
      (pidOf arg1).toNat < config.maxJobs → procFork config before (pidOf arg1) = some after →
      Executed config before fields after
  /-- An access whose identifier is out of range. -/
  | skipped {cmd arg1 arg2 arg3 : List UInt8} : fields.cmd = some cmd →
      verb cmd = some .load ∨ verb cmd = some .store →
      fields.arg1 = some arg1 → fields.arg2 = some arg2 → fields.arg3 = some arg3 →
      config.maxJobs ≤ (pidOf arg1).toNat → Executed config before fields before
  | loaded {cmd arg1 arg2 arg3 : List UInt8} {switched after : State} {data : Word} :
      fields.cmd = some cmd → verb cmd = some .load →
      fields.arg1 = some arg1 → fields.arg2 = some arg2 → fields.arg3 = some arg3 →
      (pidOf arg1).toNat < config.maxJobs → switchTo config before (pidOf arg1) = some switched →
      memLoad config switched (addrOf arg2) = some (after, data) →
      Executed config before fields after
  | stored {cmd arg1 arg2 arg3 : List UInt8} {switched after : State} :
      fields.cmd = some cmd → verb cmd = some .store →
      fields.arg1 = some arg1 → fields.arg2 = some arg2 → fields.arg3 = some arg3 →
      (pidOf arg1).toNat < config.maxJobs → switchTo config before (pidOf arg1) = some switched →
      memStore config switched (addrOf arg2) (valOf arg3) = some after →
      Executed config before fields after

section Execute

variable {config : Config} {before after : State} {fields : Fields}

/-- Without a fault, one of these things is done. -/
theorem Executed.of_execute (runs : execute config before fields = .ok after) :
    Executed config before fields after := by
  obtain ⟨cmd, isCmd, runs⟩ := bind_eq_ok.mp runs
  rw [deref_eq_ok] at isCmd
  cases which : verb cmd with
  | none =>
      simp only [which] at runs
      obtain rfl := Except.ok.inj runs
      exact .ignored isCmd which
  | some which' =>
      cases which' with
      | fork =>
          simp only [which] at runs
          obtain ⟨arg1, isArg1, runs⟩ := bind_eq_ok.mp runs
          rw [deref_eq_ok] at isArg1
          split at runs
          case isTrue inRange =>
            obtain ⟨arg2, isArg2, runs⟩ := bind_eq_ok.mp runs
            exact .forked isCmd which isArg1 (deref_eq_ok.mp isArg2) inRange (check_eq_ok.mp runs)
          case isFalse outside =>
            obtain rfl := Except.ok.inj runs
            exact .tooMany isCmd which isArg1 (Nat.le_of_not_lt outside)
      | load =>
          simp only [which] at runs
          obtain ⟨arg1, arg2, arg3, isArg1, isArg2, isArg3, runs⟩ := arguments_eq_ok.mp runs
          split at runs
          case isTrue outside =>
            obtain rfl := Except.ok.inj runs
            exact .skipped isCmd (.inl which) isArg1 isArg2 isArg3 outside
          case isFalse inRange =>
            obtain ⟨switched, switches, runs⟩ := bind_eq_ok.mp runs
            obtain ⟨⟨loaded, data⟩, loads, runs⟩ := bind_eq_ok.mp runs
            obtain rfl := Except.ok.inj runs
            rw [check_eq_ok, announceSwitch_eq] at switches
            exact .loaded isCmd which isArg1 isArg2 isArg3 (Nat.lt_of_not_le inRange) switches
              (check_eq_ok.mp loads)
      | store =>
          simp only [which] at runs
          obtain ⟨arg1, arg2, arg3, isArg1, isArg2, isArg3, runs⟩ := arguments_eq_ok.mp runs
          split at runs
          case isTrue outside =>
            obtain rfl := Except.ok.inj runs
            exact .skipped isCmd (.inr which) isArg1 isArg2 isArg3 outside
          case isFalse inRange =>
            obtain ⟨switched, switches, stores⟩ := bind_eq_ok.mp runs
            rw [check_eq_ok, announceSwitch_eq] at switches
            exact .stored isCmd which isArg1 isArg2 isArg3 (Nat.lt_of_not_le inRange) switches
              (check_eq_ok.mp stores)

theorem Executed.execute_eq (executed : Executed config before fields after) :
    execute config before fields = .ok after := by
  cases executed with
  | ignored isCmd which => simp [execute, deref, isCmd, which, bind, Except.bind]
  | tooMany isCmd which isArg1 outside =>
      simp [execute, deref, isCmd, which, isArg1, Nat.not_lt.mpr outside, bind, Except.bind]
  | forked isCmd which isArg1 isArg2 inRange forks =>
      simp [execute, deref, check, isCmd, which, isArg1, isArg2, inRange, forks, bind, Except.bind]
  | skipped isCmd which isArg1 isArg2 isArg3 outside =>
      rcases which with which | which <;>
        simp [execute, deref, isCmd, which, isArg1, isArg2, isArg3, outside, bind, Except.bind]
  | loaded isCmd which isArg1 isArg2 isArg3 inRange switches loads =>
      simp [execute, deref, check, isCmd, which, isArg1, isArg2, isArg3, Nat.not_le.mpr inRange,
        announceSwitch_eq, switches, loads, bind, Except.bind]
  | stored isCmd which isArg1 isArg2 isArg3 inRange switches stores =>
      simp [execute, deref, check, isCmd, which, isArg1, isArg2, isArg3, Nat.not_le.mpr inRange,
        announceSwitch_eq, switches, stores, bind, Except.bind]

/-- Where the identifier is in range, a piece forks it. -/
def Forks (config : Config) (fields : Fields) (pid : Nat) : Prop :=
  ∃ cmd arg1, fields.cmd = some cmd ∧ verb cmd = some .fork ∧ fields.arg1 = some arg1 ∧
    (pidOf arg1).toNat = pid ∧ pid < config.maxJobs

/-- A piece has the tokens that its command uses, and an access in range names a forked process. -/
def Readable (config : Config) (forked : Nat → Prop) (fields : Fields) : Prop :=
  ∃ cmd, fields.cmd = some cmd ∧
    match verb cmd with
    | none => True
    | some .fork => ∃ arg1, fields.arg1 = some arg1 ∧
        ((pidOf arg1).toNat < config.maxJobs → fields.arg2 ≠ none)
    | some .load | some .store => ∃ arg1, fields.arg1 = some arg1 ∧
        fields.arg2 ≠ none ∧ fields.arg3 ≠ none ∧
        ((pidOf arg1).toNat < config.maxJobs → forked (pidOf arg1).toNat)

/-- A piece is taken for a command on a process. -/
def Acts (config : Config) (fields : Fields) : Prop :=
  ∃ cmd arg1, fields.cmd = some cmd ∧ verb cmd ≠ none ∧ fields.arg1 = some arg1 ∧
    (pidOf arg1).toNat < config.maxJobs

theorem not_acts_of_ignored {cmd : List UInt8} (isCmd : fields.cmd = some cmd)
    (ignored : verb cmd = none) : ¬ Acts config fields := by
  rintro ⟨other, -, isOther, isVerb, -⟩
  obtain rfl := Option.some.inj (isCmd.symm.trans isOther)
  exact isVerb ignored

private theorem not_acts_of_outside {arg1 : List UInt8} (isArg1 : fields.arg1 = some arg1)
    (outside : config.maxJobs ≤ (pidOf arg1).toNat) : ¬ Acts config fields := by
  rintro ⟨-, other, -, -, isOther, inRange⟩
  obtain rfl := Option.some.inj (isArg1.symm.trans isOther)
  exact Nat.not_lt.mpr outside inRange

theorem Forks.acts {pid : Nat} (forks : Forks config fields pid) : Acts config fields := by
  obtain ⟨cmd, arg1, isCmd, which, isArg1, rfl, inRange⟩ := forks
  exact ⟨cmd, arg1, isCmd, by simp [which], isArg1, inRange⟩

private theorem not_forks_of_verb {cmd : List UInt8} {pid : Nat} (isCmd : fields.cmd = some cmd)
    (other : verb cmd ≠ some .fork) : ¬ Forks config fields pid := by
  rintro ⟨same, -, isSame, which, -⟩
  obtain rfl := Option.some.inj (isCmd.symm.trans isSame)
  exact other which

/-- What a piece does to a state from which no access aborts. -/
structure Outcome (config : Config) (before : State) (fields : Fields) (after : State) : Prop where
  /-- The invariant is kept. -/
  ready : Ready config after.toOs
  /-- Only a fork makes a process. -/
  forked : ∀ pid, after.Forked pid ↔ before.Forked pid ∨ Forks config fields pid
  /-- The state changes exactly where the piece acts. -/
  unchanged : after = before ↔ ¬ Acts config fields

private theorem Outcome.refl (ready : Ready config before.toOs) (idle : ¬ Acts config fields) :
    Outcome config before fields before where
  ready := ready
  forked _ := (or_iff_left fun forks => idle forks.acts).symm
  unchanged := iff_of_true rfl idle

private theorem Outcome.of_access {cmd arg1 : List UInt8} (isCmd : fields.cmd = some cmd)
    (which : verb cmd = some .load ∨ verb cmd = some .store) (isArg1 : fields.arg1 = some arg1)
    (inRange : (pidOf arg1).toNat < config.maxJobs) (ready : Ready config after.toOs)
    (processes : after.procList = before.procList) (changed : after ≠ before) :
    Outcome config before fields after where
  ready := ready
  forked pid := by
    rw [Os.Forked, processes]
    refine (or_iff_left (not_forks_of_verb isCmd ?_)).symm
    rcases which with which | which <;> simp [which]
  unchanged := by
    refine iff_of_false changed (not_not.mpr ⟨cmd, arg1, isCmd, ?_, isArg1, inRange⟩)
    rcases which with which | which <;> simp [which]

namespace Executed

private theorem readable (ready : Ready config before.toOs)
    (executed : Executed config before fields after) :
    Readable config before.Forked fields := by
  cases executed with
  | ignored isCmd which => exact ⟨_, isCmd, by simp [which]⟩
  | tooMany isCmd which isArg1 outside =>
      exact ⟨_, isCmd, by simp [which, isArg1, Nat.not_lt.mpr outside]⟩
  | forked isCmd which isArg1 isArg2 inRange forks =>
      exact ⟨_, isCmd, by simp [which, isArg1, isArg2]⟩
  | skipped isCmd which isArg1 isArg2 isArg3 outside =>
      rcases which with which | which <;>
        exact ⟨_, isCmd, by simp [which, isArg1, isArg2, isArg3, Nat.not_lt.mpr outside]⟩
  | loaded isCmd which isArg1 isArg2 isArg3 inRange switches loads =>
      exact ⟨_, isCmd, by simp [which, isArg1, isArg2, isArg3, ready.forked_of_switchTo switches]⟩
  | stored isCmd which isArg1 isArg2 isArg3 inRange switches stores =>
      exact ⟨_, isCmd, by simp [which, isArg1, isArg2, isArg3, ready.forked_of_switchTo switches]⟩

private theorem of_readable (ready : Ready config before.toOs) (positive : 0 < config.numFrames)
    (readable : Readable config before.Forked fields) :
    ∃ after, Executed config before fields after := by
  obtain ⟨cmd, isCmd, tokens⟩ := readable
  cases which : verb cmd with
  | none => exact ⟨before, .ignored isCmd which⟩
  | some verb =>
      simp only [which] at tokens
      cases verb with
      | fork =>
          obtain ⟨arg1, isArg1, name⟩ := tokens
          by_cases inRange : (pidOf arg1).toNat < config.maxJobs
          · obtain ⟨arg2, isArg2⟩ := Option.ne_none_iff_exists'.mp (name inRange)
            obtain ⟨after, forks, -⟩ := ready.procFork inRange
            exact ⟨after, .forked isCmd which isArg1 isArg2 inRange forks⟩
          · exact ⟨before, .tooMany isCmd which isArg1 (Nat.le_of_not_lt inRange)⟩
      | load =>
          obtain ⟨arg1, isArg1, hasArg2, hasArg3, forked⟩ := tokens
          obtain ⟨arg2, isArg2⟩ := Option.ne_none_iff_exists'.mp hasArg2
          obtain ⟨arg3, isArg3⟩ := Option.ne_none_iff_exists'.mp hasArg3
          by_cases inRange : (pidOf arg1).toNat < config.maxJobs
          · obtain ⟨switched, switches, running, runs, -⟩ :=
              ready.switchTo inRange (forked inRange)
            obtain ⟨after, data, loads, -⟩ := running.memLoad positive runs (addrOf arg2)
            exact ⟨after, .loaded isCmd which isArg1 isArg2 isArg3 inRange switches loads⟩
          · exact ⟨before, .skipped isCmd (.inl which) isArg1 isArg2 isArg3
              (Nat.le_of_not_lt inRange)⟩
      | store =>
          obtain ⟨arg1, isArg1, hasArg2, hasArg3, forked⟩ := tokens
          obtain ⟨arg2, isArg2⟩ := Option.ne_none_iff_exists'.mp hasArg2
          obtain ⟨arg3, isArg3⟩ := Option.ne_none_iff_exists'.mp hasArg3
          by_cases inRange : (pidOf arg1).toNat < config.maxJobs
          · obtain ⟨switched, switches, running, runs, -⟩ :=
              ready.switchTo inRange (forked inRange)
            obtain ⟨after, stores, -⟩ :=
              running.memStore positive runs (addrOf arg2) (valOf arg3)
            exact ⟨after, .stored isCmd which isArg1 isArg2 isArg3 inRange switches stores⟩
          · exact ⟨before, .skipped isCmd (.inr which) isArg1 isArg2 isArg3
              (Nat.le_of_not_lt inRange)⟩

private theorem outcome (ready : Ready config before.toOs) (positive : 0 < config.numFrames)
    (executed : Executed config before fields after) : Outcome config before fields after := by
  cases executed with
  | ignored isCmd which => exact .refl ready (not_acts_of_ignored isCmd which)
  | tooMany isCmd which isArg1 outside => exact .refl ready (not_acts_of_outside isArg1 outside)
  | skipped isCmd which isArg1 isArg2 isArg3 outside =>
      exact .refl ready (not_acts_of_outside isArg1 outside)
  | @forked cmd arg1 arg2 _ isCmd which isArg1 isArg2 inRange forks =>
      obtain ⟨result, same, kept, forked, allocated⟩ := ready.procFork inRange
      obtain rfl := Option.some.inj (forks.symm.trans same)
      have acts : Forks config fields (pidOf arg1).toNat :=
        ⟨cmd, arg1, isCmd, which, isArg1, rfl, inRange⟩
      refine ⟨kept, fun pid => ?_, iff_of_false (fun unchanged => ?_) (not_not.mpr acts.acts)⟩
      · rw [forked]
        refine or_congr_right ⟨fun same => same ▸ acts, ?_⟩
        rintro ⟨-, other, -, -, isOther, same, -⟩
        obtain rfl := Option.some.inj (isArg1.symm.trans isOther)
        exact same.symm
      · rw [unchanged] at allocated
        omega
  | @loaded cmd arg1 arg2 arg3 switched _ data isCmd which isArg1 isArg2 isArg3 inRange switches
      loads =>
      obtain ⟨middle, same, running, runs, switchList, reads, -⟩ :=
        ready.switchTo inRange (ready.forked_of_switchTo switches)
      obtain rfl := Option.some.inj (switches.symm.trans same)
      obtain ⟨result, byte, same, kept, loadList, counted⟩ :=
        running.memLoad positive runs (addrOf arg2)
      obtain ⟨rfl, -⟩ := Prod.mk.inj (Option.some.inj (loads.symm.trans same))
      refine .of_access isCmd (.inl which) isArg1 inRange kept (loadList.trans switchList)
        fun unchanged => ?_
      rw [unchanged, reads] at counted
      simp at counted
  | @stored cmd arg1 arg2 arg3 switched _ isCmd which isArg1 isArg2 isArg3 inRange switches
      stores =>
      obtain ⟨middle, same, running, runs, switchList, -, writes⟩ :=
        ready.switchTo inRange (ready.forked_of_switchTo switches)
      obtain rfl := Option.some.inj (switches.symm.trans same)
      obtain ⟨result, same, kept, storeList, counted⟩ :=
        running.memStore positive runs (addrOf arg2) (valOf arg3)
      obtain rfl := Option.some.inj (stores.symm.trans same)
      refine .of_access isCmd (.inr which) isArg1 inRange kept (storeList.trans switchList)
        fun unchanged => ?_
      rw [unchanged, writes] at counted
      simp at counted

end Executed

end Execute

/-! ## What a file does -/

/-- The processes that pieces fork. -/
def ForkedBy (config : Config) (buffs : List (List UInt8)) (pid : Nat) : Prop :=
  ∃ buff ∈ buffs, Forks config (fields buff) pid

section Pieces

variable {config : Config} {before after : State} {buff : List UInt8} {buffs : List (List UInt8)}

theorem readBuffer_outcome (ready : Ready config before.toOs) (positive : 0 < config.numFrames)
    (reads : readBuffer config before buff = .ok after) :
    Outcome config before (fields buff) after :=
  (Executed.of_execute reads).outcome ready positive

/-- The invariant is kept, and the forked processes are known from the text. -/
theorem pieces_outcome (ready : Ready config before.toOs) (positive : 0 < config.numFrames)
    (runs : buffs.foldlM (readBuffer config) before = .ok after) :
    Ready config after.toOs ∧
      ∀ pid, after.Forked pid ↔ before.Forked pid ∨ ForkedBy config buffs pid := by
  induction buffs generalizing before with
  | nil =>
      obtain rfl := Except.ok.inj runs
      exact ⟨ready, fun pid => by simp [ForkedBy]⟩
  | cons buff buffs ih =>
      rw [List.foldlM_cons] at runs
      obtain ⟨middle, reads, runs⟩ := bind_eq_ok.mp runs
      have outcome := readBuffer_outcome ready positive reads
      obtain ⟨kept, forked⟩ := ih outcome.ready runs
      refine ⟨kept, fun pid => ?_⟩
      rw [forked, outcome.forked, or_assoc]
      simp [ForkedBy]

private theorem pieces_eq_of_idle (ready : Ready config before.toOs)
    (positive : 0 < config.numFrames) (idle : ∀ buff ∈ buffs, ¬ Acts config (fields buff))
    (runs : buffs.foldlM (readBuffer config) before = .ok after) : after = before := by
  induction buffs generalizing before with
  | nil => exact (Except.ok.inj runs).symm
  | cons buff buffs ih =>
      rw [List.foldlM_cons] at runs
      obtain ⟨middle, reads, rest⟩ := bind_eq_ok.mp runs
      have outcome := readBuffer_outcome ready positive reads
      obtain rfl := outcome.unchanged.mpr (idle buff List.mem_cons_self)
      exact ih ready (fun other member => idle other (List.mem_cons_of_mem _ member)) rest

theorem forked_eq (positive : 0 < config.numFrames)
    (runs : buffs.foldlM (readBuffer config) simInit = .ok after) :
    after.Forked = ForkedBy config buffs := by
  funext pid
  rw [(pieces_outcome (.simInit config) positive runs).2 pid]
  exact propext (or_iff_right fun forked => forked rfl)

private theorem pieces_total (positive : 0 < config.numFrames)
    (readable : ∀ {earlier buff later}, buffs = earlier ++ buff :: later →
      Readable config (ForkedBy config earlier) (fields buff)) :
    ∃ after, buffs.foldlM (readBuffer config) simInit = .ok after := by
  induction buffs using List.reverseRecOn with
  | nil => exact ⟨simInit, rfl⟩
  | append_singleton buffs buff ih =>
      obtain ⟨before, runs⟩ := ih fun {earlier other later} split =>
        @readable earlier other (later ++ [buff])
          (by rw [split, List.append_assoc, List.cons_append])
      obtain ⟨ready, -⟩ := pieces_outcome (.simInit config) positive runs
      have last := readable rfl
      rw [← forked_eq positive runs] at last
      obtain ⟨after, executed⟩ := Executed.of_readable ready positive last
      exact ⟨after, foldlM_snoc.mpr ⟨before, runs, executed.execute_eq⟩⟩

end Pieces

/-! ## Lines -/

/-- What is taken for a command and what for a number. -/
structure Format where
  /-- The command that a word stands for. -/
  command : List UInt8 → Option Verb
  /-- The number that a word stands for. -/
  number : List UInt8 → Option Int

/-- A fork with a name, or a load or store of a forked process with all its arguments. -/
def Complete (format : Format) (config : Config) (forked : Nat → Prop) (fields : Fields) : Prop :=
  ∃ cmd verb arg1 arg2 pid, fields.cmd = some cmd ∧ format.command cmd = some verb ∧
    fields.arg1 = some arg1 ∧ format.number arg1 = some pid ∧ 0 ≤ pid ∧ pid < config.maxJobs ∧
    fields.arg2 = some arg2 ∧
    (verb = .fork ∨ format.number arg2 ≠ none ∧ forked pid.toNat ∧
      ∃ arg3, fields.arg3 = some arg3 ∧ format.number arg3 ≠ none)

/-- The reader gets through a file. An identifier that `proc_list` is indexed with passed the
assertion before, so that no fault stands for an index out of range either. -/
structure Survives (format : Format) (config : Config) (file : List UInt8) : Prop where
  /-- No `NULL` is dereferenced, and no assertion fails. -/
  ends : ∃ after, simReaddata config simInit file = .ok after
  /-- The state stays the same through every line that is no complete command. -/
  skips : ∀ {earlier line later before}, lines file = earlier ++ line :: later →
    simReaddata config simInit earlier.flatten = .ok before →
    ¬ Complete format config before.Forked (fields line) →
    ∀ part, part <+: pieces line → part.foldlM (readBuffer config) before = .ok before

/-- Every piece of a file has its tokens, and only complete lines act. -/
structure Harmless (format : Format) (config : Config) (file : List UInt8) : Prop where
  /-- Pieces after those before them. -/
  readable : ∀ {earlier buff later}, pieces file = earlier ++ buff :: later →
    Readable config (ForkedBy config earlier) (fields buff)
  /-- Lines after those before them. -/
  complete : ∀ {earlier line later buff}, lines file = earlier ++ line :: later →
    buff ∈ pieces line → Acts config (fields buff) →
    Complete format config (ForkedBy config (pieces earlier.flatten)) (fields line)

section Lines

variable {config : Config} {format : Format} {file : List UInt8}

/-- A line is read where the lines before it lead. -/
theorem simReaddata_line {earlier later : List (List UInt8)} {line : List UInt8}
    {state after : State} (split : lines file = earlier ++ line :: later)
    (reads : simReaddata config state file = .ok after) :
    ∃ before middle, simReaddata config state earlier.flatten = .ok before ∧
      simReaddata config before line = .ok middle := by
  obtain ⟨middle, upto⟩ : ∃ middle,
      simReaddata config state (earlier.flatten ++ line) = .ok middle := by
    rw [← lines_flatten file, split] at reads
    cases later with
    | nil => exact ⟨after, by simpa using reads⟩
    | cons next later =>
        have closed : Closed (earlier ++ [line]).flatten :=
          @lines_closed file (earlier ++ [line]) later next (by simpa using split)
        rw [show (earlier ++ line :: next :: later).flatten =
          (earlier ++ [line]).flatten ++ (next :: later).flatten by simp,
          simReaddata_append closed] at reads
        obtain ⟨middle, first, -⟩ := bind_eq_ok.mp reads
        exact ⟨middle, by simpa using first⟩
  rw [simReaddata_append (lines_closed split)] at upto
  obtain ⟨before, first, second⟩ := bind_eq_ok.mp upto
  exact ⟨before, middle, first, second⟩

private theorem Survives.harmless (positive : 0 < config.numFrames)
    (survives : Survives format config file) : Harmless format config file where
  readable {earlier buff later} split := by
    obtain ⟨after, ends⟩ := survives.ends
    rw [simReaddata_eq, split, List.foldlM_append] at ends
    obtain ⟨before, runs, ends⟩ := bind_eq_ok.mp ends
    rw [List.foldlM_cons] at ends
    obtain ⟨middle, reads, -⟩ := bind_eq_ok.mp ends
    rw [← forked_eq positive runs]
    exact (Executed.of_execute reads).readable (pieces_outcome (.simInit config) positive runs).1
  complete {earlier line later buff} split member acts := by
    by_contra incomplete
    obtain ⟨after, ends⟩ := survives.ends
    obtain ⟨before, -, runs, -⟩ := simReaddata_line split ends
    obtain ⟨part, rest, parts⟩ := List.append_of_mem member
    have same := runs
    rw [simReaddata_eq] at same
    rw [← forked_eq positive same] at incomplete
    have skips := survives.skips split runs incomplete
    have first := skips part ⟨buff :: rest, parts.symm⟩
    have second := skips (part ++ [buff]) ⟨rest, by rw [parts, List.append_assoc]; rfl⟩
    obtain ⟨same', first', reads⟩ := foldlM_snoc.mp second
    obtain rfl := Except.ok.inj (first.symm.trans first')
    have ready := (pieces_outcome (.simInit config) positive same).1
    exact (readBuffer_outcome ready positive reads).unchanged.mp rfl acts

private theorem Harmless.survives (positive : 0 < config.numFrames)
    (harmless : Harmless format config file) : Survives format config file := by
  have ends : ∃ after, simReaddata config simInit file = .ok after := by
    rw [simReaddata_eq]
    exact pieces_total positive harmless.readable
  refine ⟨ends, fun {earlier line later before} split runs incomplete part => ?_⟩
  rintro ⟨rest, parts⟩
  obtain ⟨after, ends⟩ := ends
  obtain ⟨start, middle, same, reads⟩ := simReaddata_line split ends
  obtain rfl := Except.ok.inj (runs.symm.trans same)
  rw [simReaddata_eq] at runs reads
  rw [forked_eq positive runs] at incomplete
  have ready := (pieces_outcome (.simInit config) positive runs).1
  rw [← parts, List.foldlM_append] at reads
  obtain ⟨final, first, -⟩ := bind_eq_ok.mp reads
  have idle : ∀ buff ∈ part, ¬ Acts config (fields buff) := fun buff member acts =>
    incomplete (harmless.complete split (parts ▸ List.mem_append_left rest member) acts)
  obtain rfl := pieces_eq_of_idle ready positive idle first
  exact first

/-- The reader gets through exactly the files whose pieces are harmless. -/
theorem survives_iff (accepted : config.Accepted) (format : Format) (file : List UInt8) :
    Survives format config file ↔ Harmless format config file :=
  ⟨fun survives => survives.harmless accepted.numFrames_pos,
    fun harmless => harmless.survives accepted.numFrames_pos⟩

/-- Single words for commands, and decimal numbers. -/
def Format.plain : Format where
  command word :=
    if word = ['@'.toUInt8] then some .fork
    else if word = ['l'.toUInt8] then some .load
    else if word = ['s'.toUInt8] then some .store
    else none
  number := CString.number

/-- Lines that fit into the buffer are read one by one. -/
theorem pieces_flatten {lines : List (List UInt8)}
    (fit : ∀ line ∈ lines, ∀ rest, fgets bufferSize (line ++ rest) = some (line, rest)) :
    pieces lines.flatten = lines := by
  induction lines with
  | nil => exact buffers_of_none _ rfl
  | cons line lines ih =>
      rw [pieces, List.flatten_cons, buffers_of_some _ (fit line List.mem_cons_self _)]
      exact congrArg (line :: ·) (ih fun other member => fit other (List.mem_cons_of_mem _ member))

/-- The lines `#x`, `@ 0 a`, `s 0 3 7` and `l 0 3 7`. -/
def commented : List (List UInt8) :=
  [[35, 120, 10], [64, 32, 48, 32, 97, 10], [115, 32, 48, 32, 51, 32, 55, 10],
    [108, 32, 48, 32, 51, 32, 55, 10]]

private theorem commented_eq_append {earlier later : List (List UInt8)} {line : List UInt8}
    (split : commented = earlier ++ line :: later) :
    earlier = [] ∧ line = [35, 120, 10] ∨
      earlier = commented.take 1 ∧ line = [64, 32, 48, 32, 97, 10] ∨
      earlier = commented.take 2 ∧ line = [115, 32, 48, 32, 51, 32, 55, 10] ∨
      earlier = commented.take 3 ∧ line = [108, 32, 48, 32, 51, 32, 55, 10] := by
  rw [commented] at split ⊢
  rcases earlier with _ | ⟨first, _ | ⟨second, _ | ⟨third, _ | ⟨fourth, earlier⟩⟩⟩⟩ <;>
    simp_all

private theorem pieces_commented {part : List (List UInt8)} (sub : part ⊆ commented) :
    pieces part.flatten = part := by
  refine pieces_flatten fun line member rest => ?_
  have whole := sub member
  simp only [commented, List.mem_cons, List.not_mem_nil, or_false] at whole
  rcases whole with rfl | rfl | rfl | rfl <;> rfl

/-- A remark, a fork, a store and a load. -/
theorem survives_iff_commented : Survives .plain Config.defaults commented.flatten := by
  have forked : ∀ {earlier}, [64, 32, 48, 32, 97, 10] ∈ earlier →
      ForkedBy Config.defaults earlier 0 := fun member =>
    ⟨_, member, [64], [48], by decide, by decide, by decide, by decide, by decide⟩
  refine (survives_iff ⟨[], some "references", rfl⟩ .plain _).mpr ⟨?_, ?_⟩
  · intro earlier buff later split
    rw [pieces_commented (List.Subset.refl _)] at split
    obtain ⟨-, rfl⟩ | ⟨-, rfl⟩ | ⟨rfl, rfl⟩ | ⟨rfl, rfl⟩ := commented_eq_append split
    · exact ⟨[35, 120], by decide, trivial⟩
    · exact ⟨[64], by decide, [48], by decide, fun _ => by decide⟩
    · exact ⟨[115], by decide, [48], by decide, by decide, by decide, fun _ => forked (by decide)⟩
    · exact ⟨[108], by decide, [48], by decide, by decide, by decide, fun _ => forked (by decide)⟩
  · intro earlier line later buff split member acts
    rw [(by decide : lines commented.flatten = commented)] at split
    have whole : pieces line = [line] := by
      have alone := @pieces_commented [line] (by rw [split]; simp)
      rwa [List.flatten_singleton] at alone
    obtain rfl := List.mem_singleton.mp (whole ▸ member)
    rw [pieces_commented (by rw [split]; simp)]
    obtain ⟨-, rfl⟩ | ⟨-, rfl⟩ | ⟨rfl, rfl⟩ | ⟨rfl, rfl⟩ := commented_eq_append split
    · have ignored : verb [35, 120] = none := by decide
      exact absurd acts (not_acts_of_ignored (by decide) ignored)
    · exact ⟨[64], .fork, [48], [97], 0, by decide, by decide, by decide, by decide, by decide,
        by decide, by decide, .inl rfl⟩
    · exact ⟨[115], .store, [48], [51], 0, by decide, by decide, by decide, by decide, by decide,
        by decide, by decide, .inr ⟨by decide, forked (by decide), [55], by decide, by decide⟩⟩
    · exact ⟨[108], .load, [48], [51], 0, by decide, by decide, by decide, by decide, by decide,
        by decide, by decide, .inr ⟨by decide, forked (by decide), [55], by decide, by decide⟩⟩

/-- A blank line ends the reader, whatever commands and numbers are. -/
theorem not_survives_blank :
    Config.defaults.Accepted ∧ ∀ format, ¬ Survives format Config.defaults [newline] := by
  refine ⟨⟨[], some "references", rfl⟩, ?_⟩
  rintro format ⟨⟨after, ends⟩, -⟩
  have reads : fgets bufferSize [newline] = some ([newline], []) := by decide
  rw [simReaddata_eq, pieces, buffers_of_some _ reads, buffers_of_none _ rfl] at ends
  cases ends

end Lines

end CS2200.VirtualMemory
