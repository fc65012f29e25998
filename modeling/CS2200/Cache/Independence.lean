import CS2200.Cache.Inclusion
import CS2200.Library.Components
import Mathlib.Data.List.Find

/-!
# Sets are independent

The sets of the cache share nothing but the counter that provides the time stamps. In the reference
cache they are independent components, so that the statistics are sums over the sets. In the
simulator, exchanging two accesses to different sets changes time stamps, but not their order within
a set.
-/

namespace CS2200.Cache

open Recency

/-! ## Blocks up to the values of their time stamps -/

/-- The blocks of two sets differ in their time stamps only, and the stamps of the blocks in use are
in the same order. The stamp of a block that was never used is whatever memory held. -/
structure Alike (ways : Nat) (left right : Nat → Block) : Prop where
  /-- The same blocks are in use. -/
  valid : ∀ way < ways, (left way).valid = (right way).valid
  /-- Tags agree. -/
  tag : ∀ way < ways, (left way).tag = (right way).tag
  /-- Dirty bits agree. -/
  dirty : ∀ way < ways, (left way).dirty = (right way).dirty
  /-- The blocks were used in the same order. -/
  order : ∀ i < ways, ∀ j < ways, (left i).valid = true → (left j).valid = true →
    ((left i).lru < (left j).lru ↔ (right i).lru < (right j).lru)

/-- The blocks in use were used up to a time. -/
def UsedBy (ways : Nat) (blocks : Nat → Block) (time : UInt64) : Prop :=
  ∀ way < ways, (blocks way).valid = true → (blocks way).lru ≤ time

section Alike

variable {ways way : Nat} {left right : Nat → Block} {time later now : UInt64}

theorem Alike.refl (ways : Nat) (blocks : Nat → Block) : Alike ways blocks blocks :=
  ⟨fun _ _ => rfl, fun _ _ => rfl, fun _ _ => rfl, fun _ _ _ _ _ _ => Iff.rfl⟩

theorem UsedBy.mono (used : UsedBy ways left time) (le : time ≤ later) : UsedBy ways left later :=
  fun way inside valid => UInt64.le_trans (used way inside valid) le

private theorem UsedBy.use (used : UsedBy ways left time) (le : time ≤ later) (tag : UInt64)
    (dirty : Bool) :
    UsedBy ways (Function.update left way { valid := true, tag, lru := later, dirty }) later := by
  intro i inside valid
  by_cases here : i = way
  · simp [here]
  · rw [Function.update_of_ne here] at valid ⊢
    exact used.mono le i inside valid

/-- The scans for the least time stamp agree in full sets. -/
theorem Alike.least (alike : Alike ways left right) (positive : 0 < ways)
    (full : ∀ way < ways, (left way).valid = true) {bound : Nat} (le : bound ≤ ways) :
    (List.range bound).foldl
        (fun choose i => if (left choose).lru > (left i).lru then i else choose) 0 =
      (List.range bound).foldl
        (fun choose i => if (right choose).lru > (right i).lru then i else choose) 0 ∧
    (List.range bound).foldl
        (fun choose i => if (left choose).lru > (left i).lru then i else choose) 0 < ways := by
  induction bound with
  | zero => exact ⟨rfl, positive⟩
  | succ bound ih =>
      obtain ⟨same, inside⟩ := ih (Nat.le_of_succ_le le)
      rw [List.range_succ, List.foldl_append, List.foldl_append, List.foldl_cons, List.foldl_cons,
        List.foldl_nil, List.foldl_nil, ← same]
      generalize (List.range bound).foldl
        (fun choose i => if (left choose).lru > (left i).lru then i else choose) 0 = choose at inside
      have order := alike.order bound le choose inside (full bound le) (full choose inside)
      constructor
      · exact if_congr order rfl rfl
      · split
        · exact le
        · exact inside

private theorem Alike.servedBy (alike : Alike ways left right) (positive : 0 < ways)
    (tag : UInt64) :
    servedBy ways left tag = servedBy ways right tag ∧ (servedBy ways left tag).1 < ways := by
  have hits : (List.range ways).find? (fun i => (left i).tag == tag && (left i).valid) =
      (List.range ways).find? (fun i => (right i).tag == tag && (right i).valid) :=
    List.find?_congr fun i member => by
      rw [alike.tag i (List.mem_range.mp member), alike.valid i (List.mem_range.mp member)]
  have frees : (List.range ways).find? (fun i => !(left i).valid) =
      (List.range ways).find? (fun i => !(right i).valid) :=
    List.find?_congr fun i member => by rw [alike.valid i (List.mem_range.mp member)]
  simp only [Cache.servedBy, ← hits, ← frees]
  cases hit : (List.range ways).find? fun i => (left i).tag == tag && (left i).valid with
  | some way => exact ⟨rfl, List.mem_range.mp (List.mem_of_find?_eq_some hit)⟩
  | none =>
      cases free : (List.range ways).find? fun i => !(left i).valid with
      | some way => exact ⟨rfl, List.mem_range.mp (List.mem_of_find?_eq_some free)⟩
      | none =>
          have full : ∀ way < ways, (left way).valid = true := fun way inside => by
            simpa using List.find?_eq_none.mp free way (List.mem_range.mpr inside)
          obtain ⟨same, inside⟩ := alike.least positive full (Nat.le_refl ways)
          simp only [← same]
          exact ⟨by rw [alike.dirty _ inside], inside⟩

theorem Alike.use (alike : Alike ways left right) (leftUsed : UsedBy ways left now)
    (rightUsed : UsedBy ways right now) (leftLater : now < time) (rightLater : now < later)
    (way : Nat) (tag : UInt64) (dirty : Bool) :
    Alike ways (Function.update left way { valid := true, tag, lru := time, dirty })
      (Function.update right way { valid := true, tag, lru := later, dirty }) := by
  refine ⟨fun i inside => ?_, fun i inside => ?_, fun i inside => ?_,
    fun i iInside j jInside iValid jValid => ?_⟩
  · by_cases here : i = way
    · simp [here]
    · simp [here, alike.valid i inside]
  · by_cases here : i = way
    · simp [here]
    · simp [here, alike.tag i inside]
  · by_cases here : i = way
    · simp [here]
    · simp [here, alike.dirty i inside]
  · have older : ∀ i < ways, (left i).valid = true → (left i).lru < time ∧ (right i).lru < later :=
      fun i inside valid =>
        ⟨UInt64.lt_of_le_of_lt (leftUsed i inside valid) leftLater,
          UInt64.lt_of_le_of_lt (rightUsed i inside (alike.valid i inside ▸ valid)) rightLater⟩
    by_cases iHere : i = way <;> by_cases jHere : j = way
    · simp [iHere, jHere]
    · simp only [iHere, Function.update_self, ne_eq, jHere, not_false_eq_true,
        Function.update_of_ne] at jValid ⊢
      obtain ⟨leftOlder, rightOlder⟩ := older j jInside jValid
      exact iff_of_false (UInt64.lt_asymm leftOlder) (UInt64.lt_asymm rightOlder)
    · simp only [jHere, Function.update_self, ne_eq, iHere, not_false_eq_true,
        Function.update_of_ne] at iValid ⊢
      obtain ⟨leftOlder, rightOlder⟩ := older i iInside iValid
      exact iff_of_true leftOlder rightOlder
    · simp only [ne_eq, iHere, jHere, not_false_eq_true, Function.update_of_ne] at iValid jValid ⊢
      exact alike.order i iInside j jInside iValid jValid

end Alike

/-! ## Exchanging accesses -/

/-- No block in use has a time stamp from the future. -/
def State.Timely (state : State) : Prop :=
  ∀ index < setNumber state.inf,
    UsedBy (blockPerSet state.inf) (state.cache index) state.counter

/-- Two states that differ in the values of time stamps only. -/
structure Interchangeable (left right : State) : Prop where
  /-- The parameters. -/
  inf : left.inf = right.inf
  /-- The statistics. -/
  stats : left.stats = right.stats
  /-- The time. -/
  counter : left.counter = right.counter
  /-- The sets. -/
  sets : ∀ index < setNumber left.inf,
    Alike (blockPerSet left.inf) (left.cache index) (right.cache index)
  /-- Stamps are of the past. -/
  left : left.Timely
  /-- Stamps are of the past. -/
  right : right.Timely

section Exchange

variable {state left right : State}

theorem lt_add_one {time : UInt64} (room : time.toNat + 1 < 2 ^ 64) : time < time + 1 := by
  rw [UInt64.lt_iff_toNat_lt, UInt64.toNat_add, UInt64.toNat_one, Nat.mod_eq_of_lt room]
  exact Nat.lt_succ_self _

private theorem Interchangeable.refl (timely : state.Timely) : Interchangeable state state :=
  ⟨rfl, rfl, rfl, fun _ _ => .refl .., timely, timely⟩

theorem State.Timely.access (timely : state.Timely) (room : state.counter.toNat + 1 < 2 ^ 64)
    (access : Access) : (cacheAccess access.rw access.address state).Timely := by
  by_cases legal : access.rw = 'r' ∨ access.rw = 'w'
  · rw [cacheAccess_servedBy legal]
    intro index inRange
    have later := UInt64.le_of_lt (lt_add_one room)
    by_cases here : index = (getindex access.address state.inf).toNat
    · subst here
      simp only [State.serveBy, State.serve, Function.update_self]
      exact (timely _ inRange).use later _ _
    · simp only [State.serveBy, State.serve, Function.update_of_ne here]
      exact (timely index inRange).mono later
  · rwa [cacheAccess_ignored legal]

private theorem Interchangeable.access (alike : Interchangeable left right)
    (allocated : left.inf.Allocated) (room : left.counter.toNat + 1 < 2 ^ 64) (access : Access) :
    Interchangeable (cacheAccess access.rw access.address left)
      (cacheAccess access.rw access.address right) := by
  have leftTimely := alike.left.access room access
  have rightTimely := alike.right.access (by rwa [← alike.counter]) access
  obtain ⟨inf, stats, counter, sets, leftUsed, rightUsed⟩ := alike
  by_cases legal : access.rw = 'r' ∨ access.rw = 'w'
  · have inRange := allocated.getindex_lt access.address
    have before := sets _ inRange
    obtain ⟨served, inside⟩ := before.servedBy (Nat.two_pow_pos _) (gettag access.address left.inf)
    rw [cacheAccess_servedBy legal] at leftTimely ⊢
    rw [cacheAccess_servedBy legal] at rightTimely ⊢
    rw [← inf, ← served] at rightTimely ⊢
    refine ⟨inf, ?_, ?_, fun index indexRange => ?_, leftTimely, rightTimely⟩
    · simp only [State.serveBy, State.serve, stats]
    · simp only [State.serveBy, State.serve, counter]
    · by_cases here : index = (getindex access.address left.inf).toNat
      · subst here
        have later := lt_add_one room
        have used := before.use (leftUsed _ inRange) (by
          have used := rightUsed _ (by rwa [← inf])
          rwa [← inf, ← counter] at used) later later
          (servedBy (blockPerSet left.inf) (left.cache (getindex access.address left.inf).toNat)
            (gettag access.address left.inf)).1 (gettag access.address left.inf)
        simp only [State.serveBy, State.serve, Function.update_self, ← inf, ← counter,
          ← before.dirty _ inside]
        exact used _
      · simp only [State.serveBy, State.serve, ← inf, Function.update_of_ne here]
        exact sets index indexRange
  · rw [cacheAccess_ignored legal] at leftTimely ⊢
    rw [cacheAccess_ignored legal] at rightTimely ⊢
    exact ⟨inf, stats, counter, sets, leftTimely, rightTimely⟩

private theorem Stats.record_comm (stats : Stats)
    (write miss writeBack write' miss' writeBack' : Bool) :
    (stats.record write miss writeBack).record write' miss' writeBack' =
      (stats.record write' miss' writeBack').record write miss writeBack := by
  simp only [Stats.record, Stats.mk.injEq, true_and]
  refine ⟨?_, ?_, ?_, ?_, ?_⟩ <;> exact add_right_comm ..

@[simp] theorem State.serveBy_inf (state : State) (address : UInt64) (write : Bool)
    (served : Nat × Bool × Bool) : (state.serveBy address write served).inf = state.inf := rfl

private theorem State.serveBy_other {index : Nat} {address : UInt64}
    (other : index ≠ (getindex address state.inf).toNat) (write : Bool)
    (served : Nat × Bool × Bool) :
    (state.serveBy address write served).cache index = state.cache index :=
  Function.update_of_ne other ..

private theorem Interchangeable.exchange (timely : state.Timely)
    (room : state.counter.toNat + 2 < 2 ^ 64) {first second : Access}
    (different : getindex first.address state.inf ≠ getindex second.address state.inf) :
    Interchangeable
      (cacheAccess second.rw second.address (cacheAccess first.rw first.address state))
      (cacheAccess first.rw first.address (cacheAccess second.rw second.address state)) := by
  have short : state.counter.toNat + 1 < 2 ^ 64 := Nat.lt_of_succ_lt room
  by_cases firstLegal : first.rw = 'r' ∨ first.rw = 'w'
  case neg =>
    rw [cacheAccess_ignored firstLegal, cacheAccess_ignored firstLegal]
    exact .refl (timely.access short second)
  by_cases secondLegal : second.rw = 'r' ∨ second.rw = 'w'
  case neg =>
    rw [cacheAccess_ignored secondLegal, cacheAccess_ignored secondLegal]
    exact .refl (timely.access short first)
  have apart : (getindex first.address state.inf).toNat ≠
      (getindex second.address state.inf).toNat := fun same => different (UInt64.toNat.inj same)
  have next : (state.counter + 1).toNat + 1 < 2 ^ 64 := by
    rw [UInt64.toNat_add, UInt64.toNat_one, Nat.mod_eq_of_lt short]
    exact room
  have leftTimely := timely.access short first
  have rightTimely := timely.access short second
  rw [cacheAccess_servedBy firstLegal] at leftTimely ⊢
  rw [cacheAccess_servedBy secondLegal] at rightTimely
  rw [cacheAccess_servedBy secondLegal _ state]
  have bothLeft := leftTimely.access next second
  have bothRight := rightTimely.access next first
  rw [cacheAccess_servedBy secondLegal, State.serveBy_inf, State.serveBy_other apart.symm]
    at bothLeft ⊢
  rw [cacheAccess_servedBy firstLegal, State.serveBy_inf, State.serveBy_other apart]
    at bothRight ⊢
  have later := lt_add_one short
  have latest := UInt64.lt_trans later (lt_add_one next)
  refine ⟨rfl, Stats.record_comm .., rfl, fun index inRange => ?_, bothLeft, bothRight⟩
  simp only [State.serveBy, State.serve]
  by_cases atFirst : index = (getindex first.address state.inf).toNat
  · subst atFirst
    simp only [Function.update_self, Function.update_of_ne apart, Function.update_of_ne apart.symm]
    exact (Alike.refl ..).use (timely _ inRange) (timely _ inRange) later latest _ _ _
  · by_cases atSecond : index = (getindex second.address state.inf).toNat
    · subst atSecond
      simp only [Function.update_self, Function.update_of_ne apart, Function.update_of_ne apart.symm]
      exact (Alike.refl ..).use (timely _ inRange) (timely _ inRange) latest later _ _ _
    · simp only [Function.update_of_ne atFirst, Function.update_of_ne atSecond]
      exact .refl ..

theorem cacheAccess_counter (room : state.counter.toNat + 1 < 2 ^ 64) (access : Access) :
    (cacheAccess access.rw access.address state).counter.toNat ≤ state.counter.toNat + 1 := by
  by_cases legal : access.rw = 'r' ∨ access.rw = 'w'
  · rw [cacheAccess_servedBy legal]
    simp only [State.serveBy, State.serve]
    rw [UInt64.toNat_add, UInt64.toNat_one, Nat.mod_eq_of_lt room]
  · rw [cacheAccess_ignored legal]
    exact Nat.le_succ _

private theorem Interchangeable.runTrace {trace : List Access} (alike : Interchangeable left right)
    (allocated : left.inf.Allocated) (room : left.counter.toNat + trace.length < 2 ^ 64) :
    Interchangeable (runTrace left trace) (runTrace right trace) := by
  induction trace generalizing left right with
  | nil => exact alike
  | cons access trace ih =>
      rw [List.length_cons] at room
      have short : left.counter.toNat + 1 < 2 ^ 64 := by omega
      have counter := cacheAccess_counter short access
      refine ih (alike.access allocated short access) (by rwa [cacheAccess_inf]) ?_
      exact Nat.lt_of_le_of_lt (Nat.add_le_add_right counter _) (by omega)

/-- Two accesses to different sets can be exchanged before a trace. -/
theorem Interchangeable.exchange_runTrace (timely : state.Timely)
    (allocated : state.inf.Allocated) {first second : Access} {later : List Access}
    (room : state.counter.toNat + (later.length + 2) < 2 ^ 64)
    (different : getindex first.address state.inf ≠ getindex second.address state.inf) :
    Interchangeable (Cache.runTrace state (first :: second :: later))
      (Cache.runTrace state (second :: first :: later)) := by
  have exchanged := Interchangeable.exchange timely (by omega) different
  have one := cacheAccess_counter (by omega : state.counter.toNat + 1 < 2 ^ 64) first
  have two := cacheAccess_counter (Nat.lt_of_le_of_lt (Nat.succ_le_succ one) (by omega)) second
  have sameInf : (cacheAccess second.rw second.address
      (cacheAccess first.rw first.address state)).inf = state.inf := by
    rw [cacheAccess_inf, cacheAccess_inf]
  refine exchanged.runTrace (by rwa [sameInf]) ?_
  exact Nat.lt_of_le_of_lt (Nat.add_le_add_right (Nat.le_trans two (Nat.succ_le_succ one)) _)
    (by omega)

private theorem runTrace_append (state : State) (earlier later : List Access) :
    runTrace state (earlier ++ later) = runTrace (runTrace state earlier) later :=
  List.foldl_append

private theorem runTrace_timely (timely : state.Timely) (trace : List Access)
    (room : state.counter.toNat + trace.length < 2 ^ 64) :
    (runTrace state trace).Timely ∧
      (runTrace state trace).counter.toNat ≤ state.counter.toNat + trace.length := by
  induction trace generalizing state with
  | nil => exact ⟨timely, Nat.le_refl _⟩
  | cons access trace ih =>
      rw [List.length_cons] at room ⊢
      have short : state.counter.toNat + 1 < 2 ^ 64 := by omega
      have counter := cacheAccess_counter short access
      have bound := Nat.add_le_add_right counter trace.length
      obtain ⟨later, total⟩ := ih (timely.access short access) (by omega)
      exact ⟨later, Nat.le_trans total (by omega)⟩

private theorem cacheInit_timely {inf : Info} (allocated : inf.Allocated)
    (garbage : Nat → Nat → Block) : (cacheInit inf garbage).Timely := by
  intro index inRange way inside valid
  rw [cacheInit_cache allocated garbage inRange inside] at valid
  exact absurd valid Bool.false_ne_true

end Exchange

/-! ## Sums over the sets -/

namespace Reference

/-- The index of the set of an access. -/
def place (inf : Info) (access : Access) : Nat :=
  access.address.toNat / 2 ^ inf.b.toNat % 2 ^ (inf.c.toNat - inf.b.toNat - inf.s.toNat)

/-- What an access does to its set. -/
def next (inf : Info) (entries : List (Nat × Bool)) (access : Access) : List (Nat × Bool) :=
  touch (2 ^ inf.s.toNat) entries (access.address.toNat / 2 ^ (inf.c.toNat - inf.s.toNat))
    (access.rw == 'w')

/-- Whether an access misses its set. -/
def misses (inf : Info) (entries : List (Nat × Bool)) (access : Access) : Bool :=
  (lookup entries (access.address.toNat / 2 ^ (inf.c.toNat - inf.s.toNat))).isNone

/-- Whether an access makes its set write a block back. -/
def evicts (inf : Info) (entries : List (Nat × Bool)) (access : Access) : Bool :=
  writesBack (2 ^ inf.s.toNat) entries
    (access.address.toNat / 2 ^ (inf.c.toNat - inf.s.toNat))

variable {inf : Info} {field : Counts → Nat} {cost : List (Nat × Bool) → Access → Nat}

/-- The sets of the cache with one of its statistics are a system of components. -/
theorem foldl_components
    (counts : ∀ (reference : Reference) (access : Access),
      field (reference.access inf access).counts =
        field reference.counts + cost (reference.sets (place inf access)) access)
    (trace : List Access) (reference : Reference) :
    ((trace.foldl (Reference.access inf) reference).sets,
        field (trace.foldl (Reference.access inf) reference).counts) =
      trace.foldl (Components.step (place inf) (next inf) cost)
        (reference.sets, field reference.counts) := by
  induction trace generalizing reference with
  | nil => rfl
  | cons access trace ih =>
      rw [List.foldl_cons, List.foldl_cons, ih, counts]
      rfl

private theorem field_eq_sum
    (counts : ∀ (reference : Reference) (access : Access),
      field (reference.access inf access).counts =
        field reference.counts + cost (reference.sets (place inf access)) access)
    (zero : field init.counts = 0) (trace : List Access) :
    field (trace.foldl (Reference.access inf) init).counts =
      ∑ index ∈ Finset.range (2 ^ (inf.c.toNat - inf.b.toNat - inf.s.toNat)),
        field ((trace.filter fun access => place inf access = index).foldl
          (Reference.access inf) init).counts := by
  have component : ∀ trace : List Access, field (trace.foldl (Reference.access inf) init).counts =
      (trace.foldl (Components.step (place inf) (next inf) cost) (init.sets, 0)).2 := by
    intro trace
    rw [← zero, ← foldl_components counts]
  have inside : ∀ access ∈ trace,
      place inf access ∈ Finset.range (2 ^ (inf.c.toNat - inf.b.toNat - inf.s.toNat)) :=
    fun access _ => Finset.mem_range.mpr (Nat.mod_lt _ (Nat.two_pow_pos _))
  rw [component, Components.foldl_cost init.sets trace inside]
  exact Finset.sum_congr rfl fun index _ => (component _).symm

end Reference

/-- The accesses of a trace to one set. -/
def accessesOf (inf : Info) (trace : List Access) (index : Nat) : List Access :=
  trace.filter fun access => (getindex access.address inf).toNat = index

section Sums

variable {inf : Info} {trace : List Access}

private theorem field_eq_sum (field : Counts → Nat) (cost : List (Nat × Bool) → Access → Nat)
    (valid : inf.Valid)
    (counts : ∀ (reference : Reference) (access : Access),
      field (reference.access inf access).counts =
        field reference.counts + cost (reference.sets (Reference.place inf access)) access)
    (zero : field Reference.init.counts = 0) (garbage : Nat → Nat → Block)
    (fresh : Nat → Nat → Nat → Block) (short : trace.length < 2 ^ 64) :
    field (runTrace (cacheInit inf garbage) trace).stats.counts =
      ∑ index ∈ Finset.range (setNumber inf),
        field (runTrace (cacheInit inf (fresh index)) (accessesOf inf trace index)).stats.counts := by
  rw [(runTrace_refines valid garbage short).counts, Reference.field_eq_sum counts zero,
    valid.setNumber_eq]
  refine Finset.sum_congr rfl fun index _ => ?_
  have part : (accessesOf inf trace index).length < 2 ^ 64 :=
    Nat.lt_of_le_of_lt (List.length_filter_le ..) short
  rw [(runTrace_refines valid (fresh index) part).counts, accessesOf, List.filter_filter,
    List.filter_filter]
  refine congrArg (fun part => field (part.foldl (Reference.access inf) .init).counts)
    (List.filter_congr fun access _ => ?_)
  rw [valid.getindex_toNat, valid.setNumber_eq, Reference.place, Bool.and_comm]

/-- The misses and write-backs of a trace are the sums of those of its accesses to each set, run from
a fresh cache each. -/
def SumsOverSets (inf : Info) (garbage : Nat → Nat → Block) (fresh : Nat → Nat → Nat → Block)
    (trace : List Access) : Prop :=
  ∃ (total : State) (part : Nat → State),
    simulate (cacheInit inf garbage) trace = some total ∧
    (∀ index < setNumber inf,
      simulate (cacheInit inf (fresh index)) (accessesOf inf trace index) = some (part index)) ∧
    total.stats.readMisses.toNat =
      ∑ index ∈ Finset.range (setNumber inf), (part index).stats.readMisses.toNat ∧
    total.stats.writeMisses.toNat =
      ∑ index ∈ Finset.range (setNumber inf), (part index).stats.writeMisses.toNat ∧
    total.stats.writeBacks.toNat =
      ∑ index ∈ Finset.range (setNumber inf), (part index).stats.writeBacks.toNat

/-- Exchanging two adjacent accesses of a trace to different sets changes no statistic, and in every
set no valid, tag or dirty bit and not the order in which blocks were used. -/
def ExchangesSets (inf : Info) (garbage : Nat → Nat → Block) (trace : List Access) : Prop :=
  ∀ earlier first second later, trace = earlier ++ first :: second :: later →
    getindex first.address inf ≠ getindex second.address inf →
    ∃ before after, simulate (cacheInit inf garbage) trace = some before ∧
      simulate (cacheInit inf garbage) (earlier ++ second :: first :: later) = some after ∧
      before.stats = after.stats ∧
      ∀ index < setNumber inf, Alike (blockPerSet inf) (before.cache index) (after.cache index)

private theorem Info.Valid.sumsOverSets (valid : inf.Valid) (garbage : Nat → Nat → Block)
    (fresh : Nat → Nat → Nat → Block) (short : trace.length < 2 ^ 64) :
    SumsOverSets inf garbage fresh trace := by
  refine ⟨_, _, simulate_eq valid trace, fun _ _ => simulate_eq valid _, ?_, ?_, ?_⟩
  · exact field_eq_sum Counts.readMisses
      (fun entries access =>
        if !(access.rw == 'w') && Reference.misses inf entries access then 1 else 0)
      valid (fun _ _ => rfl) rfl garbage fresh short
  · exact field_eq_sum Counts.writeMisses
      (fun entries access => if access.rw == 'w' && Reference.misses inf entries access then 1 else 0)
      valid (fun _ _ => rfl) rfl garbage fresh short
  · exact field_eq_sum Counts.writeBacks
      (fun entries access => if Reference.evicts inf entries access then 1 else 0)
      valid (fun _ _ => rfl) rfl garbage fresh short

private theorem Info.Valid.exchangesSets (valid : inf.Valid) (garbage : Nat → Nat → Block)
    (short : trace.length < 2 ^ 64) : ExchangesSets inf garbage trace := by
  rintro earlier first second later rfl different
  refine ⟨_, _, simulate_eq valid _, simulate_eq valid _, ?_⟩
  rw [List.length_append, List.length_cons, List.length_cons] at short
  have start : (cacheInit inf garbage).counter.toNat = 0 := UInt64.toNat_zero
  obtain ⟨timely, bound⟩ :=
    runTrace_timely (cacheInit_timely valid.allocated garbage) earlier (by omega)
  have sameInf : (runTrace (cacheInit inf garbage) earlier).inf = inf := runTrace_inf ..
  have room : (runTrace (cacheInit inf garbage) earlier).counter.toNat + (later.length + 2) <
      2 ^ 64 := by omega
  have exchanged := Interchangeable.exchange_runTrace timely
    (by rw [sameInf]; exact valid.allocated) room (by rwa [sameInf])
  rw [← runTrace_append, ← runTrace_append] at exchanged
  have finalInf : (runTrace (cacheInit inf garbage) (earlier ++ first :: second :: later)).inf =
      inf := runTrace_inf ..
  refine ⟨exchanged.stats, fun index inRange => ?_⟩
  have same := exchanged.sets index (by rwa [finalInf])
  rwa [finalInf] at same

/-- With at least two sets, every trace of fewer than `2 ^ 64` accesses runs and its sets are
independent, if and only if no shift is by more than 63 and the numbers of sets and of blocks in a
set are values of an `int`. -/
theorem sets_independent_iff (sets : inf.b.toNat + inf.s.toNat < inf.c.toNat) :
    (∀ garbage fresh trace, trace.length < 2 ^ 64 →
        SumsOverSets inf garbage fresh trace ∧ ExchangesSets inf garbage trace) ↔
      inf.c.toNat - inf.s.toNat ≤ 63 ∧ inf.s.toNat ≤ 30 ∧
        inf.c.toNat - inf.b.toNat - inf.s.toNat ≤ 30 := by
  constructor
  · intro independent
    have unused : Nat → Nat → Block :=
      fun _ _ => { valid := false, tag := 0, lru := 0, dirty := false }
    obtain ⟨total, part, run, -⟩ :=
      (independent unused (fun _ => unused) [⟨'r', 0⟩] (by decide)).1
    obtain ⟨-, tag, ways, index⟩ := valid_of_simulate sets rfl run
    exact ⟨tag, ways, index⟩
  · rintro ⟨tag, ways, index⟩ garbage fresh trace short
    have valid : inf.Valid := ⟨sets, tag, ways, index⟩
    exact ⟨valid.sumsOverSets garbage fresh short, valid.exchangesSets garbage short⟩

/-- Accesses to the two sets of a cache with two ways; two blocks are written back. -/
theorem sets_independent_iff_two_sets :
    SumsOverSets { c := 3, s := 1, b := 1 }
        (fun _ _ => { valid := true, tag := 1, lru := 9, dirty := true })
        (fun _ _ _ => { valid := false, tag := 0, lru := 0, dirty := false })
        [⟨'w', 0⟩, ⟨'r', 2⟩, ⟨'w', 4⟩, ⟨'w', 8⟩, ⟨'r', 2⟩, ⟨'r', 12⟩] ∧
      ExchangesSets { c := 3, s := 1, b := 1 }
        (fun _ _ => { valid := true, tag := 1, lru := 9, dirty := true })
        [⟨'w', 0⟩, ⟨'r', 2⟩, ⟨'w', 4⟩, ⟨'w', 8⟩, ⟨'r', 2⟩, ⟨'r', 12⟩] := by
  have sets : (1 : UInt64).toNat + (1 : UInt64).toNat < (3 : UInt64).toNat := by decide
  exact (@sets_independent_iff { c := 3, s := 1, b := 1 } sets).mpr
    ⟨by decide, by decide, by decide⟩ _ _ _ (by decide)

/-- With `2 ^ 33` sets `set_number` is negative, and the first access finds no set. -/
theorem set_number_overflows :
    setNumber { c := 40, s := 2, b := 5 } = 0 ∧
      ¬SumsOverSets { c := 40, s := 2, b := 5 }
        (fun _ _ => { valid := false, tag := 0, lru := 0, dirty := false })
        (fun _ _ _ => { valid := false, tag := 0, lru := 0, dirty := false }) [⟨'r', 0⟩] := by
  refine ⟨by decide, ?_⟩
  rintro ⟨total, part, run, -⟩
  exact absurd (valid_of_simulate (by decide) rfl run).index (by decide)

end Sums

end CS2200.Cache
