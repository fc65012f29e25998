import CS2200.Cache.Address
import CS2200.Cache.Reference

/-!
# The cache simulator is an LRU cache

Each set of the simulator, whose blocks carry the time of their last use, represents a recency list
of tags. One access of the simulator uses one block: the one that holds the tag, else the first
block that is not in use, else the one with the least time stamp. On the list this is `touch`.
-/

namespace CS2200.Cache

open Recency

/-! ## Scanning a set -/

private theorem foldl_least (value : Nat → UInt64) (bound start : Nat) :
    (∀ i < bound, value ((List.range bound).foldl
        (fun choose i => if value choose > value i then i else choose) start) ≤ value i) ∧
      ((List.range bound).foldl (fun choose i => if value choose > value i then i else choose)
          start = start ∨
        (List.range bound).foldl (fun choose i => if value choose > value i then i else choose)
          start < bound) := by
  induction bound with
  | zero => simp
  | succ bound ih =>
      rw [List.range_succ, List.foldl_append, List.foldl_cons, List.foldl_nil]
      generalize (List.range bound).foldl
        (fun choose i => if value choose > value i then i else choose) start = choose at ih ⊢
      obtain ⟨least, inside⟩ := ih
      split
      case isTrue smaller =>
        refine ⟨fun i inRange => ?_, .inr (Nat.lt_succ_self bound)⟩
        rcases Nat.lt_succ_iff_lt_or_eq.mp inRange with earlier | rfl
        · exact UInt64.le_trans (UInt64.le_of_lt smaller) (least i earlier)
        · exact UInt64.le_refl _
      case isFalse notSmaller =>
        refine ⟨fun i inRange => ?_, inside.imp_right fun less => Nat.lt_succ_of_lt less⟩
        rcases Nat.lt_succ_iff_lt_or_eq.mp inRange with earlier | rfl
        · exact least i earlier
        · exact UInt64.not_lt.mp notSmaller

/-! ## One access -/

/-- Count one access in the statistics of the simulator. -/
def Stats.record (stats : Stats) (write miss writeBack : Bool) : Stats where
  accesses := stats.accesses + 1
  reads := stats.reads + if write then 0 else 1
  readMisses := stats.readMisses + if !write && miss then 1 else 0
  writes := stats.writes + if write then 1 else 0
  writeMisses := stats.writeMisses + if write && miss then 1 else 0
  writeBacks := stats.writeBacks + if writeBack then 1 else 0

/-- No block in use of the set of an address holds its tag. -/
def Absent (address : UInt64) (state : State) : Prop :=
  ∀ way < blockPerSet state.inf,
    (state.cache (getindex address state.inf).toNat way).valid = true →
      (state.cache (getindex address state.inf).toNat way).tag ≠ gettag address state.inf

/-- The way that serves an access, the dirty bit that its block gets, whether the access misses, and
whether it writes a block back. -/
inductive Served (address : UInt64) (state : State) (write : Bool) : Nat → Bool → Bool → Bool → Prop
  | hit {way : Nat} : way < blockPerSet state.inf →
      (state.cache (getindex address state.inf).toNat way).tag = gettag address state.inf →
      (state.cache (getindex address state.inf).toNat way).valid = true →
      Served address state write way
        ((state.cache (getindex address state.inf).toNat way).dirty || write) false false
  | fill {way : Nat} : way < blockPerSet state.inf → Absent address state →
      (state.cache (getindex address state.inf).toNat way).valid = false →
      Served address state write way write true false
  | evict {way : Nat} : way < blockPerSet state.inf → Absent address state →
      (∀ other < blockPerSet state.inf,
        (state.cache (getindex address state.inf).toNat other).valid = true) →
      (∀ other < blockPerSet state.inf,
        (state.cache (getindex address state.inf).toNat way).lru ≤
          (state.cache (getindex address state.inf).toNat other).lru) →
      Served address state write way write true
        (state.cache (getindex address state.inf).toNat way).dirty

/-- Put a block that was used now into a way of the set of an address. -/
def State.serve (state : State) (address : UInt64) (way : Nat) (dirty : Bool) (stats : Stats) :
    State where
  cache := Function.update state.cache (getindex address state.inf).toNat
    (Function.update (state.cache (getindex address state.inf).toNat) way
      { valid := true, tag := gettag address state.inf, lru := state.counter + 1, dirty })
  inf := state.inf
  counter := state.counter + 1
  stats := stats

/-- The way of a set that serves a tag, whether the access misses, and whether it writes a block
back. -/
def servedBy (ways : Nat) (blocks : Nat → Block) (tag : UInt64) : Nat × Bool × Bool :=
  match (List.range ways).find? fun i => (blocks i).tag == tag && (blocks i).valid with
  | some way => (way, false, false)
  | none =>
      match (List.range ways).find? fun i => !(blocks i).valid with
      | some way => (way, true, false)
      | none =>
          let way := (List.range ways).foldl
            (fun choose i => if (blocks choose).lru > (blocks i).lru then i else choose) 0
          (way, true, (blocks way).dirty)

/-- Serve an access by a way. -/
def State.serveBy (state : State) (address : UInt64) (write : Bool) (served : Nat × Bool × Bool) :
    State :=
  state.serve address served.1
    (!served.2.1 && (state.cache (getindex address state.inf).toNat served.1).dirty || write)
    (state.stats.record write served.2.1 served.2.2)

section Spec

variable {address : UInt64} {state : State}

@[simp] theorem State.use_cache_dirty (state : State) (index way : Nat) :
    ((state.use index way).cache index way).dirty = (state.cache index way).dirty := by
  simp [use, modifyBlock]

/-- The way that serves an access holds the tag, is not in use, or is the least recently used of a
full set. -/
theorem servedBy_served (address : UInt64) (state : State) (write : Bool) :
    let served := servedBy (blockPerSet state.inf) (state.cache (getindex address state.inf).toNat)
      (gettag address state.inf)
    Served address state write served.1
      (!served.2.1 && (state.cache (getindex address state.inf).toNat served.1).dirty || write)
      served.2.1 served.2.2 := by
  unfold servedBy
  cases hit : (List.range (blockPerSet state.inf)).find? fun i =>
      (state.cache (getindex address state.inf).toNat i).tag == gettag address state.inf &&
        (state.cache (getindex address state.inf).toNat i).valid with
  | some way =>
      have inside := List.mem_range.mp (List.mem_of_find?_eq_some hit)
      have holds := List.find?_some hit
      simp only [Bool.and_eq_true, beq_iff_eq] at holds
      exact .hit inside holds.1 holds.2
  | none =>
      have absent : Absent address state := fun way inside valid same => by
        simpa [same, valid] using List.find?_eq_none.mp hit way (List.mem_range.mpr inside)
      cases free : (List.range (blockPerSet state.inf)).find? fun i =>
          !(state.cache (getindex address state.inf).toNat i).valid with
      | some way =>
          have inside := List.mem_range.mp (List.mem_of_find?_eq_some free)
          have invalid := List.find?_some free
          exact .fill inside absent (by simpa using invalid)
      | none =>
          have full : ∀ other < blockPerSet state.inf,
              (state.cache (getindex address state.inf).toNat other).valid = true :=
            fun other inside => by
              simpa using List.find?_eq_none.mp free other (List.mem_range.mpr inside)
          obtain ⟨least, inside⟩ := foldl_least
            (fun i => (state.cache (getindex address state.inf).toNat i).lru)
            (blockPerSet state.inf) 0
          refine .evict (inside.elim (fun zero => ?_) id) absent full least
          exact Nat.lt_of_le_of_lt (Nat.le_of_eq zero) (Nat.two_pow_pos _)

private theorem use_of_hit {way : Nat}
    (tag : (state.cache (getindex address state.inf).toNat way).tag = gettag address state.inf)
    (valid : (state.cache (getindex address state.inf).toNat way).valid = true) :
    state.use (getindex address state.inf).toNat way =
      state.serve address way (state.cache (getindex address state.inf).toNat way).dirty
        state.stats := by
  cases block : state.cache (getindex address state.inf).toNat way with
  | mk held heldTag lru dirty =>
      rw [block] at tag valid
      obtain rfl : held = true := valid
      obtain rfl : heldTag = gettag address state.inf := tag
      simp [State.use, State.modifyBlock, State.serve, block]

private theorem findVictim_servedBy (address : UInt64) (state : State)
    (missed : (List.range (blockPerSet state.inf)).find? (fun i =>
      (state.cache (getindex address state.inf).toNat i).tag == gettag address state.inf &&
        (state.cache (getindex address state.inf).toNat i).valid) = none) :
    ∃ way writeBack, servedBy (blockPerSet state.inf)
        (state.cache (getindex address state.inf).toNat) (gettag address state.inf) =
          (way, true, writeBack) ∧
      findVictim address state =
        ((state.use (getindex address state.inf).toNat way).count fun stats =>
          { stats with writeBacks := stats.writeBacks + if writeBack then 1 else 0 }, way) := by
  unfold servedBy findVictim findInvalid
  rw [missed]
  cases free : (List.range (blockPerSet state.inf)).find? fun i =>
      !(state.cache (getindex address state.inf).toNat i).valid with
  | some way => exact ⟨way, false, rfl, by simp [free, State.count]⟩
  | none =>
      refine ⟨_, _, rfl, ?_⟩
      simp only [findLru, free, Option.map_none]
      have sameInf : ∀ way, (state.use (getindex address state.inf).toNat way).inf = state.inf :=
        fun _ => rfl
      simp only [sameInf, State.use_cache_dirty]
      split
      case isTrue => simp
      case isFalse => simp [State.count]

/-- An access is served by the way that the blocks of its set determine. -/
theorem cacheAccess_servedBy {rw : Char} (legal : rw = 'r' ∨ rw = 'w') (address : UInt64)
    (state : State) :
    cacheAccess rw address state =
      state.serveBy address (rw == 'w')
        (servedBy (blockPerSet state.inf) (state.cache (getindex address state.inf).toNat)
          (gettag address state.inf)) := by
  have counted : ∀ change, getblock address (state.count change) =
      ((List.range (blockPerSet state.inf)).find? fun i =>
        (state.cache (getindex address state.inf).toNat i).tag == gettag address state.inf &&
          (state.cache (getindex address state.inf).toNat i).valid).map fun way =>
        ((state.count change).use (getindex address state.inf).toNat way, way) := fun _ => rfl
  cases hit : (List.range (blockPerSet state.inf)).find? fun i =>
      (state.cache (getindex address state.inf).toNat i).tag == gettag address state.inf &&
        (state.cache (getindex address state.inf).toNat i).valid with
  | some way =>
      have holds := List.find?_some hit
      simp only [Bool.and_eq_true, beq_iff_eq] at holds
      have served : servedBy (blockPerSet state.inf)
          (state.cache (getindex address state.inf).toNat) (gettag address state.inf) =
            (way, false, false) := by
        rw [servedBy, hit]
      have used : ∀ change, (state.count change).use (getindex address state.inf).toNat way =
          (state.count change).serve address way
            (state.cache (getindex address state.inf).toNat way).dirty (change state.stats) :=
        fun change => @use_of_hit address (state.count change) way holds.1 holds.2
      rw [served]
      rcases legal with rfl | rfl
      · simp only [cacheAccess, if_true, counted, hit, Option.map_some, used]
        simp [State.serveBy, State.serve, State.count, Stats.record]
      · simp only [cacheAccess, if_true, counted, hit, Option.map_some, used]
        rw [if_neg (by decide)]
        simp [State.serveBy, State.serve, State.count, State.modifyBlock, Stats.record]
  | none =>
      have victim : ∀ change, ∃ way writeBack, servedBy (blockPerSet state.inf)
          (state.cache (getindex address state.inf).toNat) (gettag address state.inf) =
            (way, true, writeBack) ∧
          findVictim address (state.count change) =
            (((state.count change).use (getindex address state.inf).toNat way).count fun stats =>
              { stats with writeBacks := stats.writeBacks + if writeBack then 1 else 0 }, way) :=
        fun change => findVictim_servedBy address (state.count change) hit
      rcases legal with rfl | rfl
      · obtain ⟨way, writeBack, served, chosen⟩ := victim fun stats =>
          { stats with accesses := stats.accesses + 1, reads := stats.reads + 1 }
        rw [served]
        simp only [cacheAccess, if_true, counted, hit, Option.map_none, chosen]
        simp [State.serveBy, State.serve, State.count, State.use, State.modifyBlock, Stats.record]
      · obtain ⟨way, writeBack, served, chosen⟩ := victim fun stats =>
          { stats with accesses := stats.accesses + 1, writes := stats.writes + 1 }
        rw [served]
        simp only [cacheAccess, if_true, counted, hit, Option.map_none, chosen]
        rw [if_neg (by decide)]
        simp [State.serveBy, State.serve, State.count, State.use, State.modifyBlock, Stats.record]

/-- An access uses one block and counts itself; reads and writes do so alike. -/
theorem cacheAccess_eq {rw : Char} (legal : rw = 'r' ∨ rw = 'w') (address : UInt64)
    (state : State) :
    ∃ way dirty miss writeBack, Served address state (rw == 'w') way dirty miss writeBack ∧
      cacheAccess rw address state =
        state.serve address way dirty (state.stats.record (rw == 'w') miss writeBack) :=
  ⟨_, _, _, _, servedBy_served address state (rw == 'w'), cacheAccess_servedBy legal address state⟩

theorem cacheAccess_ignored {rw : Char} (illegal : ¬(rw = 'r' ∨ rw = 'w')) (address : UInt64)
    (state : State) : cacheAccess rw address state = state := by
  obtain ⟨read, write⟩ := not_or.mp illegal
  rw [cacheAccess, if_neg read, if_neg write]

theorem cacheAccess_inf (rw : Char) (address : UInt64) (state : State) :
    (cacheAccess rw address state).inf = state.inf := by
  by_cases legal : rw = 'r' ∨ rw = 'w'
  · obtain ⟨way, dirty, miss, writeBack, -, equal⟩ := cacheAccess_eq legal address state
    rw [equal]
    rfl
  · rw [cacheAccess_ignored legal]

end Spec

/-! ## The simulation relation -/

/-- The numbers that the statistics of the simulator show. -/
def Stats.counts (stats : Stats) : Counts where
  accesses := stats.accesses.toNat
  reads := stats.reads.toNat
  readMisses := stats.readMisses.toNat
  writes := stats.writes.toNat
  writeMisses := stats.writeMisses.toNat
  writeBacks := stats.writeBacks.toNat

/-- A block as a time-stamped slot. -/
def Block.slot (block : Block) : Slot Nat where
  valid := block.valid
  key := block.tag.toNat
  stamp := block.lru.toNat
  dirty := block.dirty

/-- No counter exceeds the number of accesses. -/
structure Counts.Bounded (counts : Counts) : Prop where
  /-- Reads. -/
  reads : counts.reads ≤ counts.accesses
  /-- Reads that missed. -/
  readMisses : counts.readMisses ≤ counts.accesses
  /-- Writes. -/
  writes : counts.writes ≤ counts.accesses
  /-- Writes that missed. -/
  writeMisses : counts.writeMisses ≤ counts.accesses
  /-- Write-backs. -/
  writeBacks : counts.writeBacks ≤ counts.accesses

/-- The simulator shows the statistics of the reference cache, and each of its sets represents the
recency list of the reference cache. -/
structure Refines (state : State) (reference : Reference) : Prop where
  /-- Each set represents a recency list. -/
  sets : ∀ index < setNumber state.inf, ∃ order,
    Represents (fun way => (state.cache index way).slot) (blockPerSet state.inf)
      state.counter.toNat order (reference.sets index)
  /-- The statistics agree. -/
  counts : state.stats.counts = reference.counts
  /-- Time is the number of accesses. -/
  counter : state.counter.toNat = reference.counts.accesses
  /-- No counter exceeds the number of accesses. -/
  bounded : reference.counts.Bounded

private theorem Counts.Bounded.record {counts : Counts} (bounded : counts.Bounded)
    (write miss writeBack : Bool) : (counts.record write miss writeBack).Bounded := by
  obtain ⟨reads, readMisses, writes, writeMisses, writeBacks⟩ := bounded
  cases write <;> cases miss <;> cases writeBack <;> constructor <;>
    simp [Counts.record] <;> omega

private theorem toNat_add_ite {value : UInt64} (room : value.toNat + 1 < 2 ^ 64)
    (condition : Bool) :
    (value + if condition then 1 else 0).toNat = value.toNat + if condition then 1 else 0 := by
  cases condition with
  | false => simp
  | true =>
      rw [if_pos rfl, if_pos rfl, UInt64.toNat_add, UInt64.toNat_one, Nat.mod_eq_of_lt room]

/-- Counting in 64 bits is counting, while there were less than `2 ^ 64 - 1` accesses. -/
theorem Stats.counts_record {stats : Stats} (bounded : stats.counts.Bounded)
    (room : stats.counts.accesses + 1 < 2 ^ 64) (write miss writeBack : Bool) :
    (stats.record write miss writeBack).counts = stats.counts.record write miss writeBack := by
  obtain ⟨reads, readMisses, writes, writeMisses, writeBacks⟩ := bounded
  simp only [Stats.counts] at reads readMisses writes writeMisses writeBacks room
  have accesses : (stats.accesses + 1).toNat = stats.accesses.toNat + 1 := by
    rw [UInt64.toNat_add, UInt64.toNat_one, Nat.mod_eq_of_lt room]
  have read : (stats.reads + if write then 0 else 1).toNat =
      stats.reads.toNat + if write then 0 else 1 := by
    have flipped := toNat_add_ite (Nat.lt_of_le_of_lt (Nat.succ_le_succ reads) room) (!write)
    cases write
    · simpa using flipped
    · simp
  simp only [Stats.counts, Stats.record, Counts.record, accesses, read,
    toNat_add_ite (Nat.lt_of_le_of_lt (Nat.succ_le_succ readMisses) room),
    toNat_add_ite (Nat.lt_of_le_of_lt (Nat.succ_le_succ writes) room),
    toNat_add_ite (Nat.lt_of_le_of_lt (Nat.succ_le_succ writeMisses) room),
    toNat_add_ite (Nat.lt_of_le_of_lt (Nat.succ_le_succ writeBacks) room)]

section Step

variable {state : State} {reference : Reference} {address : UInt64}

private theorem Served.touch {way : Nat} {write dirty miss writeBack : Bool} {order : List Nat}
    {entries : List (Nat × Bool)}
    (served : Served address state write way dirty miss writeBack)
    (represents : Represents (fun way => (state.cache (getindex address state.inf).toNat way).slot)
      (blockPerSet state.inf) state.counter.toNat order entries)
    (stats : Stats) (room : state.counter.toNat + 1 < 2 ^ 64) :
    Represents
        (fun other => ((state.serve address way dirty stats).cache
          (getindex address state.inf).toNat other).slot)
        (blockPerSet state.inf) (state.counter.toNat + 1) (way :: order.erase way)
        (touch (blockPerSet state.inf) entries (gettag address state.inf).toNat write) ∧
      miss = (lookup entries (gettag address state.inf).toNat).isNone ∧
      writeBack = writesBack (blockPerSet state.inf) entries (gettag address state.inf).toNat := by
  have later : (state.counter + 1).toNat = state.counter.toNat + 1 := by
    rw [UInt64.toNat_add, UInt64.toNat_one, Nat.mod_eq_of_lt room]
  have slots : (fun other => ((state.serve address way dirty stats).cache
      (getindex address state.inf).toNat other).slot) =
      Function.update (fun way => (state.cache (getindex address state.inf).toNat way).slot) way
        { valid := true, key := (gettag address state.inf).toNat, stamp := state.counter.toNat + 1
          dirty } := by
    funext other
    by_cases here : other = way
    · simp [State.serve, here, Block.slot, later]
    · simp [State.serve, here]
  have different : Absent address state → ∀ other < blockPerSet state.inf,
      (state.cache (getindex address state.inf).toNat other).slot.valid = true →
        (state.cache (getindex address state.inf).toNat other).slot.key ≠
          (gettag address state.inf).toNat :=
    fun absent other inside valid same => absent other inside valid (UInt64.toNat.inj same)
  rw [slots]
  cases served with
  | hit inside tag valid =>
      have key : (state.cache (getindex address state.inf).toNat way).slot.key =
          (gettag address state.inf).toNat := congrArg UInt64.toNat tag
      have found := represents.lookup_of_valid inside valid
      have moved := represents.hit inside valid write
      rw [key] at found moved
      exact ⟨moved, by simp [found], by simp [writesBack, found]⟩
  | fill inside absent invalid =>
      have missing := represents.lookup_of_absent (different absent)
      obtain ⟨moved, kept⟩ := represents.fill inside invalid (different absent) write
      exact ⟨moved, by simp [missing], kept.symm⟩
  | evict inside absent full least =>
      have missing := represents.lookup_of_absent (different absent)
      obtain ⟨moved, lost⟩ := represents.evict inside full
        (fun other inRange => UInt64.le_iff_toNat_le.mp (least other inRange)) (different absent)
        write
      exact ⟨moved, by simp [missing], lost.symm⟩

private theorem Refines.access (refines : Refines state reference) (valid : state.inf.Valid)
    (room : reference.counts.accesses + 1 < 2 ^ 64) {access : Access}
    (legal : access.rw = 'r' ∨ access.rw = 'w') :
    Refines (cacheAccess access.rw access.address state)
      (reference.access state.inf access) := by
  obtain ⟨way, dirty, miss, writeBack, served, equal⟩ :=
    cacheAccess_eq legal access.address state
  obtain ⟨sets, counts, counter, bounded⟩ := refines
  have index := valid.getindex_toNat access.address
  have inRange := valid.getindex_lt access.address
  have sameIndex : access.address.toNat / 2 ^ state.inf.b.toNat %
      2 ^ (state.inf.c.toNat - state.inf.b.toNat - state.inf.s.toNat) =
        (getindex access.address state.inf).toNat := by
    rw [index, valid.setNumber_eq]
  have room' : state.counter.toNat + 1 < 2 ^ 64 := by rwa [counter]
  have later : (state.counter + 1).toNat = state.counter.toNat + 1 := by
    rw [UInt64.toNat_add, UInt64.toNat_one, Nat.mod_eq_of_lt room']
  obtain ⟨order, represents⟩ := sets _ inRange
  obtain ⟨touched, missed, wroteBack⟩ := served.touch represents
    (state.stats.record (access.rw == 'w') miss writeBack) room'
  have next : reference.access state.inf access =
      { sets := Function.update reference.sets (getindex access.address state.inf).toNat
          (touch (blockPerSet state.inf)
            (reference.sets (getindex access.address state.inf).toNat)
            (gettag access.address state.inf).toNat (access.rw == 'w'))
        counts := reference.counts.record (access.rw == 'w') miss writeBack } := by
    simp only [Reference.access, sameIndex, ← valid.gettag_toNat, missed, wroteBack, blockPerSet]
  rw [equal, next]
  refine ⟨fun other inside => ?_, ?_, ?_, bounded.record _ _ _⟩
  · by_cases here : other = (getindex access.address state.inf).toNat
    · subst here
      refine ⟨way :: order.erase way, ?_⟩
      simpa only [Function.update_self, State.serve, later] using touched
    · obtain ⟨otherOrder, otherRepresents⟩ := sets other inside
      refine ⟨otherOrder, ?_⟩
      simpa only [Function.update_of_ne here, State.serve, later] using
        otherRepresents.mono (Nat.le_succ _)
  · rw [← counts] at bounded room
    simp only [State.serve, Stats.counts_record bounded room, counts]
  · simp only [State.serve, later, counter, Counts.record]

theorem runTrace_inf (state : State) (trace : List Access) :
    (runTrace state trace).inf = state.inf := by
  induction trace generalizing state with
  | nil => rfl
  | cons access trace ih => exact (ih _).trans (cacheAccess_inf ..)

theorem simulate_eq (valid : state.inf.Valid) (trace : List Access) :
    simulate state trace = some (runTrace state trace) := by
  induction trace generalizing state with
  | nil => rfl
  | cons access trace ih =>
      have inf := cacheAccess_inf access.rw access.address state
      have defined := (Info.defined_iff valid.sets access.address).mpr valid
      rw [simulate, decide_eq_true defined, Bool.not_true, Bool.and_false]
      exact ih (by rwa [inf])

/-- For other exponents already the first access is undefined. -/
theorem valid_of_simulate (sets : state.inf.b.toNat + state.inf.s.toNat < state.inf.c.toNat)
    {access : Access} (legal : access.legal = true) {trace : List Access} {after : State}
    (run : simulate state (access :: trace) = some after) : state.inf.Valid := by
  rw [simulate, legal, Bool.true_and] at run
  by_contra invalid
  rw [decide_eq_false (mt (Info.defined_iff sets access.address).mp invalid)] at run
  exact absurd run nofun

private theorem Reference.access_accesses (inf : Info) (reference : Reference) (access : Access) :
    (reference.access inf access).counts.accesses = reference.counts.accesses + 1 := rfl

theorem Refines.runTrace {trace : List Access} (refines : Refines state reference)
    (valid : state.inf.Valid) (room : reference.counts.accesses + trace.length < 2 ^ 64)
    (legal : ∀ access ∈ trace, access.rw = 'r' ∨ access.rw = 'w') :
    Refines (runTrace state trace) (trace.foldl (Reference.access state.inf) reference) := by
  induction trace generalizing state reference with
  | nil => exact refines
  | cons access trace ih =>
      rw [List.length_cons] at room
      have step := refines.access valid (by omega) (legal access List.mem_cons_self)
      have inf := cacheAccess_inf access.rw access.address state
      have later := ih step (by rwa [inf])
        (by rw [Reference.access_accesses]; omega)
        fun other member => legal other (List.mem_cons_of_mem access member)
      rwa [inf] at later

/-- `cache_init` initialises every block that is looked at. -/
theorem cacheInit_cache {inf : Info} (allocated : inf.Allocated) (garbage : Nat → Nat → Block)
    {index way : Nat} (inRange : index < setNumber inf) (inside : way < blockPerSet inf) :
    (cacheInit inf garbage).cache index way =
      { garbage index way with valid := false, dirty := false } :=
  if_pos ⟨inRange, allocated.blockNumber_eq ▸ inside⟩

/-- After `cache_init` every set represents the empty list, whatever memory held before. -/
theorem cacheInit_refines {inf : Info} (allocated : inf.Allocated)
    (garbage : Nat → Nat → Block) : Refines (cacheInit inf garbage) .init where
  sets index inRange := by
    refine ⟨[], Represents.empty fun way inside => ?_⟩
    simp [cacheInit_cache allocated garbage inRange inside, Block.slot]
  counts := rfl
  counter := rfl
  bounded := ⟨Nat.le_refl _, Nat.le_refl _, Nat.le_refl _, Nat.le_refl _, Nat.le_refl _⟩

/-- After every access of a trace the simulator shows the statistics of the reference cache. -/
theorem cache_refines_lru {inf : Info} (valid : inf.Valid) (garbage : Nat → Nat → Block)
    {trace : List Access} (short : trace.length < 2 ^ 64)
    (legal : ∀ access ∈ trace, access.rw = 'r' ∨ access.rw = 'w') :
    ∀ earlier, earlier <+: trace →
      (CS2200.Cache.runTrace (cacheInit inf garbage) earlier).stats.counts =
        (earlier.foldl (Reference.access inf) .init).counts := by
  intro earlier part
  have room : Reference.init.counts.accesses + earlier.length < 2 ^ 64 :=
    Nat.lt_of_le_of_lt (by simpa [Reference.init] using part.length_le) short
  exact ((cacheInit_refines valid.allocated garbage).runTrace valid room
    fun access member => legal access (part.subset member)).counts

/-- Three addresses of one set with two ways: the written block is given up. -/
theorem cache_refines_lru_two_ways :
    (CS2200.Cache.runTrace
      (cacheInit { c := 4, s := 1, b := 1 } fun _ _ =>
        { valid := true, tag := 1, lru := 9, dirty := true })
      [⟨'w', 0⟩, ⟨'r', 8⟩, ⟨'r', 16⟩]).stats.counts =
    { accesses := 3, reads := 2, readMisses := 2, writes := 1, writeMisses := 1,
      writeBacks := 1 } := by
  have valid : Info.Valid { c := 4, s := 1, b := 1 } :=
    ⟨by decide, by decide, by decide, by decide⟩
  rw [cache_refines_lru valid _ (by decide) (by decide) _ List.prefix_rfl]
  decide

end Step

end CS2200.Cache
