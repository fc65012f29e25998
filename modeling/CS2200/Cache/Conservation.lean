import CS2200.Cache.Refinement
import Mathlib.Algebra.Order.BigOperators.Group.Finset

/-!
# Conservation of blocks

Every block in use came in by a miss and every dirty one by a write, and leaves by a write-back if
it is dirty. The numbers below count without bounds; the statistics show them modulo `2 ^ 64`. The
order in which blocks leave does not matter, so that overflows of the time stamps do not either.
-/

namespace CS2200.Cache

/-! ## Numbers of blocks -/

/-- The blocks of all sets, by set index and way. -/
def cells (inf : Info) : Finset (Nat × Nat) :=
  Finset.range (setNumber inf) ×ˢ Finset.range (blockPerSet inf)

/-- Number of blocks with a property. -/
def State.number (state : State) (property : Block → Bool) : Nat :=
  ∑ cell ∈ cells state.inf, (property (state.cache cell.1 cell.2)).toNat

/-- No set has two blocks in use with the same tag. -/
def State.Distinct (state : State) : Prop :=
  ∀ index < setNumber state.inf, ∀ i < blockPerSet state.inf, ∀ j < blockPerSet state.inf,
    (state.cache index i).valid = true → (state.cache index j).valid = true →
      (state.cache index i).tag = (state.cache index j).tag → i = j

section Number

variable {state : State} {address : UInt64} {way : Nat}

theorem mem_cells {inf : Info} {cell : Nat × Nat} :
    cell ∈ cells inf ↔ cell.1 < setNumber inf ∧ cell.2 < blockPerSet inf := by
  simp [cells]

private theorem State.number_serve
    (inRange : (getindex address state.inf).toNat < setNumber state.inf)
    (inside : way < blockPerSet state.inf) (dirty : Bool) (stats : Stats)
    (property : Block → Bool) :
    (state.serve address way dirty stats).number property +
        (property (state.cache (getindex address state.inf).toNat way)).toNat =
      state.number property + (property
        { valid := true, tag := gettag address state.inf, lru := state.counter + 1, dirty }).toNat := by
  have member : ((getindex address state.inf).toNat, way) ∈ cells state.inf :=
    mem_cells.mpr ⟨inRange, inside⟩
  have others : ∀ cell ∈ (cells state.inf).erase ((getindex address state.inf).toNat, way),
      (state.serve address way dirty stats).cache cell.1 cell.2 = state.cache cell.1 cell.2 := by
    rintro ⟨index, other⟩ erased
    have different := Finset.ne_of_mem_erase erased
    by_cases here : index = (getindex address state.inf).toNat
    · subst here
      have otherWay : other ≠ way := fun same => different (by rw [same])
      simp [State.serve, Function.update_of_ne otherWay]
    · simp [State.serve, Function.update_of_ne here]
  have served : (state.serve address way dirty stats).cache
      (getindex address state.inf).toNat way =
        { valid := true, tag := gettag address state.inf, lru := state.counter + 1, dirty } := by
    simp [State.serve]
  have before : (property (state.cache (getindex address state.inf).toNat way)).toNat +
      ∑ cell ∈ (cells state.inf).erase ((getindex address state.inf).toNat, way),
        (property (state.cache cell.1 cell.2)).toNat = state.number property :=
    Finset.add_sum_erase _ (fun cell => (property (state.cache cell.1 cell.2)).toNat) member
  have after : (property ((state.serve address way dirty stats).cache
        (getindex address state.inf).toNat way)).toNat +
      ∑ cell ∈ (cells state.inf).erase ((getindex address state.inf).toNat, way),
        (property ((state.serve address way dirty stats).cache cell.1 cell.2)).toNat =
      (state.serve address way dirty stats).number property :=
    Finset.add_sum_erase _
      (fun cell => (property ((state.serve address way dirty stats).cache cell.1 cell.2)).toNat)
      member
  rw [Finset.sum_congr rfl fun cell erased => by rw [others cell erased], served] at after
  omega

private theorem State.number_pos (state : State) {cell : Nat × Nat}
    (member : cell ∈ cells state.inf)
    {property : Block → Bool} (holds : property (state.cache cell.1 cell.2) = true) :
    0 < state.number property := by
  have le : (property (state.cache cell.1 cell.2)).toNat ≤ state.number property :=
    Finset.single_le_sum
      (fun (other : Nat × Nat) _ => Nat.zero_le (property (state.cache other.1 other.2)).toNat)
      member
  rw [holds] at le
  exact le

/-- A set keeps distinct tags if an access uses the block that holds its tag, or brings in a tag that
no block holds. -/
theorem State.Distinct.serve (distinct : state.Distinct)
    (alone : ∀ other < blockPerSet state.inf,
      (state.cache (getindex address state.inf).toNat other).valid = true →
        (state.cache (getindex address state.inf).toNat other).tag = gettag address state.inf →
          other = way)
    (dirty : Bool) (stats : Stats) : (state.serve address way dirty stats).Distinct := by
  intro index inRange i iInside j jInside iValid jValid same
  change i < blockPerSet state.inf at iInside
  change j < blockPerSet state.inf at jInside
  by_cases here : index = (getindex address state.inf).toNat
  · subst here
    simp only [State.serve, Function.update_self] at iValid jValid same
    by_cases iHere : i = way <;> by_cases jHere : j = way
    · rw [iHere, jHere]
    · rw [iHere, Function.update_self, Function.update_of_ne jHere] at same
      rw [Function.update_of_ne jHere] at jValid
      exact absurd (alone j jInside jValid same.symm) jHere
    · rw [jHere, Function.update_self, Function.update_of_ne iHere] at same
      rw [Function.update_of_ne iHere] at iValid
      exact absurd (alone i iInside iValid same) iHere
    · rw [Function.update_of_ne iHere] at iValid same
      rw [Function.update_of_ne jHere] at jValid same
      exact distinct _ inRange i iInside j jInside iValid jValid same
  · simp only [State.serve, Function.update_of_ne here] at iValid jValid same
    exact distinct index inRange i iInside j jInside iValid jValid same

variable {write dirty miss writeBack : Bool}

theorem Served.inside (served : Served address state write way dirty miss writeBack) :
    way < blockPerSet state.inf := by
  cases served with
  | hit inside => exact inside
  | fill inside => exact inside
  | evict inside => exact inside

/-- A block that becomes dirty was written, now or before. -/
theorem Served.dirty_le (served : Served address state write way dirty miss writeBack) :
    writeBack.toNat + dirty.toNat ≤
      ((state.cache (getindex address state.inf).toNat way).valid &&
        (state.cache (getindex address state.inf).toNat way).dirty).toNat + write.toNat := by
  cases served with
  | hit _ _ valid =>
      rw [valid]
      cases (state.cache (getindex address state.inf).toNat way).dirty <;> cases write <;> decide
  | fill => simp
  | evict inside _ full => rw [full way inside, Bool.true_and]

/-- A block that comes in use missed, or takes the place of one that is written back. -/
theorem Served.valid_le (served : Served address state write way dirty miss writeBack) :
    writeBack.toNat + 1 ≤
      (state.cache (getindex address state.inf).toNat way).valid.toNat + miss.toNat := by
  cases served with
  | hit _ _ valid => simp [valid]
  | fill => simp
  | evict inside _ full =>
      rw [full way inside]
      exact Nat.add_le_add_right (Bool.toNat_le _) 1

end Number

/-! ## The invariant -/

/-- The statistics that show these numbers in 64 bits. -/
def Counts.stats (counts : Counts) : Stats where
  accesses := .ofNat counts.accesses
  reads := .ofNat counts.reads
  readMisses := .ofNat counts.readMisses
  writes := .ofNat counts.writes
  writeMisses := .ofNat counts.writeMisses
  writeBacks := .ofNat counts.writeBacks

private theorem Counts.stats_record (counts : Counts) (write miss writeBack : Bool) :
    (counts.record write miss writeBack).stats = counts.stats.record write miss writeBack := by
  have add_ite (n : Nat) (condition : Bool) :
      UInt64.ofNat (n + if condition then 1 else 0) =
        UInt64.ofNat n + if condition then 1 else 0 := by
    cases condition <;> simp
  simp only [stats, record, Stats.record, add_ite]
  cases write <;> simp

private theorem Counts.record_writes (counts : Counts) (write miss writeBack : Bool) :
    (counts.record write miss writeBack).writes = counts.writes + write.toNat := by
  cases write <;> rfl

theorem Counts.record_writeBacks (counts : Counts) (write miss writeBack : Bool) :
    (counts.record write miss writeBack).writeBacks = counts.writeBacks + writeBack.toNat := by
  cases writeBack <;> rfl

theorem Counts.record_misses (counts : Counts) (write miss writeBack : Bool) :
    (counts.record write miss writeBack).readMisses +
        (counts.record write miss writeBack).writeMisses =
      counts.readMisses + counts.writeMisses + miss.toNat := by
  cases write <;> cases miss <;> simp [record] <;> omega

/-- The statistics show these numbers, by which blocks in use are misses that were not written back,
and dirty blocks are writes that were not. -/
structure Conserves (state : State) (counts : Counts) : Prop where
  /-- The statistics show the numbers. -/
  stats : state.stats = counts.stats
  /-- An access reads or writes. -/
  accesses : counts.accesses = counts.reads + counts.writes
  /-- Only reads count as missed reads. -/
  readMisses : counts.readMisses ≤ counts.reads
  /-- Only writes count as missed writes. -/
  writeMisses : counts.writeMisses ≤ counts.writes
  /-- Every dirty block was written. -/
  dirty : counts.writeBacks + state.number (fun block => block.valid && block.dirty) ≤ counts.writes
  /-- Every block came in by a miss. -/
  inUse : counts.writeBacks + state.number Block.valid ≤ counts.readMisses + counts.writeMisses
  /-- No set holds a tag twice. -/
  distinct : state.Distinct

section Invariant

variable {state : State} {counts : Counts}

theorem conserves_cacheInit {inf : Info} (allocated : inf.Allocated)
    (garbage : Nat → Nat → Block) :
    Conserves (cacheInit inf garbage)
      { accesses := 0, reads := 0, readMisses := 0, writes := 0, writeMisses := 0,
        writeBacks := 0 } := by
  have unused : ∀ index < setNumber inf, ∀ way < blockPerSet inf,
      ((cacheInit inf garbage).cache index way).valid = false := fun index inRange way inside => by
    rw [cacheInit_cache allocated garbage inRange inside]
  have none (property : Block → Bool)
      (implies : ∀ block, property block = true → block.valid = true) :
      (cacheInit inf garbage).number property = 0 := by
    refine Finset.sum_eq_zero fun cell member => ?_
    obtain ⟨inRange, inside⟩ := mem_cells.mp member
    rw [Bool.toNat_eq_zero, ← Bool.not_eq_true]
    intro holds
    exact Bool.false_ne_true ((unused _ inRange _ inside).symm.trans (implies _ holds))
  refine ⟨rfl, rfl, Nat.le_refl _, Nat.le_refl _, ?_, ?_, ?_⟩
  · rw [none _ fun block both => (Bool.and_eq_true_iff.mp both).1]
  · rw [none _ fun block holds => holds]
  · intro index inRange i iInside j jInside iValid
    exact absurd iValid (by rw [unused index inRange i iInside]; decide)

private theorem Conserves.access (conserves : Conserves state counts)
    (allocated : state.inf.Allocated) {rw : Char}
    (legal : rw = 'r' ∨ rw = 'w') (address : UInt64) :
    ∃ miss writeBack,
      Conserves (cacheAccess rw address state) (counts.record (rw == 'w') miss writeBack) := by
  obtain ⟨way, dirty, miss, writeBack, served, equal⟩ := cacheAccess_eq legal address state
  refine ⟨miss, writeBack, ?_⟩
  have inRange := allocated.getindex_lt address
  obtain ⟨stats, accesses, readMisses, writeMisses, dirtyBlocks, inUse, distinct⟩ := conserves
  have alone : ∀ other < blockPerSet state.inf,
      (state.cache (getindex address state.inf).toNat other).valid = true →
        (state.cache (getindex address state.inf).toNat other).tag = gettag address state.inf →
          other = way := by
    intro other otherInside valid same
    cases served with
    | hit inside tag hit =>
        exact distinct _ inRange other otherInside way inside valid hit (same.trans tag.symm)
    | fill _ absent => exact absurd same (absent other otherInside valid)
    | evict _ absent => exact absurd same (absent other otherInside valid)
  have validNumber := state.number_serve inRange served.inside dirty
    (state.stats.record (rw == 'w') miss writeBack) Block.valid
  have dirtyNumber := state.number_serve inRange served.inside dirty
    (state.stats.record (rw == 'w') miss writeBack) fun block => block.valid && block.dirty
  rw [equal]
  refine ⟨?_, ?_, ?_, ?_, ?_, ?_, distinct.serve alone _ _⟩
  · rw [Counts.stats_record, ← stats]
    rfl
  · cases rw == 'w' <;> simp [Counts.record] <;> omega
  · cases rw == 'w' <;> cases miss <;> simp [Counts.record] <;> omega
  · cases rw == 'w' <;> cases miss <;> simp [Counts.record] <;> omega
  · have bound := served.dirty_le
    rw [Counts.record_writeBacks, Counts.record_writes]
    simp only [Bool.true_and] at dirtyNumber
    omega
  · have bound := served.valid_le
    rw [Counts.record_writeBacks, Counts.record_misses]
    simp only [Bool.toNat_true] at validNumber
    omega

theorem Conserves.runTrace (conserves : Conserves state counts)
    (allocated : state.inf.Allocated) (trace : List Access) :
    ∃ after, Conserves (runTrace state trace) after ∧
      after.reads = counts.reads + trace.countP (·.rw == 'r') ∧
      after.writes = counts.writes + trace.countP (·.rw == 'w') := by
  induction trace generalizing state counts with
  | nil => exact ⟨counts, conserves, rfl, rfl⟩
  | cons access trace ih =>
      by_cases legal : access.rw = 'r' ∨ access.rw = 'w'
      · obtain ⟨miss, writeBack, step⟩ := conserves.access allocated legal access.address
        obtain ⟨after, run, reads, writes⟩ := ih step (by rwa [cacheAccess_inf])
        refine ⟨after, run, ?_, ?_⟩
        · rcases legal with read | write
          · simp [reads, Counts.record, read]
            omega
          · simp [reads, Counts.record, write]
        · rcases legal with read | write
          · simp [writes, Counts.record, read]
          · simp [writes, Counts.record, write]
            omega
      · obtain ⟨read, write⟩ := not_or.mp legal
        obtain ⟨after, run, reads, writes⟩ := ih conserves allocated
        refine ⟨after, ?_, by simpa [read] using reads, by simpa [write] using writes⟩
        simpa only [CS2200.Cache.runTrace, List.foldl_cons, cacheAccess_ignored legal] using run

end Invariant

/-! ## Conservation -/

/-- In every state of every trace no set holds a tag twice and every access is a read or a write.
While there were fewer than `2 ^ 64` writes, write-backs and dirty blocks are at most the writes;
while there were also fewer than `2 ^ 64` reads, write-backs and blocks in use are at most the
misses. -/
theorem blocks_conserved {inf : Info} (allocated : inf.Allocated)
    (garbage : Nat → Nat → Block) (trace : List Access) :
    let state := runTrace (cacheInit inf garbage) trace
    state.Distinct ∧
      state.stats.accesses = state.stats.reads + state.stats.writes ∧
      (trace.countP (·.rw == 'w') < 2 ^ 64 →
        state.stats.writeBacks.toNat + state.number (fun block => block.valid && block.dirty) ≤
          state.stats.writes.toNat) ∧
      (trace.countP (·.rw == 'r') < 2 ^ 64 → trace.countP (·.rw == 'w') < 2 ^ 64 →
        state.stats.writeBacks.toNat + state.number Block.valid ≤
          state.stats.readMisses.toNat + state.stats.writeMisses.toNat) := by
  intro state
  obtain ⟨counts, conserves, reads, writes⟩ :=
    (conserves_cacheInit allocated garbage).runTrace allocated trace
  obtain ⟨stats, accesses, readMisses, writeMisses, dirty, inUse, distinct⟩ := conserves
  rw [Nat.zero_add] at reads writes
  have writeBacks : state.stats.writeBacks.toNat ≤ counts.writeBacks := by
    simp only [state, stats, Counts.stats, UInt64.toNat_ofNat']
    exact Nat.mod_le _ _
  refine ⟨distinct, ?_, fun room => ?_, fun readRoom writeRoom => ?_⟩
  · simp only [state, stats, Counts.stats, accesses, UInt64.ofNat_add]
  · have exactly : state.stats.writes.toNat = counts.writes := by
      simp only [state, stats, Counts.stats, UInt64.toNat_ofNat']
      exact Nat.mod_eq_of_lt (by rwa [writes])
    rw [exactly]
    exact Nat.le_trans (Nat.add_le_add_right writeBacks _) dirty
  · have exactlyRead : state.stats.readMisses.toNat = counts.readMisses := by
      simp only [state, stats, Counts.stats, UInt64.toNat_ofNat']
      exact Nat.mod_eq_of_lt (Nat.lt_of_le_of_lt readMisses (by rwa [reads]))
    have exactlyWrite : state.stats.writeMisses.toNat = counts.writeMisses := by
      simp only [state, stats, Counts.stats, UInt64.toNat_ofNat']
      exact Nat.mod_eq_of_lt (Nat.lt_of_le_of_lt writeMisses (by rwa [writes]))
    rw [exactlyRead, exactlyWrite]
    exact Nat.le_trans (Nat.add_le_add_right writeBacks _) inUse

/-- Two sets of one block: the second write gives up the first block. -/
theorem blocks_conserved_two_writes :
    let state := runTrace
      (cacheInit { c := 2, s := 0, b := 1 } fun _ _ =>
        { valid := true, tag := 1, lru := 9, dirty := true }) [⟨'w', 0⟩, ⟨'w', 4⟩]
    state.stats.writeBacks.toNat + state.number (fun block => block.valid && block.dirty) ≤
        state.stats.writes.toNat ∧
      state.stats.writeBacks.toNat + state.number Block.valid ≤
        state.stats.readMisses.toNat + state.stats.writeMisses.toNat := by
  obtain ⟨-, -, dirty, inUse⟩ := @blocks_conserved { c := 2, s := 0, b := 1 }
    ⟨by decide, by decide, by decide⟩
    (fun _ _ => { valid := true, tag := 1, lru := 9, dirty := true }) [⟨'w', 0⟩, ⟨'w', 4⟩]
  exact ⟨dirty (by decide), inUse (by decide) (by decide)⟩

private theorem dirty_after_write {state : State} (allocated : state.inf.Allocated)
    (address : UInt64) :
    0 < (cacheAccess 'w' address state).number fun block => block.valid && block.dirty := by
  obtain ⟨way, dirty, miss, writeBack, served, equal⟩ := cacheAccess_eq (.inr rfl) address state
  have inRange := allocated.getindex_lt address
  have wrote : dirty = true := by
    cases served with
    | hit => exact Bool.or_true _
    | fill => rfl
    | evict => rfl
  rw [equal]
  have member : ((getindex address state.inf).toNat, way) ∈ cells state.inf :=
    mem_cells.mpr ⟨inRange, served.inside⟩
  refine State.number_pos (state.serve address way dirty _) member ?_
  simp [State.serve, wrote]

private theorem dirty_after_writes {inf : Info} (allocated : inf.Allocated)
    (garbage : Nat → Nat → Block) (address : UInt64) {n : Nat} (positive : 0 < n) :
    0 < (runTrace (cacheInit inf garbage) (.replicate n ⟨'w', address⟩)).number
      fun block => block.valid && block.dirty := by
  obtain ⟨n, rfl⟩ := Nat.exists_eq_add_one.mpr positive
  rw [List.replicate_succ', runTrace, List.foldl_append]
  refine dirty_after_write ?_ address
  exact (runTrace_inf (cacheInit inf garbage) (.replicate n ⟨'w', address⟩)).symm ▸ allocated

/-- After `2 ^ 64` writes to one address the counter of writes shows 0, but the block is dirty. -/
theorem write_counter_wraps :
    ¬ (let state := runTrace
        (cacheInit { c := 15, s := 3, b := 5 } fun _ _ =>
          { valid := false, tag := 0, lru := 0, dirty := false }) (.replicate (2 ^ 64) ⟨'w', 0⟩)
      state.stats.writeBacks.toNat + state.number (fun block => block.valid && block.dirty) ≤
        state.stats.writes.toNat) := by
  intro claimed
  have allocated : Info.Allocated { c := 15, s := 3, b := 5 } :=
    ⟨by decide, by decide, by decide⟩
  obtain ⟨counts, conserves, -, writes⟩ := (conserves_cacheInit allocated fun _ _ =>
    { valid := false, tag := 0, lru := 0, dirty := false }).runTrace allocated
      (.replicate (2 ^ 64) ⟨'w', 0⟩)
  have dirty := dirty_after_writes allocated
    (fun _ _ => { valid := false, tag := 0, lru := 0, dirty := false }) 0 (Nat.two_pow_pos 64)
  have wrapped : counts.writes = 2 ^ 64 := by
    rw [writes, List.countP_replicate, if_pos (by decide), Nat.zero_add]
  have none : counts.stats.writes.toNat = 0 := by
    simp only [Counts.stats, wrapped, UInt64.toNat_ofNat', Nat.mod_self]
  simp only [conserves.stats, none] at claimed
  omega

end CS2200.Cache
