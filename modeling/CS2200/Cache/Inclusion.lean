import CS2200.Cache.Refinement

/-!
# LRU inclusion

Two caches with the same blocks and the same number of sets run on the same trace. In every set the
recency list of the cache with fewer ways holds the most recently used keys of the other one, so
that a larger cache holds whatever a smaller one holds, and never misses more often.
-/

namespace CS2200.Cache

open Recency

/-- Number of accesses that missed. -/
def Counts.misses (counts : Counts) : Nat := counts.readMisses + counts.writeMisses

/-- Two sets of parameters with the same blocks and sets, the second with at least as many ways. -/
structure Info.Extends (small large : Info) : Prop where
  /-- Blocks have the same size. -/
  block : small.b = large.b
  /-- There are equally many sets. -/
  sets : small.c.toNat - small.b.toNat - small.s.toNat =
    large.c.toNat - large.b.toNat - large.s.toNat
  /-- Sets have at least as many blocks. -/
  ways : small.s ≤ large.s

/-- What relates two reference caches that run on the same trace. -/
structure Included (small large : Info) (smaller larger : Reference) : Prop where
  /-- The small sets hold the most recently used keys of the large ones. -/
  keys : ∀ index,
    keys (smaller.sets index) = (keys (larger.sets index)).take (2 ^ small.s.toNat)
  /-- The small sets fit. -/
  smallFits : ∀ index, (smaller.sets index).length ≤ 2 ^ small.s.toNat
  /-- The large sets fit. -/
  largeFits : ∀ index, (larger.sets index).length ≤ 2 ^ large.s.toNat
  /-- The large cache has not missed more often. -/
  misses : larger.counts.misses ≤ smaller.counts.misses

section Reference

variable {small large : Info} {smaller larger : Reference}

theorem Counts.misses_record (counts : Counts) (write miss writeBack : Bool) :
    (counts.record write miss writeBack).misses = counts.misses + if miss then 1 else 0 := by
  cases write <;> cases miss <;> simp [Counts.record, Counts.misses] <;> omega

private theorem Included.init (small large : Info) : Included small large .init .init where
  keys _ := by simp [Reference.init, Recency.keys]
  smallFits _ := Nat.zero_le _
  largeFits _ := Nat.zero_le _
  misses := Nat.le_refl _

theorem Included.mem (included : Included small large smaller larger) {index key : Nat}
    (member : key ∈ Recency.keys (smaller.sets index)) :
    key ∈ Recency.keys (larger.sets index) := by
  rw [included.keys] at member
  exact List.mem_of_mem_take member

private theorem Included.access (included : Included small large smaller larger)
    (geometry : small.Geometry) (extension : small.Extends large) (access : Access) :
    Included small large (smaller.access small access) (larger.access large access) := by
  have ways : 2 ^ small.s.toNat ≤ 2 ^ large.s.toNat :=
    Nat.pow_le_pow_right (by decide) (UInt64.le_iff_toNat_le.mp extension.ways)
  have sets := geometry.sets
  have tagBits : small.c.toNat - small.s.toNat = large.c.toNat - large.s.toNat := by
    have block := congrArg UInt64.toNat extension.block
    have sets' := extension.sets
    omega
  unfold Reference.access
  rw [← extension.block, ← tagBits]
  have index : large.c.toNat - small.b.toNat - large.s.toNat =
      small.c.toNat - small.b.toNat - small.s.toNat := by
    rw [extension.sets, extension.block]
  rw [index]
  generalize access.address.toNat / 2 ^ small.b.toNat %
    2 ^ (small.c.toNat - small.b.toNat - small.s.toNat) = set
  generalize access.address.toNat / 2 ^ (small.c.toNat - small.s.toNat) = tag
  refine ⟨fun other => ?_, fun other => ?_, fun other => ?_, ?_⟩
  · by_cases here : other = set
    · subst here
      simp only [Function.update_self]
      exact keys_touch_take (Nat.two_pow_pos _) ways (included.smallFits other)
        (included.largeFits other) (included.keys other) tag _
    · simp only [Function.update_of_ne here]
      exact included.keys other
  · by_cases here : other = set
    · subst here
      simp only [Function.update_self]
      exact length_touch_le (Nat.two_pow_pos _) (included.smallFits other) tag _
    · simp only [Function.update_of_ne here]
      exact included.smallFits other
  · by_cases here : other = set
    · subst here
      simp only [Function.update_self]
      exact length_touch_le (Nat.two_pow_pos _) (included.largeFits other) tag _
    · simp only [Function.update_of_ne here]
      exact included.largeFits other
  · simp only [Counts.misses_record]
    have hits : (lookup (larger.sets set) tag).isNone = true →
        (lookup (smaller.sets set) tag).isNone = true := by
      intro missing
      by_contra found
      have member := lookup_isSome.mp (by simpa [Option.isSome_iff_ne_none] using found)
      have present := lookup_isSome.mpr (included.mem member)
      simp [Option.isNone_iff_eq_none.mp missing] at present
    have misses := included.misses
    split
    · rw [if_pos (hits ‹_›)]
      omega
    · omega

private theorem Included.runTrace (included : Included small large smaller larger)
    (geometry : small.Geometry) (extension : small.Extends large) (trace : List Access) :
    Included small large (trace.foldl (Reference.access small) smaller)
      (trace.foldl (Reference.access large) larger) := by
  induction trace generalizing smaller larger with
  | nil => exact included
  | cons access trace ih => exact ih (included.access geometry extension access)

end Reference

/-! ## The simulator -/

/-- A set of the simulator holds a tag in a block that is in use. -/
def Holds (state : State) (index : Nat) (tag : UInt64) : Prop :=
  ∃ way < blockPerSet state.inf,
    (state.cache index way).valid = true ∧ (state.cache index way).tag = tag

section Simulator

variable {state : State} {reference : Reference} {small large : Info}

theorem Refines.holds_iff (refines : Refines state reference) {index : Nat}
    (inRange : index < setNumber state.inf) (tag : UInt64) :
    Holds state index tag ↔ tag.toNat ∈ Recency.keys (reference.sets index) := by
  obtain ⟨order, represents⟩ := refines.sets index inRange
  rw [← represents.entries_eq]
  simp only [Recency.keys, List.map_map, List.mem_map, Function.comp, Slot.entry, represents.mem]
  constructor
  · rintro ⟨way, inside, valid, rfl⟩
    exact ⟨way, ⟨inside, valid⟩, rfl⟩
  · rintro ⟨way, ⟨inside, valid⟩, same⟩
    exact ⟨way, inside, valid, UInt64.toNat.inj same⟩

/-- An access hits if and only if its set holds its tag. -/
theorem getblock_isSome (state : State) (address : UInt64) :
    (getblock address state).isSome = true ↔
      Holds state (getindex address state.inf).toNat (gettag address state.inf) := by
  simp [getblock, Holds, List.find?_isSome, and_comm]

private theorem runTrace_filter (state : State) (trace : List Access) :
    runTrace state trace = runTrace state (trace.filter Access.legal) := by
  induction trace generalizing state with
  | nil => rfl
  | cons access trace ih =>
      by_cases legal : access.rw = 'r' ∨ access.rw = 'w'
      · rw [List.filter_cons_of_pos (by simpa [Access.legal] using legal)]
        exact ih _
      · rw [List.filter_cons_of_neg (by simpa [Access.legal] using legal)]
        exact (congrArg (runTrace · trace) (cacheAccess_ignored legal _ state)).trans (ih state)

/-- After a trace from `cache_init` the simulator refines the reference cache. -/
theorem runTrace_refines {inf : Info} (valid : inf.Valid) (garbage : Nat → Nat → Block)
    {trace : List Access} (short : trace.length < 2 ^ 64) :
    Refines (runTrace (cacheInit inf garbage) trace)
      ((trace.filter Access.legal).foldl (Reference.access inf) .init) := by
  rw [runTrace_filter]
  refine (cacheInit_refines valid.allocated garbage).runTrace valid ?_ fun access member => ?_
  · have filtered := List.length_filter_le Access.legal trace
    simp only [Reference.init]
    omega
  · simpa [Access.legal] using (List.mem_filter.mp member).2

private theorem Info.Extends.address (extension : small.Extends large) (smallValid : small.Valid)
    (largeValid : large.Valid) (address : UInt64) :
    (getindex address small).toNat = (getindex address large).toNat ∧
      gettag address small = gettag address large := by
  have block := congrArg UInt64.toNat extension.block
  have sets := extension.sets
  have smallSets := smallValid.sets
  have largeSets := largeValid.sets
  constructor
  · rw [smallValid.getindex_toNat, largeValid.getindex_toNat, block, smallValid.setNumber_eq,
      largeValid.setNumber_eq, sets]
  · have tagBits : small.c.toNat - small.s.toNat = large.c.toNat - large.s.toNat := by omega
    exact UInt64.toNat.inj (by
      rw [smallValid.gettag_toNat, largeValid.gettag_toNat, tagBits])

/-- After every access of a trace each tag in a set of the smaller cache is in the same set of the
larger one, so that whatever hits in the smaller cache hits in the larger one, and the larger one
has not missed more often. -/
theorem lru_inclusion (smallValid : small.Valid) (largeValid : large.Valid)
    (extension : small.Extends large) (smallGarbage largeGarbage : Nat → Nat → Block)
    {trace : List Access} (short : trace.length < 2 ^ 64) :
    ∀ earlier, earlier <+: trace →
      let smaller := runTrace (cacheInit small smallGarbage) earlier
      let larger := runTrace (cacheInit large largeGarbage) earlier
      (∀ index < setNumber small, ∀ tag, Holds smaller index tag → Holds larger index tag) ∧
      (∀ address, (getblock address smaller).isSome = true →
        (getblock address larger).isSome = true) ∧
      larger.stats.readMisses.toNat + larger.stats.writeMisses.toNat ≤
        smaller.stats.readMisses.toNat + smaller.stats.writeMisses.toNat := by
  intro earlier part smaller larger
  have room : earlier.length < 2 ^ 64 := Nat.lt_of_le_of_lt part.length_le short
  have smallRefines : Refines smaller _ := runTrace_refines smallValid smallGarbage room
  have largeRefines : Refines larger _ := runTrace_refines largeValid largeGarbage room
  have included := (Included.init small large).runTrace smallValid.geometry extension
    (earlier.filter Access.legal)
  have smallInf : smaller.inf = small := runTrace_inf ..
  have largeInf : larger.inf = large := runTrace_inf ..
  have sameSets : setNumber small = setNumber large := by
    rw [smallValid.setNumber_eq, largeValid.setNumber_eq, extension.sets]
  have holds : ∀ index < setNumber small, ∀ tag,
      Holds smaller index tag → Holds larger index tag := by
    intro index inRange tag held
    rw [largeRefines.holds_iff (by rwa [largeInf, ← sameSets])]
    exact included.mem ((smallRefines.holds_iff (by rwa [smallInf]) tag).mp held)
  refine ⟨holds, fun address hit => ?_, ?_⟩
  · obtain ⟨sameIndex, sameTag⟩ := extension.address smallValid largeValid address
    rw [getblock_isSome, largeInf, ← sameIndex, ← sameTag]
    rw [getblock_isSome, smallInf] at hit
    exact holds _ (smallValid.getindex_lt address) _ hit
  · have misses := included.misses
    rwa [← smallRefines.counts, ← largeRefines.counts] at misses

/-- A direct-mapped cache and one with two ways, of two sets each, on addresses of one set. -/
theorem lru_inclusion_two_ways :
    (getblock 0 (runTrace
      (cacheInit { c := 3, s := 1, b := 1 } fun _ _ =>
        { valid := true, tag := 1, lru := 9, dirty := true })
      [⟨'w', 0⟩, ⟨'r', 4⟩, ⟨'r', 0⟩])).isSome = true := by
  have smallValid : Info.Valid { c := 2, s := 0, b := 1 } :=
    ⟨by decide, by decide, by decide, by decide⟩
  have largeValid : Info.Valid { c := 3, s := 1, b := 1 } :=
    ⟨by decide, by decide, by decide, by decide⟩
  have extension : Info.Extends { c := 2, s := 0, b := 1 } { c := 3, s := 1, b := 1 } :=
    ⟨by decide, by decide, by decide⟩
  have short : [Access.mk 'w' 0, ⟨'r', 4⟩, ⟨'r', 0⟩].length < 2 ^ 64 := by decide
  have hits := (lru_inclusion smallValid largeValid extension
    (fun _ _ => { valid := true, tag := 1, lru := 9, dirty := true })
    (fun _ _ => { valid := true, tag := 1, lru := 9, dirty := true }) short _
    List.prefix_rfl).2.1 0
  exact hits (by decide +kernel)

end Simulator

end CS2200.Cache
