import CS2200.Cache.Conservation
import CS2200.Cache.Inclusion
import CS2200.Library.Paging

/-!
# How often the cache misses

Whatever replaces least-recently-used replacement, with fewer ways and with knowledge of the trace,
loads blocks at least at a fixed fraction of the rate at which the simulator misses. The simulator
itself misses at least once for every block of the trace, and only so often if the blocks fit.
-/

namespace CS2200.Cache

open Recency

/-! ## The recency lists -/

/-- The set of an access. -/
def Access.index (inf : Info) (access : Access) : Nat := (getindex access.address inf).toNat

/-- The tag of an access. -/
def Access.tag (inf : Info) (access : Access) : Nat := (gettag access.address inf).toNat

/-- The keys of every set, the most recently used first. -/
def Reference.lists (reference : Reference) (index : Nat) : List Nat :=
  keys (reference.sets index)

section Lists

variable {inf : Info} {reference : Reference}

theorem Reference.access_eq (valid : inf.Valid) (reference : Reference) (access : Access) :
    reference.access inf access =
      { sets := Function.update reference.sets (access.index inf)
          (touch (blockPerSet inf) (reference.sets (access.index inf)) (access.tag inf)
            (access.rw == 'w'))
        counts := reference.counts.record (access.rw == 'w')
          (lookup (reference.sets (access.index inf)) (access.tag inf)).isNone
          (writesBack (blockPerSet inf) (reference.sets (access.index inf)) (access.tag inf)) } := by
  have index : access.index inf = access.address.toNat / 2 ^ inf.b.toNat %
      2 ^ (inf.c.toNat - inf.b.toNat - inf.s.toNat) := by
    rw [Access.index, valid.getindex_toNat, valid.setNumber_eq]
  have tag : access.tag inf = access.address.toNat / 2 ^ (inf.c.toNat - inf.s.toNat) :=
    valid.gettag_toNat access.address
  rw [index, tag]
  rfl

theorem Reference.lists_access (valid : inf.Valid)
    (fits : ∀ index, (reference.lists index).length ≤ blockPerSet inf) (access : Access) :
    (reference.access inf access).lists =
        Function.update reference.lists (access.index inf)
          (Paging.promote (blockPerSet inf) (reference.lists (access.index inf))
            (access.tag inf)) ∧
      (reference.access inf access).counts.misses = reference.counts.misses +
        if access.tag inf ∈ reference.lists (access.index inf) then 0 else 1 := by
  have positive : 0 < blockPerSet inf := Nat.two_pow_pos _
  have room : (reference.sets (access.index inf)).length ≤ blockPerSet inf := by
    simpa [Reference.lists, keys] using fits (access.index inf)
  rw [Reference.access_eq valid]
  constructor
  · funext index
    change keys (Function.update reference.sets _ _ index) = _
    by_cases here : index = access.index inf
    · subst here
      rw [Function.update_self, Function.update_self, keys_touch positive room]
      rfl
    · rw [Function.update_of_ne here, Function.update_of_ne here]
      rfl
  · have missed : (lookup (reference.sets (access.index inf)) (access.tag inf)).isNone.toNat =
        if access.tag inf ∈ reference.lists (access.index inf) then 0 else 1 := by
      have found := @lookup_isSome _ _ (reference.sets (access.index inf)) (access.tag inf)
      split
      case isTrue member =>
        rw [Option.isNone_eq_false_iff.mpr (found.mpr member)]
        rfl
      case isFalse outside =>
        rw [Option.isNone_iff_eq_none.mpr (Option.not_isSome_iff_eq_none.mp (mt found.mp outside))]
        rfl
    rw [Counts.misses, Counts.record_misses, missed]
    rfl

/-- What holds of the recency lists in a run. -/
structure Reference.Fits (inf : Info) (reference : Reference) : Prop where
  length : ∀ index, (reference.lists index).length ≤ blockPerSet inf
  nodup : ∀ index, (reference.lists index).Nodup

theorem Reference.Fits.init (inf : Info) : Reference.init.Fits inf where
  length _ := Nat.zero_le _
  nodup _ := List.nodup_nil

theorem Reference.Fits.access (fits : reference.Fits inf) (valid : inf.Valid)
    (access : Access) : (reference.access inf access).Fits inf := by
  have lists := (Reference.lists_access valid fits.length access).1
  constructor
  · intro index
    rw [lists]
    by_cases here : index = access.index inf
    · subst here
      rw [Function.update_self]
      exact Paging.length_promote ..
    · rw [Function.update_of_ne here]
      exact fits.length index
  · intro index
    rw [lists]
    by_cases here : index = access.index inf
    · subst here
      rw [Function.update_self]
      exact Paging.nodup_promote (fits.nodup _) ..
    · rw [Function.update_of_ne here]
      exact fits.nodup index

end Lists

/-! ## A clairvoyant rival -/

section Rival

variable (inf : Info) (accesses : List Access)

/-- A store for every set, before the first access and after every access. A rival may know the
trace and load at any time what it wants, as long as it holds the block that is accessed. -/
structure Rival (size : Nat) where
  /-- The tags that are held at a time, for every set. -/
  held : Nat → Nat → Finset Nat
  /-- Nothing is held before the first access. -/
  empty : ∀ index, held 0 index = ∅
  /-- No set is larger than it may be. -/
  small : ∀ time index, (held time index).card ≤ size
  /-- The block that is accessed is held. -/
  serves : ∀ time access, accesses[time]? = some access →
    access.tag inf ∈ held (time + 1) (access.index inf)

/-- The blocks that a rival loads until a time. -/
def Rival.loads {inf : Info} {accesses : List Access} {size : Nat} (rival : Rival inf accesses size)
    (time : Nat) : Nat :=
  ∑ earlier ∈ Finset.range time,
    Paging.loads (Finset.range (setNumber inf)) (rival.held earlier) (rival.held (earlier + 1))

variable {inf accesses} {size : Nat}

/-- The recency lists of the reference cache at a time. -/
def referenceAt (inf : Info) (accesses : List Access) (time : Nat) : Reference :=
  ((accesses.take time).filter Access.legal).foldl (Reference.access inf) .init

private theorem referenceAt_succ {time : Nat} {access : Access}
    (here : accesses[time]? = some access) : referenceAt inf accesses (time + 1) =
      if access.legal then (referenceAt inf accesses time).access inf access
      else referenceAt inf accesses time := by
  rw [referenceAt, List.take_add_one, here, List.filter_append, List.foldl_append]
  cases legal : access.legal <;> simp [legal, referenceAt]

private theorem fits_referenceAt (valid : inf.Valid) (accesses : List Access) (time : Nat) :
    (referenceAt inf accesses time).Fits inf := by
  unfold referenceAt
  generalize (accesses.take time).filter Access.legal = legal
  induction legal using List.reverseRecOn with
  | nil => exact .init inf
  | append_singleton legal access ih =>
      rw [List.foldl_append]
      exact ih.access valid access

/-- The potential pays for the misses of the cache out of the loads of the rival. -/
theorem Rival.pays (valid : inf.Valid) (rival : Rival inf accesses size) {time : Nat}
    (le : time ≤ accesses.length) :
    (blockPerSet inf + 1 - size) * (referenceAt inf accesses time).counts.misses +
        Paging.total (Finset.range (setNumber inf)) (blockPerSet inf)
          (referenceAt inf accesses time).lists (rival.held time) ≤
      blockPerSet inf * rival.loads time := by
  induction time with
  | zero =>
      simp [referenceAt, Reference.init, Counts.misses, Paging.total, Paging.potential, rival.empty]
  | succ time ih =>
      obtain ⟨access, here⟩ : ∃ access, accesses[time]? = some access :=
        ⟨_, List.getElem?_eq_getElem le⟩
      have fits := fits_referenceAt valid accesses time
      have earlier := ih (Nat.le_of_succ_le le)
      have positive : 0 < blockPerSet inf := Nat.two_pow_pos _
      have inside : access.index inf ∈ Finset.range (setNumber inf) :=
        Finset.mem_range.mpr (valid.getindex_lt access.address)
      have loads : rival.loads (time + 1) = rival.loads time +
          Paging.loads (Finset.range (setNumber inf)) (rival.held time) (rival.held (time + 1)) :=
        Finset.sum_range_succ ..
      rw [referenceAt_succ here, loads, Nat.mul_add]
      split
      case isTrue =>
        obtain ⟨lists, misses⟩ := Reference.lists_access valid fits.length access
        have step := Paging.total_step (rival.held time) positive fits.length inside
          (rival.serves time access here) (rival.small (time + 1) (access.index inf))
        have charge : (blockPerSet inf + 1 - size) *
            (if access.tag inf ∈ (referenceAt inf accesses time).lists (access.index inf) then 0
              else 1) =
            if access.tag inf ∈ (referenceAt inf accesses time).lists (access.index inf) then 0
            else blockPerSet inf + 1 - size := by
          split <;> simp
        rw [lists, misses, Nat.mul_add, charge]
        omega
      case isFalse =>
        have step := Paging.total_load (rival.held time) (Finset.range (setNumber inf))
          (rival.held (time + 1)) fits.length
        omega

/-- Against a rival with `size` blocks in a set, the simulator with `k` ways misses at most
`k / (k + 1 - size)` times as often as the rival loads. -/
theorem misses_competitive (valid : inf.Valid) (garbage : Nat → Nat → Block)
    (rival : Rival inf accesses size) (short : accesses.length < 2 ^ 64) :
    let stats := (runTrace (cacheInit inf garbage) accesses).stats
    (blockPerSet inf + 1 - size) * (stats.readMisses.toNat + stats.writeMisses.toNat) ≤
      blockPerSet inf * rival.loads accesses.length := by
  intro stats
  have counts := (runTrace_refines valid garbage short).counts
  have whole : referenceAt inf accesses accesses.length =
      (accesses.filter Access.legal).foldl (Reference.access inf) .init := by
    rw [referenceAt, List.take_length]
  have misses : stats.readMisses.toNat + stats.writeMisses.toNat =
      (referenceAt inf accesses accesses.length).counts.misses := by
    rw [whole, ← counts]
    rfl
  rw [misses]
  exact (Nat.le_add_right ..).trans (rival.pays valid le_rfl)

/-- The block of the last access, for every set. -/
def lastHeld (inf : Info) (accesses : List Access) : Nat → Nat → Finset Nat
  | 0, _ => ∅
  | time + 1, index =>
      match accesses[time]? with
      | none => ∅
      | some access => if index = access.index inf then {access.tag inf} else ∅

/-- The rival that holds the block of the last access only. -/
def lastBlock (inf : Info) (accesses : List Access) : Rival inf accesses 1 where
  held := lastHeld inf accesses
  empty _ := rfl
  small time index := by
    cases time with
    | zero => exact Nat.zero_le _
    | succ time =>
        cases here : accesses[time]? with
        | none => simp [lastHeld, here]
        | some access =>
            by_cases same : index = access.index inf <;> simp [lastHeld, here, same]
  serves time access here := by simp [lastHeld, here]

theorem misses_competitive_two_ways :
    let inf : Info := { c := 4, s := 1, b := 1 }
    let accesses : List Access := [⟨'w', 0⟩, ⟨'r', 8⟩, ⟨'r', 16⟩]
    let stats := (runTrace (cacheInit inf fun _ _ =>
      { valid := true, tag := 1, lru := 9, dirty := true }) accesses).stats
    (blockPerSet inf + 1 - 1) * (stats.readMisses.toNat + stats.writeMisses.toNat) ≤
      blockPerSet inf * (lastBlock inf accesses).loads accesses.length := by
  intro inf accesses
  have valid : inf.Valid := ⟨by decide, by decide, by decide, by decide⟩
  exact misses_competitive valid _ (lastBlock inf accesses) (by decide)

end Rival

/-! ## Cold misses -/

section Cold

variable {inf : Info} {reference : Reference} {used : Finset (Nat × Nat)}

/-- The blocks that a trace uses, as sets and tags. -/
def usedBlocks (inf : Info) (accesses : List Access) : Finset (Nat × Nat) :=
  (accesses.map fun access => (access.index inf, access.tag inf)).toFinset

/-- The blocks of one set. -/
def blocksOf (used : Finset (Nat × Nat)) (index : Nat) : Finset (Nat × Nat) :=
  used.filter fun block => block.1 = index

/-- The cache holds blocks that were used, and each of them was missed. -/
structure Reference.Cold (reference : Reference) (used : Finset (Nat × Nat)) : Prop where
  mem : ∀ index tag, tag ∈ reference.lists index → (index, tag) ∈ used
  misses : used.card ≤ reference.counts.misses

/-- The cache holds all blocks that were used, and each of them was missed once. -/
structure Reference.Warm (reference : Reference) (used : Finset (Nat × Nat)) : Prop where
  mem : ∀ index tag, (index, tag) ∈ used → tag ∈ reference.lists index
  misses : reference.counts.misses = used.card
  writeBacks : reference.counts.writeBacks = 0

private theorem Reference.Cold.access (cold : reference.Cold used) (valid : inf.Valid)
    (fits : reference.Fits inf) (access : Access) :
    (reference.access inf access).Cold (insert (access.index inf, access.tag inf) used) := by
  obtain ⟨lists, misses⟩ := Reference.lists_access valid fits.length access
  constructor
  · intro index tag member
    rw [lists] at member
    by_cases here : index = access.index inf
    · subst here
      rw [Function.update_self] at member
      obtain rfl | earlier := Paging.mem_of_mem_promote member
      · exact Finset.mem_insert_self ..
      · exact Finset.mem_insert_of_mem (cold.mem _ _ earlier)
    · rw [Function.update_of_ne here] at member
      exact Finset.mem_insert_of_mem (cold.mem _ _ member)
  · rw [misses]
    split
    case isTrue hit =>
      rw [Finset.insert_eq_of_mem (cold.mem _ _ hit)]
      exact cold.misses
    case isFalse =>
      exact (Finset.card_insert_le ..).trans (Nat.succ_le_succ cold.misses)

private theorem Reference.Cold.room (cold : reference.Cold used) (fits : reference.Fits inf)
    (access : Access)
    (small : (blocksOf (insert (access.index inf, access.tag inf) used) (access.index inf)).card ≤
      blockPerSet inf) :
    (access.tag inf :: (reference.lists (access.index inf)).erase (access.tag inf)).length ≤
      blockPerSet inf := by
  have nodup : (access.tag inf ::
      (reference.lists (access.index inf)).erase (access.tag inf)).Nodup :=
    List.nodup_cons.mpr ⟨(fits.nodup _).not_mem_erase, (fits.nodup _).erase _⟩
  have paired := nodup.map (Prod.mk_right_injective (access.index inf))
  rw [← List.length_map (Prod.mk (access.index inf)), ← List.toFinset_card_of_nodup paired]
  refine (Finset.card_le_card fun block member => ?_).trans small
  obtain ⟨tag, held, rfl⟩ := List.mem_map.mp (List.mem_toFinset.mp member)
  refine Finset.mem_filter.mpr ⟨?_, rfl⟩
  obtain rfl | earlier := List.mem_cons.mp held
  · exact Finset.mem_insert_self ..
  · exact Finset.mem_insert_of_mem (cold.mem _ _ (List.mem_of_mem_erase earlier))

private theorem Reference.Warm.access (warm : reference.Warm used) (cold : reference.Cold used)
    (valid : inf.Valid) (fits : reference.Fits inf) (access : Access)
    (small : (blocksOf (insert (access.index inf, access.tag inf) used) (access.index inf)).card ≤
      blockPerSet inf) :
    (reference.access inf access).Warm (insert (access.index inf, access.tag inf) used) := by
  obtain ⟨lists, misses⟩ := Reference.lists_access valid fits.length access
  have room := cold.room fits access small
  constructor
  · intro index tag member
    rw [lists]
    by_cases here : index = access.index inf
    · subst here
      rw [Function.update_self, Paging.mem_promote room]
      obtain same | earlier := Finset.mem_insert.mp member
      · exact .inl (congrArg Prod.snd same)
      · exact .inr (warm.mem _ _ earlier)
    · rw [Function.update_of_ne here]
      obtain same | earlier := Finset.mem_insert.mp member
      · exact absurd (congrArg Prod.fst same) here
      · exact warm.mem _ _ earlier
  · rw [misses, warm.misses]
    split
    case isTrue hit =>
      rw [Finset.insert_eq_of_mem (cold.mem _ _ hit)]
      rfl
    case isFalse missed =>
      rw [Finset.card_insert_of_notMem fun member => missed (warm.mem _ _ member)]
  · have keeps : writesBack (blockPerSet inf) (reference.sets (access.index inf))
        (access.tag inf) = false := by
      by_contra leaves
      simp only [writesBack, Bool.not_eq_false, Bool.and_eq_true, beq_iff_eq] at leaves
      obtain ⟨⟨missing, full⟩, -⟩ := leaves
      have outside : access.tag inf ∉ reference.lists (access.index inf) := fun member =>
        absurd (lookup_isSome.mpr member) (by simpa using missing)
      rw [List.erase_of_not_mem outside, List.length_cons, Reference.lists, keys, List.length_map,
        full] at room
      exact Nat.not_succ_le_self _ room
    rw [Reference.access_eq valid, Counts.record_writeBacks, warm.writeBacks, keeps]
    rfl

theorem usedBlocks_append (accesses : List Access) (access : Access) :
    usedBlocks inf (accesses ++ [access]) =
      insert (access.index inf, access.tag inf) (usedBlocks inf accesses) := by
  ext block
  simp [usedBlocks]

private theorem blocksOf_subset {before after : Finset (Nat × Nat)} (subset : before ⊆ after)
    (index : Nat) : blocksOf before index ⊆ blocksOf after index :=
  Finset.filter_subset_filter _ subset

theorem cold_foldl (valid : inf.Valid) (accesses : List Access) :
    (accesses.foldl (Reference.access inf) .init).Fits inf ∧
      (accesses.foldl (Reference.access inf) .init).Cold (usedBlocks inf accesses) := by
  induction accesses using List.reverseRecOn with
  | nil =>
      exact ⟨.init inf, fun _ _ member => absurd member List.not_mem_nil, Nat.zero_le _⟩
  | append_singleton accesses access ih =>
      rw [List.foldl_append, usedBlocks_append]
      exact ⟨ih.1.access valid access, ih.2.access valid ih.1 access⟩

private theorem warm_foldl (valid : inf.Valid) (accesses : List Access)
    (small : ∀ index, (blocksOf (usedBlocks inf accesses) index).card ≤ blockPerSet inf) :
    (accesses.foldl (Reference.access inf) .init).Warm (usedBlocks inf accesses) := by
  induction accesses using List.reverseRecOn with
  | nil => exact ⟨fun _ _ member => absurd member (Finset.notMem_empty _), rfl, rfl⟩
  | append_singleton accesses access ih =>
      rw [usedBlocks_append] at small ⊢
      rw [List.foldl_append]
      obtain ⟨fits, cold⟩ := cold_foldl valid accesses
      have earlier : ∀ index, (blocksOf (usedBlocks inf accesses) index).card ≤ blockPerSet inf :=
        fun index => (Finset.card_le_card (blocksOf_subset (Finset.subset_insert ..) index)).trans
          (small index)
      exact (ih earlier).access cold valid fits access (small _)

/-- A trace misses at least once for every block that it uses. If the blocks of every set fit into
the set, then it misses only so often, and nothing is written back. -/
theorem misses_cold (valid : inf.Valid) (garbage : Nat → Nat → Block)
    {accesses : List Access} (short : accesses.length < 2 ^ 64) :
    let stats := (runTrace (cacheInit inf garbage) accesses).stats
    let used := usedBlocks inf (accesses.filter Access.legal)
    used.card ≤ stats.readMisses.toNat + stats.writeMisses.toNat ∧
      ((∀ index, (blocksOf used index).card ≤ blockPerSet inf) →
        stats.readMisses.toNat + stats.writeMisses.toNat = used.card ∧
          stats.writeBacks.toNat = 0) := by
  intro stats used
  have counts : stats.counts = _ := (runTrace_refines valid garbage short).counts
  have misses : stats.readMisses.toNat + stats.writeMisses.toNat = stats.counts.misses := rfl
  have writeBacks : stats.writeBacks.toNat = stats.counts.writeBacks := rfl
  rw [misses, writeBacks, counts]
  refine ⟨(cold_foldl valid _).2.misses, fun small => ?_⟩
  have warm := warm_foldl valid _ small
  exact ⟨warm.misses, warm.writeBacks⟩

/-- Three addresses in two blocks of one set. -/
theorem misses_cold_two_ways :
    (runTrace (cacheInit { c := 4, s := 1, b := 1 } fun _ _ =>
      { valid := true, tag := 1, lru := 9, dirty := true })
      [⟨'w', 0⟩, ⟨'r', 8⟩, ⟨'r', 1⟩]).stats.writeBacks.toNat = 0 := by
  have valid : Info.Valid { c := 4, s := 1, b := 1 } :=
    ⟨by decide, by decide, by decide, by decide⟩
  have short : [Access.mk 'w' 0, ⟨'r', 8⟩, ⟨'r', 1⟩].length < 2 ^ 64 := by decide
  refine ((misses_cold valid _ short).2 fun index => ?_).2
  have few : (usedBlocks { c := 4, s := 1, b := 1 }
      ([Access.mk 'w' 0, ⟨'r', 8⟩, ⟨'r', 1⟩].filter Access.legal)).card ≤ 2 := by decide +kernel
  exact (Finset.card_filter_le ..).trans few

end Cold

end CS2200.Cache
