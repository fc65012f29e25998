import CS2200.Cache.Inclusion

/-!
# Reads and writes replace alike

The code of `cache_access` treats reads and writes separately. Two traces over the same addresses,
the second with more writes, keep the same blocks in the same order, and the second has more dirty
blocks.
-/

namespace CS2200.Cache

open Recency

/-- An access to the same address, which writes if the other one writes. -/
structure Access.Weakens (access other : Access) : Prop where
  /-- The address is the same. -/
  address : access.address = other.address
  /-- Both are reads or writes, or both are ignored. -/
  legal : access.legal = other.legal
  /-- A write stays a write. -/
  write : access.rw = 'w' → other.rw = 'w'

/-- What relates two reference caches with the same blocks. -/
structure Weaker (reference other : Reference) : Prop where
  /-- The sets of the first cache are the cleaner ones. -/
  sets : ∀ index, Cleaner (reference.sets index) (other.sets index)
  /-- Both caches missed equally often. -/
  misses : reference.counts.misses = other.counts.misses
  /-- The first cache wrote back less. -/
  writeBacks : reference.counts.writeBacks ≤ other.counts.writeBacks

section Reference

variable {inf : Info} {reference other : Reference} {trace trace' : List Access}

private theorem Weaker.init : Weaker .init .init := ⟨fun _ => .nil, rfl, Nat.le_refl _⟩

private theorem Weaker.access (weaker : Weaker reference other) (inf : Info)
    {access access' : Access} (weakens : access.Weakens access') :
    Weaker (reference.access inf access) (other.access inf access') := by
  have writes : (access.rw == 'w') = true → (access'.rw == 'w') = true := by
    simpa using weakens.write
  unfold Reference.access
  rw [weakens.address]
  generalize access'.address.toNat / 2 ^ inf.b.toNat %
    2 ^ (inf.c.toNat - inf.b.toNat - inf.s.toNat) = set
  generalize access'.address.toNat / 2 ^ (inf.c.toNat - inf.s.toNat) = tag
  have cleaner := weaker.sets set
  refine ⟨fun index => ?_, ?_, ?_⟩
  · by_cases here : index = set
    · subst here
      simp only [Function.update_self]
      exact cleaner.touch _ tag writes
    · simp only [Function.update_of_ne here]
      exact weaker.sets index
  · have missed : (lookup (reference.sets set) tag).isNone =
        (lookup (other.sets set) tag).isNone := by
      rcases cleaner.lookup tag with ⟨missing, missing'⟩ | ⟨entry, entry', found, found', -⟩
      · rw [missing, missing']
      · rw [found, found']
        rfl
    simp only [Counts.misses_record, weaker.misses, missed]
  · refine Nat.add_le_add weaker.writeBacks ?_
    split
    case isTrue back => rw [if_pos (cleaner.writesBack back)]
    case isFalse => exact Nat.zero_le _

private theorem Weaker.runTrace (weaker : Weaker reference other) (inf : Info)
    (weakens : List.Forall₂ Access.Weakens trace trace') :
    Weaker (trace.foldl (Reference.access inf) reference)
      (trace'.foldl (Reference.access inf) other) := by
  induction weakens generalizing reference other with
  | nil => exact weaker
  | cons first rest ih => exact ih (weaker.access inf first)

private theorem Access.Weakens.filter (weakens : List.Forall₂ Access.Weakens trace trace') :
    List.Forall₂ Access.Weakens (trace.filter Access.legal) (trace'.filter Access.legal) := by
  induction weakens with
  | nil => exact .nil
  | @cons access access' trace trace' first rest ih =>
      by_cases legal : access.legal = true
      · rw [List.filter_cons_of_pos legal, List.filter_cons_of_pos (first.legal ▸ legal)]
        exact .cons first ih
      · rwa [List.filter_cons_of_neg legal, List.filter_cons_of_neg (first.legal ▸ legal)]

end Reference

/-! ## The simulator -/

section Simulator

variable {inf : Info}

/-- Before every access of two traces the same addresses hit in both caches; the caches have missed
equally often, and the second has written back at least as much. -/
def ReplacesAlike (inf : Info) (garbage garbage' : Nat → Nat → Block) (trace trace' : List Access) :
    Prop :=
  ∀ i, ∃ plain written, simulate (cacheInit inf garbage) (trace.take i) = some plain ∧
    simulate (cacheInit inf garbage') (trace'.take i) = some written ∧
    (∀ address, (getblock address plain).isSome = (getblock address written).isSome) ∧
    plain.stats.readMisses.toNat + plain.stats.writeMisses.toNat =
      written.stats.readMisses.toNat + written.stats.writeMisses.toNat ∧
    plain.stats.writeBacks ≤ written.stats.writeBacks

private theorem Info.Valid.replacesAlike (valid : inf.Valid) (garbage garbage' : Nat → Nat → Block)
    {trace trace' : List Access} (weakens : List.Forall₂ Access.Weakens trace trace')
    (short : trace.length < 2 ^ 64) : ReplacesAlike inf garbage garbage' trace trace' := by
  intro i
  refine ⟨_, _, simulate_eq valid _, simulate_eq valid _, ?_⟩
  have room : (trace.take i).length < 2 ^ 64 :=
    Nat.lt_of_le_of_lt (by rw [List.length_take]; exact Nat.min_le_right ..) short
  have room' : (trace'.take i).length < 2 ^ 64 := by
    rw [List.length_take, ← weakens.length_eq, ← List.length_take]
    exact room
  have plain := runTrace_refines valid garbage room
  have written := runTrace_refines valid garbage' room'
  have weaker := Weaker.init.runTrace inf (Access.Weakens.filter (List.forall₂_take i weakens))
  have plainInf : (CS2200.Cache.runTrace (cacheInit inf garbage) (trace.take i)).inf = inf :=
    runTrace_inf ..
  have writtenInf : (CS2200.Cache.runTrace (cacheInit inf garbage') (trace'.take i)).inf = inf :=
    runTrace_inf ..
  refine ⟨fun address => ?_, ?_, ?_⟩
  · have inRange := valid.getindex_lt address
    rw [Bool.eq_iff_iff, getblock_isSome, getblock_isSome,
      plain.holds_iff (by rwa [plainInf]), written.holds_iff (by rwa [writtenInf]),
      plainInf, writtenInf, (weaker.sets _).keys_eq]
  · have misses := weaker.misses
    rwa [← plain.counts, ← written.counts] at misses
  · have writeBacks := weaker.writeBacks
    rwa [← plain.counts, ← written.counts] at writeBacks

/-- With at least two sets, every two traces over the same addresses, the second of which writes
wherever the first does, run and replace alike, if and only if no shift is by more than 63 and the
numbers of sets and of blocks in a set are values of an `int`. -/
theorem writes_replace_like_reads_iff (sets : inf.b.toNat + inf.s.toNat < inf.c.toNat) :
    (∀ garbage garbage' trace trace', List.Forall₂ Access.Weakens trace trace' →
        trace.length < 2 ^ 64 → ReplacesAlike inf garbage garbage' trace trace') ↔
      inf.c.toNat - inf.s.toNat ≤ 63 ∧ inf.s.toNat ≤ 30 ∧
        inf.c.toNat - inf.b.toNat - inf.s.toNat ≤ 30 := by
  constructor
  · intro alike
    have unused : Nat → Nat → Block :=
      fun _ _ => { valid := false, tag := 0, lru := 0, dirty := false }
    obtain ⟨plain, -, run, -⟩ := alike unused unused [⟨'r', 0⟩] [⟨'r', 0⟩]
      (.cons ⟨rfl, rfl, id⟩ .nil) (by decide) 1
    obtain ⟨-, tag, ways, index⟩ := valid_of_simulate sets rfl run
    exact ⟨tag, ways, index⟩
  · rintro ⟨tag, ways, index⟩ garbage garbage' trace trace' weakens short
    have valid : inf.Valid := ⟨sets, tag, ways, index⟩
    exact valid.replacesAlike garbage garbage' weakens short

/-- Of three accesses to one set the first becomes a write, and a block is written back for it. -/
theorem writes_replace_like_reads_iff_first :
    ReplacesAlike { c := 3, s := 1, b := 1 }
      (fun _ _ => { valid := true, tag := 1, lru := 9, dirty := true })
      (fun _ _ => { valid := false, tag := 0, lru := 0, dirty := false })
      [⟨'r', 0⟩, ⟨'w', 4⟩, ⟨'r', 8⟩] [⟨'w', 0⟩, ⟨'w', 4⟩, ⟨'r', 8⟩] := by
  have sets : (1 : UInt64).toNat + (1 : UInt64).toNat < (3 : UInt64).toNat := by decide
  have weakens : List.Forall₂ Access.Weakens [⟨'r', 0⟩, ⟨'w', 4⟩, ⟨'r', 8⟩]
      [⟨'w', 0⟩, ⟨'w', 4⟩, ⟨'r', 8⟩] :=
    .cons ⟨rfl, rfl, by decide⟩ (.cons ⟨rfl, rfl, by decide⟩ (.cons ⟨rfl, rfl, by decide⟩ .nil))
  exact (@writes_replace_like_reads_iff { c := 3, s := 1, b := 1 } sets).mpr
    ⟨by decide, by decide, by decide⟩ _ _ _ _ weakens (by decide)

/-- With `2 ^ 31` blocks in a set `block_per_set` is negative, and the first access finds no
block. -/
theorem block_per_set_overflows :
    blockNumber { c := 40, s := 31, b := 3 } = 0 ∧
      ¬ReplacesAlike { c := 40, s := 31, b := 3 }
        (fun _ _ => { valid := false, tag := 0, lru := 0, dirty := false })
        (fun _ _ => { valid := false, tag := 0, lru := 0, dirty := false })
        [⟨'r', 0⟩] [⟨'w', 0⟩] := by
  refine ⟨by decide, fun alike => ?_⟩
  obtain ⟨plain, -, run, -⟩ := alike 1
  exact absurd (valid_of_simulate (by decide) rfl run).ways (by decide)

end Simulator

end CS2200.Cache
