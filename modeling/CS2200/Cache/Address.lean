import CS2200.Cache.Simulator

/-!
# Parts of an address

The offset, the index and the tag of an address are cut out by shifts whose amounts are differences
of the parameters. With at least two sets every amount is below 64, and the parts are quotients and
remainders of the address. In a fully associative cache the index is shifted by 64.
-/

namespace CS2200.Cache

/-- The exponents for which the shifts of the simulator are defined. -/
structure Info.Geometry (inf : Info) : Prop where
  /-- There are at least two sets. -/
  sets : inf.b.toNat + inf.s.toNat < inf.c.toNat
  /-- A tag has at least one bit. -/
  tag : inf.c.toNat - inf.s.toNat ≤ 63

/-- The exponents for which the shifts and the loop bounds of the simulator are defined. -/
structure Info.Valid (inf : Info) : Prop where
  /-- There are at least two sets. -/
  sets : inf.b.toNat + inf.s.toNat < inf.c.toNat
  /-- A tag has at least one bit. -/
  tag : inf.c.toNat - inf.s.toNat ≤ 63
  /-- The number of blocks in a set is an `int`. -/
  ways : inf.s.toNat ≤ 30
  /-- The number of sets is an `int`. -/
  index : inf.c.toNat - inf.b.toNat - inf.s.toNat ≤ 30

/-- The exponents for which `cache_init` allocates what the simulator looks at. -/
structure Info.Allocated (inf : Info) : Prop where
  /-- There are at least two sets. -/
  sets : inf.b.toNat + inf.s.toNat < inf.c.toNat
  /-- The number of blocks in a set is an `int`. -/
  ways : inf.s.toNat ≤ 30
  /-- The number of sets is an `int`. -/
  index : inf.c.toNat - inf.b.toNat - inf.s.toNat ≤ 30

namespace Info.Valid

variable {inf : Info}

theorem geometry (valid : inf.Valid) : inf.Geometry := ⟨valid.sets, valid.tag⟩

theorem allocated (valid : inf.Valid) : inf.Allocated := ⟨valid.sets, valid.ways, valid.index⟩

end Info.Valid

/-! ## The amounts of the shifts -/

section Amounts

variable {inf : Info}

theorem indexbit_toNat (fits : inf.b.toNat + inf.s.toNat ≤ inf.c.toNat) :
    (indexbit inf).toNat = inf.c.toNat - inf.b.toNat - inf.s.toNat := by
  have first : (inf.c - inf.b).toNat = inf.c.toNat - inf.b.toNat :=
    UInt64.toNat_sub_of_le _ _ (UInt64.le_iff_toNat_le.mpr (by omega))
  rw [indexbit, UInt64.toNat_sub_of_le _ _ (UInt64.le_iff_toNat_le.mpr (by omega)), first]

theorem tagbit_toNat (fits : inf.b.toNat + inf.s.toNat ≤ inf.c.toNat)
    (tag : inf.c.toNat - inf.s.toNat ≤ 63) :
    (tagbit inf).toNat = 64 - (inf.c.toNat - inf.s.toNat) := by
  have index := indexbit_toNat fits
  have sixtyFour : (64 : UInt64).toNat = 64 := rfl
  have first : (64 - inf.b).toNat = 64 - inf.b.toNat :=
    UInt64.toNat_sub_of_le _ _ (UInt64.le_iff_toNat_le.mpr (by omega))
  rw [tagbit, offsetbit, UInt64.toNat_sub_of_le _ _ (UInt64.le_iff_toNat_le.mpr (by omega)), first,
    index]
  omega

theorem tagbit_add_offsetbit_toNat (fits : inf.b.toNat + inf.s.toNat ≤ inf.c.toNat)
    (tag : inf.c.toNat - inf.s.toNat ≤ 63) :
    (tagbit inf + offsetbit inf).toNat =
      64 - (inf.c.toNat - inf.b.toNat - inf.s.toNat) := by
  have shift := tagbit_toNat fits tag
  rw [UInt64.toNat_add, offsetbit, Nat.mod_eq_of_lt (by omega)]
  omega

theorem offsetbit_add_indexbit_toNat (fits : inf.b.toNat + inf.s.toNat ≤ inf.c.toNat) :
    (offsetbit inf + indexbit inf).toNat = inf.c.toNat - inf.s.toNat := by
  have index := indexbit_toNat fits
  have bound := UInt64.toNat_lt inf.c
  rw [UInt64.toNat_add, offsetbit, Nat.mod_eq_of_lt (by omega)]
  omega

end Amounts

/-! ## What is allocated -/

theorem intPow_eq_some {exponent : UInt64} {power : Nat} :
    intPow exponent = some power ↔ exponent.toNat ≤ 30 ∧ 2 ^ exponent.toNat = power := by
  simp [intPow, Option.ite_none_right_eq_some]

private theorem intPow_getD_pos {exponent : UInt64} :
    0 < (intPow exponent).getD 0 ↔ exponent.toNat ≤ 30 := by
  rw [intPow]
  split
  case isTrue small => exact iff_of_true (Nat.two_pow_pos _) small
  case isFalse large => exact iff_of_false (Nat.lt_irrefl 0) large

namespace Info.Allocated

variable {inf : Info}

theorem fits (allocated : inf.Allocated) : inf.b.toNat + inf.s.toNat ≤ inf.c.toNat :=
  Nat.le_of_lt allocated.sets

theorem setNumber_eq (allocated : inf.Allocated) :
    setNumber inf = 2 ^ (inf.c.toNat - inf.b.toNat - inf.s.toNat) := by
  have index := indexbit_toNat allocated.fits
  have small : (indexbit inf).toNat ≤ 30 := index ▸ allocated.index
  rw [setNumber, intPow_eq_some.mpr ⟨small, rfl⟩, Option.getD_some, index]

theorem blockNumber_eq (allocated : inf.Allocated) : blockNumber inf = blockPerSet inf := by
  rw [blockNumber, intPow_eq_some.mpr ⟨allocated.ways, rfl⟩, Option.getD_some, blockPerSet]

/-- An index is in bounds, also where a shift is by more than 63. -/
theorem getindex_lt (allocated : inf.Allocated) (address : UInt64) :
    (getindex address inf).toNat < setNumber inf := by
  have index := indexbit_toNat allocated.fits
  have small := allocated.index
  have right : tagbit inf + offsetbit inf = 64 - indexbit inf := by
    rw [tagbit, sub_right_comm, sub_add_cancel]
  have amount : (64 - indexbit inf).toNat = 64 - (indexbit inf).toNat :=
    UInt64.toNat_sub_of_le _ _ (UInt64.le_iff_toNat_le.mpr (by
      simp only [UInt64.reduceToNat]
      omega))
  have sets := allocated.sets
  rw [getindex, right, UInt64.toNat_shiftRight, amount, Nat.mod_eq_of_lt (by omega),
    Nat.shiftRight_eq_div_pow, Nat.div_lt_iff_lt_mul (Nat.two_pow_pos _), allocated.setNumber_eq,
    ← index, ← Nat.pow_add, Nat.add_sub_cancel' (by omega)]
  exact UInt64.toNat_lt _

end Info.Allocated

/-! ## Index and tag -/

namespace Info.Geometry

variable {inf : Info}

theorem fits (geometry : inf.Geometry) : inf.b.toNat + inf.s.toNat ≤ inf.c.toNat :=
  Nat.le_of_lt geometry.sets

theorem shifts (geometry : inf.Geometry) :
    (tagbit inf).toNat ≤ 63 ∧ (tagbit inf + offsetbit inf).toNat ≤ 63 ∧
      (offsetbit inf + indexbit inf).toNat ≤ 63 := by
  have sets := geometry.sets
  have tag := geometry.tag
  rw [tagbit_toNat geometry.fits tag, tagbit_add_offsetbit_toNat geometry.fits tag,
    offsetbit_add_indexbit_toNat geometry.fits]
  omega

/-- The index of an address: the bits above the offset. -/
theorem getindex_toNat (geometry : inf.Geometry) (address : UInt64) :
    (getindex address inf).toNat =
      address.toNat / 2 ^ inf.b.toNat % 2 ^ (inf.c.toNat - inf.b.toNat - inf.s.toNat) := by
  have sets := geometry.sets
  have tag := geometry.tag
  have shift := tagbit_toNat geometry.fits tag
  have right := tagbit_add_offsetbit_toNat geometry.fits tag
  have amount : 64 - (inf.c.toNat - inf.b.toNat - inf.s.toNat) =
      (tagbit inf).toNat + inf.b.toNat := by omega
  have split : 2 ^ 64 =
      2 ^ (inf.b.toNat + (inf.c.toNat - inf.b.toNat - inf.s.toNat)) * 2 ^ (tagbit inf).toNat := by
    rw [← Nat.pow_add, shift]
    congr 1
    omega
  rw [getindex, UInt64.toNat_shiftRight, UInt64.toNat_shiftLeft, right, amount,
    Nat.mod_eq_of_lt (by omega : (tagbit inf).toNat < 64),
    Nat.mod_eq_of_lt (by omega : (tagbit inf).toNat + inf.b.toNat < 64), Nat.shiftLeft_eq,
    Nat.shiftRight_eq_div_pow, split, Nat.mul_mod_mul_right, Nat.pow_add 2 (tagbit inf).toNat,
    ← Nat.div_div_eq_div_mul, Nat.mul_div_cancel _ (Nat.two_pow_pos _), Nat.pow_add,
    Nat.mod_mul_right_div_self]

theorem gettag_toNat (geometry : inf.Geometry) (address : UInt64) :
    (gettag address inf).toNat = address.toNat / 2 ^ (inf.c.toNat - inf.s.toNat) := by
  have tag := geometry.tag
  rw [gettag, UInt64.toNat_shiftRight, offsetbit_add_indexbit_toNat geometry.fits,
    Nat.mod_eq_of_lt (by omega), Nat.shiftRight_eq_div_pow]

end Info.Geometry

namespace Info.Valid

variable {inf : Info}

theorem setNumber_eq (valid : inf.Valid) :
    setNumber inf = 2 ^ (inf.c.toNat - inf.b.toNat - inf.s.toNat) :=
  valid.allocated.setNumber_eq

theorem getindex_lt (valid : inf.Valid) (address : UInt64) :
    (getindex address inf).toNat < setNumber inf :=
  valid.allocated.getindex_lt address

theorem getindex_toNat (valid : inf.Valid) (address : UInt64) :
    (getindex address inf).toNat = address.toNat / 2 ^ inf.b.toNat % setNumber inf := by
  rw [valid.setNumber_eq]
  exact valid.geometry.getindex_toNat address

theorem gettag_toNat (valid : inf.Valid) (address : UInt64) :
    (gettag address inf).toNat = address.toNat / 2 ^ (inf.c.toNat - inf.s.toNat) :=
  valid.geometry.gettag_toNat address

end Info.Valid

/-- With at least two sets, an access is defined for the exponents in range only, whatever its
address. -/
theorem Info.defined_iff {inf : Info} (sets : inf.b.toNat + inf.s.toNat < inf.c.toNat)
    (address : UInt64) : inf.Defined address ↔ inf.Valid := by
  have fits := Nat.le_of_lt sets
  constructor
  · rintro ⟨-, -, tag, index, ways⟩
    rw [offsetbit_add_indexbit_toNat fits] at tag
    have few : (indexbit inf).toNat ≤ 30 := intPow_getD_pos.mp (Nat.zero_lt_of_lt index)
    rw [indexbit_toNat fits] at few
    exact ⟨sets, tag, intPow_getD_pos.mp (Nat.lt_of_lt_of_le (Nat.two_pow_pos _) ways), few⟩
  · intro valid
    obtain ⟨left, right, tag⟩ := valid.geometry.shifts
    exact ⟨left, right, tag, valid.getindex_lt address,
      Nat.le_of_eq valid.allocated.blockNumber_eq.symm⟩

/-! ## Decomposition -/

/-- All shifts are by 0 to 63, an index is below `2 ^ (c - b - s)`, and the tag and the index tell
the blocks of `2 ^ b` bytes apart. -/
structure Info.Decomposes (inf : Info) : Prop where
  /-- The first shift of `getindex`. -/
  left : (tagbit inf).toNat ≤ 63
  /-- The second shift of `getindex`. -/
  right : (tagbit inf + offsetbit inf).toNat ≤ 63
  /-- The shift of `gettag`. -/
  tag : (offsetbit inf + indexbit inf).toNat ≤ 63
  /-- Indices are in range. -/
  index : ∀ address,
    (getindex address inf).toNat < 2 ^ (inf.c.toNat - inf.b.toNat - inf.s.toNat)
  /-- The tag and the index determine the block. -/
  block : ∀ first second : UInt64,
    (gettag first inf = gettag second inf ∧ getindex first inf = getindex second inf ↔
      first.toNat / 2 ^ inf.b.toNat = second.toNat / 2 ^ inf.b.toNat)

/-- `cache_init` allocates every block that `getblock`, `find_invalid` and `find_lru` look at. -/
def Info.InBounds (inf : Info) : Prop :=
  ∃ sets blocks, intPow (inf.c - inf.b - inf.s) = some sets ∧ intPow inf.s = some blocks ∧
    ∀ address, (getindex address inf).toNat < sets ∧ ∀ way < blockPerSet inf, way < blocks

section Decomposition

variable {inf : Info}

private theorem div_pow_eq_iff (first second low middle : Nat) :
    first / 2 ^ (low + middle) = second / 2 ^ (low + middle) ∧
        first / 2 ^ low % 2 ^ middle = second / 2 ^ low % 2 ^ middle ↔
      first / 2 ^ low = second / 2 ^ low := by
  rw [Nat.pow_add, ← Nat.div_div_eq_div_mul, ← Nat.div_div_eq_div_mul]
  constructor
  · rintro ⟨quotient, remainder⟩
    rw [← Nat.div_add_mod (first / 2 ^ low) (2 ^ middle), quotient, remainder, Nat.div_add_mod]
  · intro same
    rw [same]
    exact ⟨rfl, rfl⟩

private theorem Info.Geometry.decomposes (geometry : inf.Geometry) : inf.Decomposes := by
  have sets := geometry.sets
  obtain ⟨left, right, tag⟩ := geometry.shifts
  refine ⟨left, right, tag, fun address => ?_, fun first second => ?_⟩
  · rw [geometry.getindex_toNat]
    exact Nat.mod_lt _ (Nat.two_pow_pos _)
  · have bits : inf.c.toNat - inf.s.toNat =
        inf.b.toNat + (inf.c.toNat - inf.b.toNat - inf.s.toNat) := by omega
    rw [← div_pow_eq_iff _ _ inf.b.toNat (inf.c.toNat - inf.b.toNat - inf.s.toNat), ← bits,
      ← UInt64.toNat_inj, ← UInt64.toNat_inj]
    simp only [geometry.gettag_toNat, geometry.getindex_toNat]

/-- With one set the second shift of `getindex` is by 64. -/
theorem Info.Decomposes.sets (decomposes : inf.Decomposes)
    (fits : inf.b.toNat + inf.s.toNat ≤ inf.c.toNat) (bounded : inf.c.toNat ≤ 63) :
    inf.b.toNat + inf.s.toNat < inf.c.toNat := by
  have right := decomposes.right
  rw [tagbit_add_offsetbit_toNat fits (by omega)] at right
  omega

/-- For parameters that fit into 64-bit addresses, addresses are decomposed without loss if and only
if there are two sets or more, and all blocks are allocated if moreover the numbers of sets and of
blocks in a set are values of an `int`. -/
theorem decomposes_iff (fits : inf.b.toNat + inf.s.toNat ≤ inf.c.toNat)
    (bounded : inf.c.toNat ≤ 63) :
    (inf.Decomposes ↔ inf.b.toNat + inf.s.toNat < inf.c.toNat) ∧
      (inf.Decomposes ∧ inf.InBounds ↔
        inf.b.toNat + inf.s.toNat < inf.c.toNat ∧
          inf.c.toNat - inf.b.toNat - inf.s.toNat ≤ 30 ∧ inf.s.toNat ≤ 30) := by
  have exact : inf.Decomposes ↔ inf.b.toNat + inf.s.toNat < inf.c.toNat :=
    ⟨fun decomposes => decomposes.sets fits bounded,
      fun sets => Info.Geometry.decomposes ⟨sets, by omega⟩⟩
  have index : (inf.c - inf.b - inf.s).toNat = inf.c.toNat - inf.b.toNat - inf.s.toNat :=
    indexbit_toNat fits
  refine ⟨exact, ?_⟩
  rw [exact]
  refine and_congr_right fun sets => ⟨?_, ?_⟩
  · rintro ⟨sets, blocks, setsPow, blocksPow, -⟩
    exact ⟨index ▸ (intPow_eq_some.mp setsPow).1, (intPow_eq_some.mp blocksPow).1⟩
  · rintro ⟨few, ways⟩
    refine ⟨_, _, intPow_eq_some.mpr ⟨index ▸ few, rfl⟩, intPow_eq_some.mpr ⟨ways, rfl⟩,
      fun address => ⟨?_, fun way inside => inside⟩⟩
    rw [index]
    exact (exact.mpr sets).index address

/-- The default parameters of the driver. -/
theorem decomposes_iff_default :
    Info.Decomposes { c := 15, s := 3, b := 5 } ∧ Info.InBounds { c := 15, s := 3, b := 5 } := by
  have fits : (5 : UInt64).toNat + (3 : UInt64).toNat ≤ (15 : UInt64).toNat := by decide
  exact (@decomposes_iff { c := 15, s := 3, b := 5 } fits (by decide)).2.mpr
    ⟨by decide, by decide, by decide⟩

/-- A fully associative cache of 1024 blocks: the index of address 1 is not that of the only set,
on a processor that shifts by the amount modulo 64. -/
theorem fully_associative_index :
    ¬Info.Decomposes { c := 15, s := 10, b := 5 } ∧
      (tagbit { c := 15, s := 10, b := 5 } + offsetbit { c := 15, s := 10, b := 5 }).toNat = 64 ∧
      (getindex 1 { c := 15, s := 10, b := 5 }).toNat = 2 ^ 59 := by
  refine ⟨fun decomposes => ?_, by decide, by decide⟩
  have right := decomposes.right
  exact absurd right (by decide)

end Decomposition

end CS2200.Cache
