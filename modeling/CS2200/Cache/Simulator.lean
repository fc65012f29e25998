import Mathlib.Data.UInt
import Mathlib.Logic.Function.Basic

/-!
# The cache simulator

The definitions follow `cachesim.c`. Blocks are named by their set index and their way, since the
code returns pointers into `cache`; `malloc` leaves the tag and the time stamp of a block arbitrary.
A shift of a 64-bit number by 64 or more is undefined in C; `getindex` and `gettag` shift by the
amount modulo 64 and `simulate` fails there, as where a block was not allocated. The averages that
`cache_cleanup` computes in floating point are left out.
-/

namespace CS2200.Cache

/-- One block of the cache. -/
structure Block where
  /-- Whether the block is in use. -/
  valid : Bool
  /-- Tag of the address that it holds. -/
  tag : UInt64
  /-- Value of `counter` at its last use. -/
  lru : UInt64
  /-- Whether it was written. -/
  dirty : Bool
  deriving DecidableEq, Repr

/-- The parameters given to `cache_init`, as exponents of two. -/
structure Info where
  /-- Size of the cache. -/
  c : UInt64
  /-- Blocks in a set. -/
  s : UInt64
  /-- Size of a block. -/
  b : UInt64
  deriving DecidableEq, Repr

/-- The counters of `cache_stats_t` that `cache_access` maintains. -/
structure Stats where
  /-- Number of accesses. -/
  accesses : UInt64
  /-- Number of reads. -/
  reads : UInt64
  /-- Number of reads that missed. -/
  readMisses : UInt64
  /-- Number of writes. -/
  writes : UInt64
  /-- Number of writes that missed. -/
  writeMisses : UInt64
  /-- Number of dirty blocks given up. -/
  writeBacks : UInt64
  deriving DecidableEq, Repr

/-- The globals of the simulator and the statistics of its driver. -/
structure State where
  /-- Blocks by set index and way. -/
  cache : Nat → Nat → Block
  /-- Parameters. -/
  inf : Info
  /-- Time of the last use of any block. -/
  counter : UInt64
  /-- Statistics. -/
  stats : Stats

/-! ## Parts of an address -/

/-- `offsetbit`. -/
def offsetbit (inf : Info) : UInt64 := inf.b

/-- `indexbit`. -/
def indexbit (inf : Info) : UInt64 := inf.c - inf.b - inf.s

/-- `tagbit`. -/
def tagbit (inf : Info) : UInt64 := 64 - offsetbit inf - indexbit inf

/-- `getindex`. -/
def getindex (address : UInt64) (inf : Info) : UInt64 :=
  (address <<< tagbit inf) >>> (tagbit inf + offsetbit inf)

/-- `gettag`. -/
def gettag (address : UInt64) (inf : Info) : UInt64 := address >>> (offsetbit inf + indexbit inf)

/-- The bound `pow(2,inf->S)` of the loops over a set. -/
def blockPerSet (inf : Info) : Nat := 2 ^ inf.s.toNat

/-- `pow(2, exponent)` as an `int`, which it is below 2^31. -/
def intPow (exponent : UInt64) : Option Nat :=
  if exponent.toNat ≤ 30 then some (2 ^ exponent.toNat) else none

/-- `set_number`, an `int`. No set is allocated where the conversion of `pow` overflows, which gives
a negative number. -/
def setNumber (inf : Info) : Nat := (intPow (indexbit inf)).getD 0

/-- `block_per_set`, an `int` as well: the number of blocks that a set is allocated with. -/
def blockNumber (inf : Info) : Nat := (intPow inf.s).getD 0

/-- `cache_init`, with the contents of the memory that `malloc` returned. -/
def cacheInit (inf : Info) (garbage : Nat → Nat → Block) : State where
  cache i j :=
    if i < setNumber inf ∧ j < blockNumber inf then
      { garbage i j with valid := false, dirty := false }
    else garbage i j
  inf := inf
  counter := 0
  stats :=
    { accesses := 0, reads := 0, readMisses := 0, writes := 0, writeMisses := 0, writeBacks := 0 }

/-! ## Searching a set -/

namespace State

/-- Change the block that a pointer designates. -/
def modifyBlock (state : State) (index way : Nat) (change : Block → Block) : State :=
  { state with
    cache := Function.update state.cache index
      (Function.update (state.cache index) way (change (state.cache index way))) }

/-- The two assignments that precede each `return` of a block. -/
def use (state : State) (index way : Nat) : State :=
  { state with counter := state.counter + 1 }.modifyBlock index way fun block =>
    { block with lru := state.counter + 1 }

/-- Change the statistics. -/
def count (state : State) (change : Stats → Stats) : State :=
  { state with stats := change state.stats }

end State

/-- `getblock`: the way of the first valid block with the tag of the address. -/
def getblock (address : UInt64) (state : State) : Option (State × Nat) :=
  let index := (getindex address state.inf).toNat
  let tag := gettag address state.inf
  let hit := fun i => (state.cache index i).tag == tag && (state.cache index i).valid
  ((List.range (blockPerSet state.inf)).find? hit).map fun i => (state.use index i, i)

/-- `find_invalid`: the way of the first block that is not in use. -/
def findInvalid (address : UInt64) (state : State) : Option (State × Nat) :=
  let index := (getindex address state.inf).toNat
  let free := fun i => !(state.cache index i).valid
  ((List.range (blockPerSet state.inf)).find? free).map fun i => (state.use index i, i)

/-- `find_lru`: the way of the first block with the least time stamp. -/
def findLru (address : UInt64) (state : State) : State × Nat :=
  let index := (getindex address state.inf).toNat
  let choose := (List.range (blockPerSet state.inf)).foldl
    (fun choose i =>
      if (state.cache index choose).lru > (state.cache index i).lru then i else choose) 0
  (state.use index choose, choose)

/-! ## Accesses -/

/-- The block that is filled after a miss: both branches of `cache_access` repeat these lines. -/
def findVictim (address : UInt64) (state : State) : State × Nat :=
  match findInvalid address state with
  | some found => found
  | none =>
      let (state, way) := findLru address state
      if (state.cache (getindex address state.inf).toNat way).dirty then
        (state.count fun stats => { stats with writeBacks := stats.writeBacks + 1 }, way)
      else (state, way)

/-- `cache_access`. -/
def cacheAccess (rw : Char) (address : UInt64) (state : State) : State :=
  if rw = 'r' then
    let tag := gettag address state.inf
    let index := (getindex address state.inf).toNat
    let state := state.count fun stats =>
      { stats with accesses := stats.accesses + 1, reads := stats.reads + 1 }
    match getblock address state with
    | some (state, _) => state
    | none =>
        let (state, way) := findVictim address state
        (state.modifyBlock index way fun block =>
            { block with valid := true, dirty := false, tag }).count fun stats =>
          { stats with readMisses := stats.readMisses + 1 }
  else if rw = 'w' then
    let tag := gettag address state.inf
    let index := (getindex address state.inf).toNat
    let state := state.count fun stats =>
      { stats with accesses := stats.accesses + 1, writes := stats.writes + 1 }
    let (state, way) :=
      match getblock address state with
      | some found => found
      | none =>
          let (state, way) := findVictim address state
          ((state.modifyBlock index way fun block =>
              { block with valid := true, dirty := true, tag }).count fun stats =>
            { stats with writeMisses := stats.writeMisses + 1 }, way)
    state.modifyBlock index way fun block => { block with dirty := true }
  else state

/-- One line of a trace file. -/
structure Access where
  /-- `r` for a read, `w` for a write. -/
  rw : Char
  /-- Address. -/
  address : UInt64
  deriving DecidableEq, Repr

/-- Whether an access reads or writes. -/
def Access.legal (access : Access) : Bool := access.rw == 'r' || access.rw == 'w'

/-- The loop of the driver over the lines of a trace. -/
def runTrace (state : State) (trace : List Access) : State :=
  trace.foldl (fun state access => cacheAccess access.rw access.address state) state

/-- An access to the address shifts it by less than 64, and the scans of its set look at allocated
blocks only: either all blocks of a set are allocated or none is. -/
def Info.Defined (inf : Info) (address : UInt64) : Prop :=
  (tagbit inf).toNat ≤ 63 ∧ (tagbit inf + offsetbit inf).toNat ≤ 63 ∧
    (offsetbit inf + indexbit inf).toNat ≤ 63 ∧
      (getindex address inf).toNat < setNumber inf ∧ blockPerSet inf ≤ blockNumber inf

instance (inf : Info) (address : UInt64) : Decidable (inf.Defined address) :=
  inferInstanceAs (Decidable (_ ∧ _))

/-- The loop of the driver, which fails at an access whose behaviour is undefined. -/
def simulate (state : State) : List Access → Option State
  | [] => some state
  | access :: trace =>
      if access.legal && !decide (state.inf.Defined access.address) then none
      else simulate (cacheAccess access.rw access.address state) trace

end CS2200.Cache
