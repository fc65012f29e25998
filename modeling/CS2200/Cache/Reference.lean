import CS2200.Cache.Simulator
import CS2200.Library.Recency

/-!
# The reference cache

A set-associative, write-back, write-allocate cache with least-recently-used replacement: every set
is a recency list of tags, and the statistics are numbers.
-/

namespace CS2200.Cache

open Recency

/-- The statistics as numbers. -/
structure Counts where
  /-- Number of accesses. -/
  accesses : Nat
  /-- Number of reads. -/
  reads : Nat
  /-- Number of reads that missed. -/
  readMisses : Nat
  /-- Number of writes. -/
  writes : Nat
  /-- Number of writes that missed. -/
  writeMisses : Nat
  /-- Number of dirty entries that left. -/
  writeBacks : Nat
  deriving DecidableEq, Repr

/-- Count one access. -/
def Counts.record (counts : Counts) (write miss writeBack : Bool) : Counts where
  accesses := counts.accesses + 1
  reads := counts.reads + if write then 0 else 1
  readMisses := counts.readMisses + if !write && miss then 1 else 0
  writes := counts.writes + if write then 1 else 0
  writeMisses := counts.writeMisses + if write && miss then 1 else 0
  writeBacks := counts.writeBacks + if writeBack then 1 else 0

/-- A set-associative cache whose sets are recency lists of tags with a dirty bit. -/
structure Reference where
  /-- Entries by set index. -/
  sets : Nat → List (Nat × Bool)
  /-- Statistics. -/
  counts : Counts

namespace Reference

/-- The empty cache. -/
def init : Reference where
  sets _ := []
  counts :=
    { accesses := 0, reads := 0, readMisses := 0, writes := 0, writeMisses := 0, writeBacks := 0 }

/-- One access to a cache of `2 ^ (c - b - s)` sets of at most `2 ^ s` entries. -/
def access (inf : Info) (reference : Reference) (access : Access) : Reference :=
  let index :=
    access.address.toNat / 2 ^ inf.b.toNat % 2 ^ (inf.c.toNat - inf.b.toNat - inf.s.toNat)
  let tag := access.address.toNat / 2 ^ (inf.c.toNat - inf.s.toNat)
  let write := access.rw == 'w'
  let entries := reference.sets index
  { sets := Function.update reference.sets index (touch (2 ^ inf.s.toNat) entries tag write)
    counts :=
      reference.counts.record write (lookup entries tag).isNone
        (writesBack (2 ^ inf.s.toNat) entries tag) }

end Reference

end CS2200.Cache
