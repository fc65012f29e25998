import Mathlib.Data.List.Forall2
import Mathlib.Data.List.Nodup
import Mathlib.Data.List.Perm.Subperm
import Mathlib.Logic.Function.Basic

/-!
# Recency lists and their time-stamped arrays

A recency list holds keys with a dirty bit, the most recently used first. The same information can
be kept in an array of slots that carry a time stamp: the slots listed by decreasing stamp give the
list back. The rules of this file say that giving one slot a new greatest stamp moves it to the
front, and that the slot with the least stamp is the last entry.
-/

namespace CS2200
namespace Recency

variable {κ : Type*}

/-! ## Recency lists -/

/-- The entry of a key. -/
def lookup [DecidableEq κ] (entries : List (κ × Bool)) (key : κ) : Option (κ × Bool) :=
  entries.find? fun entry => entry.1 = key

/-- Use a key: it moves to the front, and when it is new to a full list the last entry leaves. -/
def touch [DecidableEq κ] (capacity : Nat) (entries : List (κ × Bool)) (key : κ) (write : Bool) :
    List (κ × Bool) :=
  match lookup entries key with
  | some entry => (key, entry.2 || write) :: entries.eraseP fun entry => entry.1 = key
  | none => (key, write) :: if entries.length = capacity then entries.dropLast else entries

/-- Whether using a key makes a dirty entry leave. -/
def writesBack [DecidableEq κ] (capacity : Nat) (entries : List (κ × Bool)) (key : κ) : Bool :=
  (lookup entries key).isNone && entries.length == capacity && entries.getLast?.any Prod.snd

/-! ## Capacities -/

section Capacity

variable [DecidableEq κ] {capacity smaller larger : Nat} {entries : List (κ × Bool)} {key : κ}

/-- The keys of a recency list, the most recently used first. -/
def keys (entries : List (κ × Bool)) : List κ := entries.map Prod.fst

theorem lookup_isSome : (lookup entries key).isSome = true ↔ key ∈ keys entries := by
  simp [lookup, keys, List.find?_isSome]

private theorem keys_eraseP (entries : List (κ × Bool)) (key : κ) :
    keys (entries.eraseP fun entry => entry.1 = key) = (keys entries).erase key := by
  rw [keys, keys, List.erase_eq_eraseP', List.eraseP_map]
  rfl

theorem keys_touch (positive : 0 < capacity) (fits : entries.length ≤ capacity) (key : κ)
    (write : Bool) : keys (touch capacity entries key write) =
      (key :: (keys entries).erase key).take capacity := by
  have length : (keys entries).length = entries.length := List.length_map ..
  cases found : lookup entries key with
  | some entry =>
      have member : key ∈ keys entries := lookup_isSome.mp (by simp [found])
      have shorter := List.length_erase_of_mem member
      have nonempty := List.length_pos_of_mem member
      rw [touch, found, List.take_of_length_le (by rw [List.length_cons]; omega), ← keys_eraseP]
      rfl
  | none =>
      have missing : key ∉ keys entries := fun member => by
        simpa [found] using lookup_isSome.mpr member
      obtain ⟨room, rfl⟩ := Nat.exists_eq_succ_of_ne_zero (Nat.ne_of_gt positive)
      rw [touch, found, List.erase_of_not_mem missing, List.take_succ_cons]
      simp only [keys, List.map_cons]
      split
      case isTrue full =>
        rw [List.map_dropLast, List.dropLast_eq_take, List.length_map, full, Nat.succ_sub_one]
      case isFalse notFull =>
        rw [List.take_of_length_le (by rw [List.length_map]; omega)]

theorem length_touch_le (positive : 0 < capacity) (fits : entries.length ≤ capacity) (key : κ)
    (write : Bool) : (touch capacity entries key write).length ≤ capacity := by
  have length := congrArg List.length (keys_touch positive fits key write)
  rw [keys, List.length_map, List.length_take] at length
  omega

private theorem take_erase_take (list : List κ) (key : κ) (count : Nat) :
    ((list.take (count + 1)).erase key).take count = (list.erase key).take count := by
  induction list generalizing count with
  | nil => simp
  | cons head tail ih =>
      by_cases same : head = key
      · subst same
        rw [List.take_succ_cons, List.erase_cons_head, List.erase_cons_head, List.take_take,
          Nat.min_self]
      · rw [List.take_succ_cons, List.erase_cons_tail (by simpa using same),
          List.erase_cons_tail (by simpa using same)]
        cases count with
        | zero => simp
        | succ count => rw [List.take_succ_cons, List.take_succ_cons, ih]

/-- The most recently used keys of a large list are the keys of a small one, and stay so. -/
theorem keys_touch_take {smallEntries largeEntries : List (κ × Bool)} (positive : 0 < smaller)
    (le : smaller ≤ larger) (smallFits : smallEntries.length ≤ smaller)
    (largeFits : largeEntries.length ≤ larger)
    (included : keys smallEntries = (keys largeEntries).take smaller) (key : κ) (write : Bool) :
    keys (touch smaller smallEntries key write) =
      (keys (touch larger largeEntries key write)).take smaller := by
  obtain ⟨count, rfl⟩ := Nat.exists_eq_succ_of_ne_zero (Nat.ne_of_gt positive)
  rw [keys_touch positive smallFits, keys_touch (Nat.lt_of_lt_of_le positive le) largeFits, included,
    List.take_take, Nat.min_eq_left le, List.take_succ_cons, List.take_succ_cons, take_erase_take]

end Capacity

/-! ## Dirty bits -/

section Dirty

variable {entries others : List (κ × Bool)}

/-- The keys agree and every dirty entry is dirty in the second list, too. -/
def Cleaner (entries others : List (κ × Bool)) : Prop :=
  List.Forall₂ (fun entry other => entry.1 = other.1 ∧ (entry.2 = true → other.2 = true))
    entries others

private theorem Cleaner.dropLast (cleaner : Cleaner entries others) :
    Cleaner entries.dropLast others.dropLast := by
  rw [List.dropLast_eq_take, List.dropLast_eq_take, cleaner.length_eq]
  exact List.forall₂_take _ cleaner

private theorem Cleaner.last (cleaner : Cleaner entries others)
    (dirty : entries.getLast?.any Prod.snd = true) : others.getLast?.any Prod.snd = true := by
  induction cleaner with
  | nil => exact dirty
  | @cons entry other entries others related rest ih =>
      cases rest with
      | nil => simpa using related.2 (by simpa using dirty)
      | cons first rest => simpa using ih (by simpa using dirty)

theorem Cleaner.keys_eq (cleaner : Cleaner entries others) : keys entries = keys others := by
  induction cleaner with
  | nil => rfl
  | cons related rest ih => exact congrArg₂ List.cons related.1 ih

variable [DecidableEq κ] {capacity : Nat} {key : κ}

private theorem Cleaner.eraseP (cleaner : Cleaner entries others) (key : κ) :
    Cleaner (entries.eraseP fun entry => entry.1 = key) (others.eraseP fun entry => entry.1 = key) := by
  induction cleaner with
  | nil => exact .nil
  | @cons entry other entries others related rest ih =>
      by_cases here : entry.1 = key
      · rwa [List.eraseP_cons_of_pos (by simpa using here),
          List.eraseP_cons_of_pos (by simpa [← related.1] using here)]
      · rw [List.eraseP_cons_of_neg (by simpa using here),
          List.eraseP_cons_of_neg (by simpa [← related.1] using here)]
        exact .cons related ih

/-- A key has an entry in both lists or in none, and is dirty in the second if in the first. -/
theorem Cleaner.lookup (cleaner : Cleaner entries others) (key : κ) :
    (lookup entries key = none ∧ lookup others key = none) ∨
      ∃ entry other, lookup entries key = some entry ∧ lookup others key = some other ∧
        (entry.2 = true → other.2 = true) := by
  induction cleaner with
  | nil => exact .inl ⟨rfl, rfl⟩
  | @cons entry other entries others related rest ih =>
      by_cases here : entry.1 = key
      · refine .inr ⟨entry, other, ?_, ?_, related.2⟩
        · simp [Recency.lookup, here]
        · simp [Recency.lookup, ← related.1, here]
      · simpa [Recency.lookup, here, ← related.1] using ih

/-- Using a key keeps one list cleaner than the other, if it writes there when it writes here. -/
theorem Cleaner.touch (cleaner : Cleaner entries others) (capacity : Nat) (key : κ)
    {write write' : Bool} (writes : write = true → write' = true) :
    Cleaner (touch capacity entries key write) (touch capacity others key write') := by
  rcases cleaner.lookup key with ⟨missing, missing'⟩ | ⟨entry, other, found, found', dirty⟩
  · rw [Recency.touch, Recency.touch, missing, missing', cleaner.length_eq]
    refine .cons ⟨rfl, writes⟩ ?_
    split
    · exact cleaner.dropLast
    · exact cleaner
  · rw [Recency.touch, Recency.touch, found, found']
    refine .cons ⟨rfl, fun either => ?_⟩ (cleaner.eraseP key)
    rcases (Bool.or_eq_true ..).mp either with held | wrote
    · simp [dirty held]
    · simp [writes wrote]

theorem Cleaner.writesBack (cleaner : Cleaner entries others)
    (back : writesBack capacity entries key = true) : writesBack capacity others key = true := by
  simp only [Recency.writesBack, Bool.and_eq_true] at back ⊢
  obtain ⟨⟨missing, full⟩, dirty⟩ := back
  refine ⟨⟨?_, by rwa [← cleaner.length_eq]⟩, cleaner.last dirty⟩
  rcases cleaner.lookup key with ⟨-, missing'⟩ | ⟨entry, other, found, -, -⟩
  · rw [missing']
    rfl
  · simp [found] at missing

end Dirty

/-! ## Time-stamped slots -/

/-- One slot of an array. -/
structure Slot (κ : Type*) where
  /-- Whether the slot is in use. -/
  valid : Bool
  /-- The key that it holds. -/
  key : κ
  /-- Time of its last use. -/
  stamp : Nat
  /-- Dirty bit. -/
  dirty : Bool

/-- The key and the dirty bit of a slot. -/
def Slot.entry (slot : Slot κ) : κ × Bool := (slot.key, slot.dirty)

/-- The slots in use among the first `count`, listed by decreasing stamps up to `bound`, hold the
entries of a recency list. -/
structure Represents (slots : Nat → Slot κ) (count bound : Nat) (order : List Nat)
    (entries : List (κ × Bool)) : Prop where
  /-- The order lists the slots in use. -/
  mem : ∀ {i}, i ∈ order ↔ i < count ∧ (slots i).valid = true
  /-- Stamps decrease. -/
  sorted : order.Pairwise fun i j => (slots j).stamp < (slots i).stamp
  /-- Stamps do not exceed the bound. -/
  bounded : ∀ i ∈ order, (slots i).stamp ≤ bound
  /-- Keys are different. -/
  distinct : (order.map fun i => (slots i).key).Nodup
  /-- The slots hold the entries. -/
  entries_eq : order.map (fun i => (slots i).entry) = entries

private theorem eraseP_eq_erase {order : List Nat} {property : Nat → Bool} {i : Nat}
    (only : ∀ j ∈ order, property j = true ↔ j = i) : order.eraseP property = order.erase i := by
  induction order with
  | nil => rfl
  | cons head tail ih =>
      have here := only head List.mem_cons_self
      by_cases same : head = i
      · rw [List.eraseP_cons_of_pos (here.mpr same), same, List.erase_cons_head]
      · rw [List.eraseP_cons_of_neg (by simpa [same] using here),
          List.erase_cons_tail (by simpa using same),
          ih fun j member => only j (List.mem_cons_of_mem head member)]

namespace Represents

variable {slots : Nat → Slot κ} {count bound : Nat} {order : List Nat} {entries : List (κ × Bool)}
  {key : κ} {i : Nat}

theorem nodup (represents : Represents slots count bound order entries) : order.Nodup :=
  List.Nodup.of_map _ represents.distinct

theorem empty (unused : ∀ i < count, (slots i).valid = false) :
    Represents slots count bound [] [] where
  mem {i} := by
    simp only [List.not_mem_nil, false_iff, not_and]
    intro inside
    simp [unused i inside]
  sorted := List.Pairwise.nil
  bounded := by simp
  distinct := by simp
  entries_eq := rfl

theorem mono (represents : Represents slots count bound order entries) {larger : Nat}
    (le : bound ≤ larger) : Represents slots count larger order entries :=
  { represents with bounded := fun i member => Nat.le_trans (represents.bounded i member) le }

theorem length_eq (represents : Represents slots count bound order entries) :
    entries.length = order.length := by
  rw [← represents.entries_eq, List.length_map]

private theorem length_le (represents : Represents slots count bound order entries) :
    entries.length ≤ count := by
  have inside : order ⊆ List.range count := fun i member =>
    List.mem_range.mpr (represents.mem.mp member).1
  simpa [represents.length_eq] using (List.subperm_of_subset represents.nodup inside).length_le

/-- A slot that gets the next stamp and a key that no other slot has is the first of the order. -/
theorem promote (represents : Represents slots count bound order entries) (inside : i < count)
    (fresh : ∀ j ∈ order, j ≠ i → (slots j).key ≠ key) (dirty : Bool) :
    Represents (Function.update slots i { valid := true, key, stamp := bound + 1, dirty }) count
      (bound + 1) (i :: order.erase i)
      ((key, dirty) :: (order.erase i).map fun j => (slots j).entry) := by
  have others : ∀ j ∈ order.erase i, j ∈ order ∧ j ≠ i := fun j member =>
    ⟨List.mem_of_mem_erase member, (represents.nodup.mem_erase_iff.mp member).1⟩
  have same : ∀ j ∈ order.erase i, Function.update slots i
      { valid := true, key, stamp := bound + 1, dirty } j = slots j := fun j member =>
    Function.update_of_ne (others j member).2 _ _
  refine ⟨fun {j} => ?_, ?_, ?_, ?_, ?_⟩
  · rw [List.mem_cons, represents.nodup.mem_erase_iff, represents.mem]
    by_cases here : j = i
    · simp [here, inside]
    · simp [here]
  · refine List.pairwise_cons.mpr ⟨fun j member => ?_, ?_⟩
    · rw [same j member, Function.update_self]
      exact Nat.lt_succ_of_le (represents.bounded j (others j member).1)
    · refine (represents.sorted.sublist List.erase_sublist).imp_of_mem ?_
      intro first second firstMember secondMember less
      rwa [same first firstMember, same second secondMember]
  · intro j member
    rcases List.mem_cons.mp member with rfl | member
    · simp
    · rw [same j member]
      exact Nat.le_succ_of_le (represents.bounded j (others j member).1)
  · rw [List.map_cons, Function.update_self, List.map_congr_left fun j member => by
      rw [same j member]]
    refine List.nodup_cons.mpr ⟨fun taken => ?_,
      represents.distinct.sublist (List.erase_sublist.map _)⟩
    obtain ⟨j, member, equal⟩ := List.mem_map.mp taken
    exact fresh j (others j member).1 (others j member).2 equal
  · rw [List.map_cons, Function.update_self, List.map_congr_left fun j member => by
      rw [same j member]]
    rfl

/-- The slot with the least stamp of a full array is the last of the order. -/
theorem last_of_least (represents : Represents slots count bound order entries)
    (inside : i < count) (full : ∀ j < count, (slots j).valid = true)
    (least : ∀ j < count, (slots i).stamp ≤ (slots j).stamp) :
    ∃ earlier, order = earlier ++ [i] := by
  have member := represents.mem.mpr ⟨inside, full i inside⟩
  obtain ⟨earlier, later, rfl⟩ := List.append_of_mem member
  cases later with
  | nil => exact ⟨earlier, rfl⟩
  | cons j later =>
      have less := List.rel_of_pairwise_cons (List.pairwise_append.mp represents.sorted).2.1
        List.mem_cons_self
      have listed : j ∈ earlier ++ i :: j :: later := by simp
      exact absurd (least j (represents.mem.mp listed).1) (Nat.not_le.mpr less)

variable [DecidableEq κ]

theorem lookup_of_valid (represents : Represents slots count bound order entries)
    (inside : i < count) (valid : (slots i).valid = true) :
    lookup entries (slots i).key = some (slots i).entry := by
  have member := represents.mem.mpr ⟨inside, valid⟩
  cases found : lookup entries (slots i).key with
  | none =>
      rw [lookup, List.find?_eq_none, ← represents.entries_eq] at found
      have missed := found (slots i).entry (List.mem_map_of_mem member)
      simp [Slot.entry] at missed
  | some entry =>
      have held := List.mem_of_find?_eq_some found
      have sameKey : entry.1 = (slots i).key := by simpa using List.find?_some found
      rw [← represents.entries_eq] at held
      obtain ⟨j, other, rfl⟩ := List.mem_map.mp held
      rw [List.inj_on_of_nodup_map represents.distinct other member sameKey]

theorem lookup_of_absent (represents : Represents slots count bound order entries)
    (absent : ∀ j < count, (slots j).valid = true → (slots j).key ≠ key) :
    lookup entries key = none := by
  rw [lookup, List.find?_eq_none, ← represents.entries_eq]
  intro entry held
  obtain ⟨j, member, rfl⟩ := List.mem_map.mp held
  obtain ⟨inside, valid⟩ := represents.mem.mp member
  have different := absent j inside valid
  simp [Slot.entry, different]

theorem hit (represents : Represents slots count bound order entries) (inside : i < count)
    (valid : (slots i).valid = true) (write : Bool) :
    Represents
      (Function.update slots i { valid := true, key := (slots i).key, stamp := bound + 1
                                 dirty := (slots i).dirty || write }) count
      (bound + 1) (i :: order.erase i) (touch count entries (slots i).key write) := by
  have member := represents.mem.mpr ⟨inside, valid⟩
  have only : ∀ j ∈ order, (slots j).key = (slots i).key ↔ j = i := fun j other =>
    ⟨List.inj_on_of_nodup_map represents.distinct other member, fun same => same ▸ rfl⟩
  have promoted := represents.promote inside
    (fun j other different => mt (only j other).mp different) ((slots i).dirty || write)
  have erased : entries.eraseP (fun entry => entry.1 = (slots i).key) =
      (order.erase i).map fun j => (slots j).entry := by
    rw [← represents.entries_eq, List.eraseP_map, eraseP_eq_erase]
    simpa [Slot.entry] using only
  rw [touch, represents.lookup_of_valid inside valid]
  simp only [erased]
  exact promoted

theorem fill (represents : Represents slots count bound order entries) (inside : i < count)
    (unused : (slots i).valid = false)
    (absent : ∀ j < count, (slots j).valid = true → (slots j).key ≠ key) (write : Bool) :
    Represents (Function.update slots i { valid := true, key, stamp := bound + 1, dirty := write })
      count (bound + 1) (i :: order.erase i) (touch count entries key write) ∧
      writesBack count entries key = false := by
  have outside : i ∉ order := fun member => by
    simp [(represents.mem.mp member).2] at unused
  have promoted := represents.promote inside
    (fun j member _ => absent j (represents.mem.mp member).1 (represents.mem.mp member).2) write
  have room : entries.length ≠ count := by
    have sub : i :: order ⊆ List.range count := by
      refine List.cons_subset.mpr ⟨List.mem_range.mpr inside, fun j member => ?_⟩
      exact List.mem_range.mpr (represents.mem.mp member).1
    have le := (List.subperm_of_subset (represents.nodup.cons outside) sub).length_le
    rw [List.length_cons, List.length_range, ← represents.length_eq] at le
    omega
  refine ⟨?_, by simp [writesBack, room]⟩
  rw [touch, represents.lookup_of_absent absent, if_neg room, ← represents.entries_eq]
  rwa [List.erase_of_not_mem outside] at promoted ⊢

/-- Using a new key when no slot is unused: the slot with the least stamp is given up. -/
theorem evict (represents : Represents slots count bound order entries) (inside : i < count)
    (full : ∀ j < count, (slots j).valid = true)
    (least : ∀ j < count, (slots i).stamp ≤ (slots j).stamp)
    (absent : ∀ j < count, (slots j).valid = true → (slots j).key ≠ key) (write : Bool) :
    Represents (Function.update slots i { valid := true, key, stamp := bound + 1, dirty := write })
      count (bound + 1) (i :: order.erase i) (touch count entries key write) ∧
      writesBack count entries key = (slots i).dirty := by
  have promoted := represents.promote inside
    (fun j member _ => absent j (represents.mem.mp member).1 (represents.mem.mp member).2) write
  have length : entries.length = count := by
    refine Nat.le_antisymm represents.length_le ?_
    have sub : List.range count ⊆ order := fun j member =>
      represents.mem.mpr ⟨List.mem_range.mp member, full j (List.mem_range.mp member)⟩
    have le := (List.subperm_of_subset List.nodup_range sub).length_le
    rwa [List.length_range, ← represents.length_eq] at le
  obtain ⟨earlier, rfl⟩ := represents.last_of_least inside full least
  have outside : i ∉ earlier := by
    have nodup := represents.nodup
    rw [List.nodup_append] at nodup
    exact fun member => nodup.2.2 i member i (by simp) rfl
  have erased : (earlier ++ [i]).erase i = earlier := by
    simp [List.erase_append_right _ outside]
  have missing := represents.lookup_of_absent absent
  rw [← represents.entries_eq, List.map_append] at missing length ⊢
  refine ⟨?_, ?_⟩
  · rw [touch, missing, if_pos length]
    simpa [erased] using promoted
  · simp only [writesBack, missing, length]
    simp [Slot.entry]

end Represents

end Recency
end CS2200
