import Mathlib.Algebra.BigOperators.Group.Finset.Piecewise
import Mathlib.Algebra.BigOperators.Ring.Finset
import Mathlib.Algebra.Order.BigOperators.Group.Finset
import Mathlib.Data.List.Basic
import Mathlib.Order.Interval.Finset.Nat

/-!
# Paging against a clairvoyant store

A list of at most `capacity` keys, the most recently used first, is compared with a store that may
hold any keys at any time, knows the future and pays for every key that it loads. The sum of the
depths at which the list has the keys of the store is a potential: it grows by at most `capacity`
with every load, and it pays for the misses of the list.
-/

namespace CS2200
namespace Paging

variable {κ : Type*} [DecidableEq κ] {capacity : Nat} {list : List κ} {key other : κ}

/-! ## Depths -/

/-- Use a key of a recency list. -/
def promote (capacity : Nat) (list : List κ) (key : κ) : List κ :=
  (key :: list.erase key).take capacity

/-- The number of keys that were used after a key; a key that is not in the list is as deep as the
list can be. -/
def depth (capacity : Nat) (list : List κ) (key : κ) : Nat :=
  if key ∈ list then list.idxOf key else capacity

theorem depth_le (fits : list.length ≤ capacity) (key : κ) : depth capacity list key ≤ capacity := by
  unfold depth
  split
  case isTrue member => exact (List.idxOf_lt_length_of_mem member).le.trans fits
  case isFalse => exact le_rfl

theorem length_promote (capacity : Nat) (list : List κ) (key : κ) :
    (promote capacity list key).length ≤ capacity := by
  rw [promote, List.length_take]
  exact Nat.min_le_left ..

theorem nodup_promote (nodup : list.Nodup) (capacity : Nat) (key : κ) :
    (promote capacity list key).Nodup :=
  (List.nodup_cons.mpr ⟨nodup.not_mem_erase, nodup.erase key⟩).sublist (List.take_sublist ..)

/-- A list with room for the keys that are used forgets none of them. -/
theorem mem_promote (room : (key :: list.erase key).length ≤ capacity) :
    other ∈ promote capacity list key ↔ other = key ∨ other ∈ list := by
  rw [promote, List.take_of_length_le room, List.mem_cons]
  by_cases same : other = key
  · simp [same]
  · simp [same, List.mem_erase_of_ne same]

theorem mem_of_mem_promote (member : other ∈ promote capacity list key) :
    other = key ∨ other ∈ list :=
  (List.mem_cons.mp (List.mem_of_mem_take member)).imp_right List.mem_of_mem_erase

private theorem idxOf_erase (different : other ≠ key) (list : List κ) :
    (list.erase key).idxOf other + (if list.idxOf key < list.idxOf other then 1 else 0) =
      list.idxOf other := by
  induction list with
  | nil => rfl
  | cons head list ih =>
      by_cases isKey : head = key
      · subst isKey
        simp [List.idxOf_cons_ne _ different.symm]
      · rw [List.erase_cons_tail (by simpa using isKey)]
        by_cases isOther : head = other
        · subst isOther
          simp
        · rw [List.idxOf_cons_ne _ isOther, List.idxOf_cons_ne _ isOther,
            List.idxOf_cons_ne _ isKey]
          simp only [Nat.succ_lt_succ_iff]
          omega

private theorem depth_take (member : key ∈ list) :
    depth capacity (list.take capacity) key ≤ list.idxOf key := by
  unfold depth
  split
  case isTrue inside =>
    have front : (list.take capacity ++ list.drop capacity).idxOf key =
        (list.take capacity).idxOf key := List.idxOf_append_of_mem inside
    rw [List.take_append_drop] at front
    exact front.ge
  case isFalse outside =>
    by_contra less
    have below := List.idxOf_lt_length_of_mem member
    refine outside (List.mem_take_iff_getElem.mpr ⟨list.idxOf key, ?_, List.getElem_idxOf below⟩)
    exact Nat.lt_min.mpr ⟨Nat.lt_of_not_le less, below⟩

private theorem depth_promote_self (positive : 0 < capacity) (list : List κ) (key : κ) :
    depth capacity (promote capacity list key) key = 0 := by
  obtain ⟨capacity, rfl⟩ := Nat.exists_eq_add_one.mpr positive
  simp [depth, promote]

/-- Only keys that were used after the promoted one get deeper, and by one. -/
theorem depth_promote (fits : list.length ≤ capacity) (different : other ≠ key) :
    depth capacity (promote capacity list key) other ≤ depth capacity list other +
      if depth capacity list other < depth capacity list key then 1 else 0 := by
  by_cases member : other ∈ list
  · have moved := idxOf_erase different list
    have stays : other ∈ key :: list.erase key :=
      List.mem_cons_of_mem _ ((List.mem_erase_of_ne different).mpr member)
    have front : depth capacity (promote capacity list key) other ≤
        (list.erase key).idxOf other + 1 := by
      have moves : (key :: list.erase key).idxOf other = (list.erase key).idxOf other + 1 :=
        List.idxOf_cons_ne _ different.symm
      exact moves ▸ depth_take stays
    have below := List.idxOf_lt_length_of_mem member
    have apart : list.idxOf other ≠ list.idxOf key :=
      fun same => different ((List.idxOf_inj member).mp same)
    have isDepth : depth capacity list other = list.idxOf other := if_pos member
    have order : list.idxOf other < list.idxOf key →
        depth capacity list other < depth capacity list key := by
      intro before
      rw [isDepth, depth]
      split
      case isTrue => exact before
      case isFalse => exact below.trans_le fits
    split
    case isTrue => split at moved <;> omega
    case isFalse after =>
      have later : list.idxOf key < list.idxOf other := by
        have := mt order after
        omega
      rw [if_pos later] at moved
      omega
  · have outside : other ∉ promote capacity list key := by
      intro inside
      exact (mem_of_mem_promote inside).elim different member
    have deep : depth capacity (promote capacity list key) other = capacity := if_neg outside
    have deepBefore : depth capacity list other = capacity := if_neg member
    rw [deep, deepBefore]
    exact Nat.le_add_right ..

/-! ## The potential -/

/-- The depths of the keys that a store holds. -/
def potential (capacity : Nat) (list : List κ) (held : Finset κ) : Nat :=
  ∑ key ∈ held, depth capacity list key

/-- A load costs at most the capacity. -/
theorem potential_load (fits : list.length ≤ capacity) (before after : Finset κ) :
    potential capacity list after ≤
      potential capacity list before + capacity * (after \ before).card := by
  have kept : ∑ key ∈ after ∩ before, depth capacity list key ≤ potential capacity list before :=
    Finset.sum_le_sum_of_subset Finset.inter_subset_right
  have loaded : ∑ key ∈ after \ before, depth capacity list key ≤
      (after \ before).card * capacity :=
    Finset.sum_le_card_nsmul _ _ _ fun key _ => depth_le fits key
  calc
    potential capacity list after = ∑ key ∈ after ∩ before, depth capacity list key +
        ∑ key ∈ after \ before, depth capacity list key :=
      (Finset.sum_inter_add_sum_sdiff ..).symm
    _ ≤ potential capacity list before + (after \ before).card * capacity :=
      Nat.add_le_add kept loaded
    _ = potential capacity list before + capacity * (after \ before).card := by rw [Nat.mul_comm]

private theorem card_shallower (fits : list.length ≤ capacity) (held : Finset κ) (key : κ) :
    (held.filter fun other => depth capacity list other < depth capacity list key).card ≤
      depth capacity list key := by
  have inside : ∀ other, depth capacity list other < depth capacity list key → other ∈ list := by
    intro other less
    by_contra outside
    have deep : depth capacity list other = capacity := if_neg outside
    rw [deep] at less
    exact absurd less (Nat.not_lt.mpr (depth_le fits key))
  refine (Finset.card_le_card_of_injOn (depth capacity list) ?_ ?_).trans_eq
    (Finset.card_range (depth capacity list key))
  · intro other member
    exact Finset.mem_coe.mpr (Finset.mem_range.mpr (Finset.mem_filter.mp member).2)
  · intro left leftMember right rightMember same
    have leftInside := inside left (Finset.mem_filter.mp leftMember).2
    have rightInside := inside right (Finset.mem_filter.mp rightMember).2
    simp only [depth, leftInside, rightInside, if_true] at same
    exact (List.idxOf_inj leftInside).mp same

/-- A key that the store holds is used: the potential pays for a miss. -/
theorem potential_promote (positive : 0 < capacity) (fits : list.length ≤ capacity)
    {held : Finset κ} (member : key ∈ held) {size : Nat} (small : held.card ≤ size) :
    potential capacity (promote capacity list key) held +
        (if key ∈ list then 0 else capacity + 1 - size) ≤ potential capacity list held := by
  have others : ∑ other ∈ held.erase key, depth capacity (promote capacity list key) other ≤
      ∑ other ∈ held.erase key, depth capacity list other +
        ((held.erase key).filter fun other =>
          depth capacity list other < depth capacity list key).card := by
    rw [Finset.card_filter, ← Finset.sum_add_distrib]
    exact Finset.sum_le_sum fun other inside =>
      depth_promote fits (Finset.ne_of_mem_erase inside)
  have shallow := card_shallower fits (held.erase key) key
  have few : ((held.erase key).filter fun other =>
      depth capacity list other < depth capacity list key).card ≤ held.card - 1 := by
    rw [← Finset.card_erase_of_mem member]
    exact Finset.card_filter_le ..
  have nonempty := Finset.card_pos.mpr ⟨key, member⟩
  rw [potential, potential, ← Finset.add_sum_erase _ _ member, ← Finset.add_sum_erase _ _ member,
    depth_promote_self positive]
  split
  case isTrue => omega
  case isFalse outside =>
    have deep : depth capacity list key = capacity := if_neg outside
    omega

/-! ## Systems of lists -/

section System

variable {ι : Type*} [DecidableEq ι] (places : Finset ι)

/-- The potential of several lists, beside a store for each of them. -/
def total (capacity : Nat) (lists : ι → List κ) (held : ι → Finset κ) : Nat :=
  ∑ i ∈ places, potential capacity (lists i) (held i)

/-- The number of keys that the stores load. -/
def loads (before after : ι → Finset κ) : Nat := ∑ i ∈ places, (after i \ before i).card

variable {places} {lists : ι → List κ} (before : ι → Finset κ) {after : ι → Finset κ}

omit [DecidableEq ι] in
theorem total_load (places : Finset ι) (after : ι → Finset κ)
    (fits : ∀ i, (lists i).length ≤ capacity) :
    total places capacity lists after ≤
      total places capacity lists before + capacity * loads places before after := by
  rw [total, total, loads, Finset.mul_sum, ← Finset.sum_add_distrib]
  exact Finset.sum_le_sum fun j _ => potential_load (fits j) ..

/-- One use of a key. The stores may load what they want, as long as they then hold this key. -/
theorem total_step (positive : 0 < capacity) (fits : ∀ i, (lists i).length ≤ capacity) {i : ι}
    (inside : i ∈ places) (member : key ∈ after i) {size : Nat} (small : (after i).card ≤ size) :
    total places capacity (Function.update lists i (promote capacity (lists i) key)) after +
        (if key ∈ lists i then 0 else capacity + 1 - size) ≤
      total places capacity lists before + capacity * loads places before after := by
  have loaded : total places capacity lists after ≤
      total places capacity lists before + capacity * loads places before after :=
    total_load before places after fits
  have used := potential_promote positive (fits i) member small
  have others : ∑ j ∈ places.erase i, potential capacity
      (Function.update lists i (promote capacity (lists i) key) j) (after j) =
        ∑ j ∈ places.erase i, potential capacity (lists j) (after j) :=
    Finset.sum_congr rfl fun j other => by
      rw [Function.update_of_ne (Finset.ne_of_mem_erase other)]
  rw [total, ← Finset.add_sum_erase _ _ inside, others, Function.update_self]
  rw [total, ← Finset.add_sum_erase _ _ inside] at loaded
  omega

end System

end Paging
end CS2200
