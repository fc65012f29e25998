import Mathlib.Algebra.Ring.Int.Defs

/-!
# Integers of 32 bits

The values of an `int` in C and its operations, which wrap around, and arrays that are accessed at an
`int`.
-/

namespace CS2200
namespace CInt

/-- The largest `int`. -/
abbrev intMax : Int := 2147483647

/-- A value of an `int`. -/
def IsInt (n : Int) : Prop := -2147483648 ≤ n ∧ n ≤ intMax

instance (n : Int) : Decidable (IsInt n) := inferInstanceAs (Decidable (_ ∧ _))

/-- The result of an operation on `int`s. -/
def wrap (n : Int) : Int := n.bmod 4294967296

theorem wrap_eq {n : Int} (isInt : IsInt n) : wrap n = n := by
  obtain ⟨lower, upper⟩ := isInt
  unfold intMax at upper
  exact Int.bmod_eq_of_le (by omega) (by omega)

theorem isInt_wrap (n : Int) : IsInt (wrap n) := by
  have lower : -(4294967296 / 2) ≤ wrap n := Int.le_bmod (by decide)
  have upper : wrap n < (4294967296 + 1) / 2 := Int.bmod_lt (by decide)
  constructor
  · omega
  · unfold intMax
    omega

/-- A sum that is too large becomes negative. -/
theorem wrap_neg {n : Int} (large : intMax < n) (less : n < 4294967296) : wrap n < 0 := by
  unfold intMax at large
  unfold wrap
  rw [Int.bmod_def]
  omega

/-! ## Arrays -/

section Arrays

variable {α : Type*}

/-- `array[index]`. -/
def load (array : List α) (index : Int) : Option α :=
  if 0 ≤ index then array[index.toNat]? else none

/-- `array[index] = value`. -/
def store (array : List α) (index : Int) (value : α) : Option (List α) :=
  if 0 ≤ index ∧ index < array.length then some (array.set index.toNat value) else none

private theorem load_natCast (array : List α) (index : Nat) : load array index = array[index]? :=
  if_pos (Int.natCast_nonneg _)

theorem load_of_neg {index : Int} (negative : index < 0) (array : List α) :
    load array index = none :=
  if_neg (Int.not_le.mpr negative)

theorem store_natCast {array : List α} {value : α} {index : Nat} (inside : index < array.length) :
    store array index value = some (array.set index value) := by
  have bounds : 0 ≤ (index : Int) ∧ (index : Int) < array.length := by omega
  simp [store, bounds]

theorem store_nil (index : Int) (value : α) : store [] index value = none :=
  if_neg fun bounds => Int.not_lt.mpr bounds.1 bounds.2

theorem mapM_load {array : List α} {start count : Nat} (inside : start + count ≤ array.length)
    (isInt : (start : Int) + count ≤ intMax) :
    (List.range count).mapM (fun j : Nat => load array (wrap (start + j))) =
      some ((array.drop start).take count) := by
  induction count with
  | zero => simp
  | succ count ih =>
      have present : start + count < array.length := by omega
      have index : wrap ((start : Int) + (count : Int)) = ((start + count : Nat) : Int) := by
        rw [wrap_eq ⟨by omega, by omega⟩]
        omega
      have read : load array (wrap ((start : Int) + (count : Int))) = some array[start + count] := by
        rw [index, load_natCast, List.getElem?_eq_getElem present]
      rw [List.range_succ, List.mapM_append, ih (by omega) (by omega)]
      simp [read, present, List.take_add_one]

theorem mapM_eq_none {α β : Type*} {f : α → Option β} {as : List α} {a : α} (member : a ∈ as)
    (fails : f a = none) : as.mapM f = none := by
  induction as with
  | nil => cases member
  | cons head tail ih =>
      rcases List.mem_cons.mp member with rfl | member
      · simp [List.mapM_cons, fails]
      · cases result : f head <;> simp [List.mapM_cons, result, ih member]

end Arrays

end CInt
end CS2200
