import CS2200.Library.CString
import Mathlib.Algebra.Group.Nat.Defs
import Mathlib.Data.List.TakeWhile

/-!
# Printed text is read back

Numbers in the format `%d` are read by `atoi`, words with spaces between them by `strtok`, and short
lines by `fgets`.
-/

namespace CS2200
namespace CString

/-! ## Numbers -/

/-- Decimal digits of a number. -/
def digits (number : Nat) : List UInt8 :=
  if number < 10 then [.ofNat (48 + number)]
  else digits (number / 10) ++ [.ofNat (48 + number % 10)]

/-- The format `%d`. -/
def printed (number : Int) : List UInt8 :=
  if number < 0 then 45 :: digits number.natAbs else digits number.natAbs

section Numbers

variable {number : Nat}

theorem digit_toNat {digit : Nat} (isDigit : digit < 10) :
    (UInt8.ofNat (48 + digit)).toNat = 48 + digit := by
  rw [UInt8.toNat_ofNat']
  omega

private theorem isdigit_digit {digit : Nat} (isDigit : digit < 10) :
    isdigit (.ofNat (48 + digit)) = true := by
  have value := digit_toNat isDigit
  simp only [isdigit, Bool.and_eq_true, decide_eq_true_eq, UInt8.le_iff_toNat_le, value]
  constructor
  · exact Nat.le_add_right 48 digit
  · exact Nat.add_le_add_left (Nat.le_of_lt_succ isDigit) 48

theorem all_isdigit_digits (number : Nat) : ∀ byte ∈ digits number, isdigit byte = true := by
  fun_induction digits number with
  | case1 number small =>
      intro byte member
      obtain rfl := List.mem_singleton.mp member
      exact isdigit_digit small
  | case2 number large ih =>
      intro byte member
      rcases List.mem_append.mp member with earlier | last
      · exact ih byte earlier
      · obtain rfl := List.mem_singleton.mp last
        exact isdigit_digit (Nat.mod_lt number (by decide))

theorem digits_ne_nil (number : Nat) : digits number ≠ [] := by
  rw [digits]
  split <;> simp

theorem length_digits_le {count : Nat} (small : number < 10 ^ (count + 1)) :
    (digits number).length ≤ count + 1 := by
  induction count generalizing number with
  | zero => simp [digits, show number < 10 by omega]
  | succ count ih =>
      rw [digits]
      split
      · simp
      · rw [Nat.pow_succ] at small
        have shorter := ih (Nat.div_lt_of_lt_mul (by omega : number < 10 * 10 ^ (count + 1)))
        rw [List.length_append, List.length_singleton]
        omega

private theorem decimal_digits (number : Nat) : decimal (digits number) = number := by
  fun_induction digits number with
  | case1 number small =>
      have value := digit_toNat small
      simp only [decimal, List.foldl_cons, List.foldl_nil, value]
      omega
  | case2 number large ih =>
      have value := digit_toNat (Nat.mod_lt number (by decide : 0 < 10))
      simp only [decimal, List.foldl_append, List.foldl_cons, List.foldl_nil, value] at ih ⊢
      rw [ih]
      omega

theorem isdigit_iff {byte : UInt8} : isdigit byte = true ↔ 48 ≤ byte.toNat ∧ byte.toNat ≤ 57 := by
  simp only [isdigit, Bool.and_eq_true, decide_eq_true_eq, UInt8.le_iff_toNat_le]
  rfl

private theorem isspace_of_isdigit {byte : UInt8} (isDigit : isdigit byte = true) :
    isspace byte = false := by
  rw [isdigit_iff] at isDigit
  have notSpace : byte ≠ 32 := by
    rintro rfl
    exact absurd isDigit.1 (by decide)
  have large : ¬ byte ≤ 13 := by
    rw [UInt8.le_iff_toNat_le]
    exact fun small => absurd (Nat.le_trans isDigit.1 small) (by decide)
  simp [isspace, notSpace, large]

private theorem ne_sign_of_isdigit {byte : UInt8} (isDigit : isdigit byte = true) :
    byte ≠ 45 ∧ byte ≠ 43 := by
  rw [isdigit_iff] at isDigit
  constructor <;> rintro rfl <;> exact absurd isDigit.1 (by decide)

private theorem takeWhile_digits (number : Nat) :
    (digits number).takeWhile isdigit = digits number :=
  List.takeWhile_eq_self_iff.mpr (all_isdigit_digits number)

/-- `strtol` reads a number of a `long`. -/
theorem strtol_printed {number : Int} (lower : -2 ^ 63 ≤ number) (upper : number < 2 ^ 63) :
    strtol (printed number) = number := by
  obtain ⟨first, rest, split⟩ := List.exists_cons_of_ne_nil (digits_ne_nil number.natAbs)
  by_cases negative : number < 0
  · have value : decimal ((digits number.natAbs).takeWhile isdigit) = number.natAbs := by
      rw [takeWhile_digits, decimal_digits]
    have noSpace : isspace 45 = false := rfl
    simp only [printed, if_pos negative, strtol, List.dropWhile_cons, noSpace, Bool.false_eq_true,
      if_false, if_true, value]
    omega
  · have isDigit : isdigit first = true :=
      all_isdigit_digits number.natAbs first (split ▸ List.mem_cons_self)
    obtain ⟨notMinus, notPlus⟩ := ne_sign_of_isdigit isDigit
    have value : decimal ((first :: rest).takeWhile isdigit) = number.natAbs := by
      rw [← split, takeWhile_digits, decimal_digits]
    simp only [printed, if_neg negative, split, strtol, List.dropWhile_cons,
      isspace_of_isdigit isDigit, Bool.false_eq_true, if_false, if_neg notMinus, if_neg notPlus,
      value]
    omega

/-- `atoi` reads an `int`. -/
theorem atoi_printed (number : Int32) : atoi (printed number.toInt) = number := by
  have lower := number.le_toInt
  have upper := number.toInt_lt
  rw [atoi, strtol_printed (by omega) (by omega), Int32.ofInt_toInt]

end Numbers

/-! ## Words -/

section Words

variable {delimiters word rest : List UInt8} {separator : UInt8}

/-- A word of printed text. -/
structure IsWord (delimiters word : List UInt8) : Prop where
  /-- There is a byte. -/
  nonempty : word ≠ []
  /-- No byte is a delimiter. -/
  plain : ∀ byte ∈ word, byte ∉ delimiters

private theorem IsWord.dropWhile (isWord : IsWord delimiters word) (rest : List UInt8) :
    (word ++ rest).dropWhile (· ∈ delimiters) = word ++ rest := by
  obtain ⟨first, later, rfl⟩ := List.exists_cons_of_ne_nil isWord.nonempty
  have notDelimiter := isWord.plain first List.mem_cons_self
  simp [notDelimiter]

/-- `strtok` takes a word before a separator. -/
theorem strtok_word (isWord : IsWord delimiters word) (separates : separator ∈ delimiters)
    (rest : List UInt8) : strtok delimiters (word ++ separator :: rest) = (some word, rest) := by
  have skips := isWord.dropWhile (separator :: rest)
  obtain ⟨first, later, same⟩ := List.exists_cons_of_ne_nil isWord.nonempty
  have all : ∀ byte ∈ word, decide (byte ∉ delimiters) = true := fun byte member =>
    decide_eq_true (isWord.plain byte member)
  have takes : (word ++ separator :: rest).takeWhile (· ∉ delimiters) = word := by
    rw [List.takeWhile_append_of_pos all]
    simp [separates]
  have drops : (word ++ separator :: rest).dropWhile (· ∉ delimiters) = separator :: rest := by
    rw [List.dropWhile_append_of_pos all]
    simp [separates]
  rw [strtok, skips]
  subst same
  rw [List.cons_append] at takes drops ⊢
  simp only [takes, drops, List.tail_cons]

end Words

/-! ## Lines -/

/-- Words with spaces between them. -/
def spaced : List (List UInt8) → List UInt8
  | [] => []
  | [word] => word
  | word :: next :: words => word ++ 32 :: spaced (next :: words)

section Lines

variable {size : Nat} {delimiters word next text rest : List UInt8} {words : List (List UInt8)}

theorem mem_of_mem_spaced {byte : UInt8} (member : byte ∈ spaced words) :
    byte = 32 ∨ ∃ word ∈ words, byte ∈ word := by
  fun_induction spaced words with
  | case1 => cases member
  | case2 word => exact .inr ⟨word, List.mem_cons_self, member⟩
  | case3 word next words ih =>
      rcases List.mem_append.mp member with inside | later
      · exact .inr ⟨word, List.mem_cons_self, inside⟩
      · rcases List.mem_cons.mp later with space | later
        · exact .inl space
        · refine (ih later).imp_right ?_
          rintro ⟨other, present, inside⟩
          exact ⟨other, List.mem_cons_of_mem _ present, inside⟩

/-- `strtok` takes a word of a line. -/
theorem strtok_spaced (isWord : IsWord delimiters word) (space : 32 ∈ delimiters) :
    strtok delimiters (spaced (word :: next :: words) ++ [newline]) =
      (some word, spaced (next :: words) ++ [newline]) := by
  rw [spaced, List.append_assoc, List.cons_append]
  exact strtok_word isWord space _

private theorem fgetsLoop_line (noNewline : newline ∉ text) {room : Nat}
    (short : text.length < room) :
    fgetsLoop room (text ++ newline :: rest) = (text ++ [newline], rest) := by
  induction text generalizing room with
  | nil =>
      obtain ⟨room, rfl⟩ := Nat.exists_eq_succ_of_ne_zero (Nat.ne_of_gt short)
      rfl
  | cons byte text ih =>
      obtain ⟨room, rfl⟩ := Nat.exists_eq_succ_of_ne_zero (Nat.ne_of_gt (Nat.zero_lt_of_lt short))
      rw [List.mem_cons, not_or] at noNewline
      have later := ih noNewline.2 (Nat.lt_of_succ_lt_succ short)
      simp [fgetsLoop, Ne.symm noNewline.1, later]

/-- `fgets` reads a line that fits into its buffer. -/
theorem fgets_line (noNewline : newline ∉ text) (short : text.length + 1 < size)
    (rest : List UInt8) :
    fgets size (text ++ newline :: rest) = some (text ++ [newline], rest) := by
  have loop := @fgetsLoop_line text rest noNewline (size - 1) (by omega)
  rw [← loop]
  cases text <;> rfl

theorem contents_eq (noZero : 0 ∉ text) : contents text = text :=
  List.takeWhile_eq_self_iff.mpr fun _ member => decide_eq_true (ne_of_mem_of_not_mem member noZero)

end Lines

end CString
end CS2200
