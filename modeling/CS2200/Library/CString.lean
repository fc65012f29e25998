import Mathlib.Algebra.Ring.Int.Defs
import Mathlib.Data.List.Basic

/-!
# Text in C

Functions of the standard library on text, which is kept as a list of bytes: `fgets`, `strtok` and
`atoi`. A loop of `fgets` reads a file piece by piece, and no piece goes beyond the end of a line.
-/

namespace CS2200
namespace CString

/-! ## Lines -/

/-- The byte `'\n'`. -/
def newline : UInt8 := 10

/-- The bytes that a call of `fgets` stores, and the bytes that are left. -/
def fgetsLoop : Nat → List UInt8 → List UInt8 × List UInt8
  | 0, stream => ([], stream)
  | _ + 1, [] => ([], [])
  | room + 1, byte :: stream =>
      if byte = newline then ([byte], stream)
      else
        let (buff, rest) := fgetsLoop room stream
        (byte :: buff, rest)

/-- `fgets` with a buffer for `size - 1` bytes and a terminating zero. -/
def fgets (size : Nat) : List UInt8 → Option (List UInt8 × List UInt8)
  | [] => none
  | byte :: stream => some (fgetsLoop (size - 1) (byte :: stream))

/-- The lines of a text, each with the newline that ends it. -/
def lines : List UInt8 → List (List UInt8)
  | [] => []
  | byte :: text =>
      if byte = newline then [byte] :: lines text
      else
        match lines text with
        | [] => [[byte]]
        | line :: later => (byte :: line) :: later

/-- A text of whole lines. -/
def Closed (text : List UInt8) : Prop := text ≠ [] → text.getLast? = some newline

section Lines

variable {size : Nat} {text first second : List UInt8}

private theorem fgetsLoop_append (room : Nat) (stream : List UInt8) :
    (fgetsLoop room stream).1 ++ (fgetsLoop room stream).2 = stream := by
  induction room generalizing stream with
  | zero => rfl
  | succ room ih =>
      cases stream with
      | nil => rfl
      | cons byte stream =>
          by_cases ends : byte = newline
          · simp [fgetsLoop, ends]
          · simp [fgetsLoop, ends, ih]

/-- A buffer for a byte takes one. -/
theorem fgetsLoop_length_lt {room : Nat} (positive : 0 < room) (byte : UInt8)
    (stream : List UInt8) :
    (fgetsLoop room (byte :: stream)).2.length < (byte :: stream).length := by
  obtain ⟨room, rfl⟩ := Nat.exists_eq_succ_of_ne_zero (Nat.ne_of_gt positive)
  by_cases ends : byte = newline
  · simp [fgetsLoop, ends]
  · have split := congrArg List.length (fgetsLoop_append room stream)
    simp only [fgetsLoop, ends, if_false, List.length_cons, List.length_append] at split ⊢
    omega

theorem fgets_length_lt (two : 2 ≤ size) {stream buff rest : List UInt8}
    (reads : fgets size stream = some (buff, rest)) : rest.length < stream.length := by
  cases stream with
  | nil => cases reads
  | cons byte stream =>
      obtain rfl : (fgetsLoop (size - 1) (byte :: stream)).2 = rest :=
        congrArg Prod.snd (Option.some.inj reads)
      exact fgetsLoop_length_lt (by omega) byte stream

private theorem Closed.of_cons {byte : UInt8} (closed : Closed (byte :: text)) : Closed text := by
  intro nonempty
  have last := closed (List.cons_ne_nil _ _)
  rwa [List.getLast?_cons, List.getLast?_eq_some_getLast nonempty, Option.getD_some,
    ← List.getLast?_eq_some_getLast nonempty] at last

/-- What follows whole lines does not matter before they are read. -/
theorem fgetsLoop_closed (closed : Closed text) (nonempty : text ≠ []) (room : Nat)
    (later : List UInt8) :
    fgetsLoop room (text ++ later) = ((fgetsLoop room text).1, (fgetsLoop room text).2 ++ later) ∧
      Closed (fgetsLoop room text).2 := by
  induction room generalizing text with
  | zero => exact ⟨rfl, closed⟩
  | succ room ih =>
      cases text with
      | nil => exact absurd rfl nonempty
      | cons byte text =>
          by_cases ends : byte = newline
          · simp [fgetsLoop, ends, closed.of_cons]
          · have more : text ≠ [] := by
              rintro rfl
              exact ends (Option.some.inj (closed (List.cons_ne_nil _ _)))
            obtain ⟨same, rest⟩ := ih closed.of_cons more
            simp [fgetsLoop, ends, same, rest]

/-- What a loop of `fgets` reads, piece by piece. -/
def buffers (two : 2 ≤ size) (stream : List UInt8) : List (List UInt8) :=
  match _reads : fgets size stream with
  | none => []
  | some (buff, rest) => buff :: buffers two rest
termination_by stream.length
decreasing_by exact fgets_length_lt two _reads

theorem buffers_of_none (two : 2 ≤ size) (ends : fgets size text = none) :
    buffers two text = [] := by
  rw [buffers]
  split
  · rfl
  · rename_i reads
    cases ends.symm.trans reads

theorem buffers_of_some (two : 2 ≤ size) {buff rest : List UInt8}
    (reads : fgets size text = some (buff, rest)) :
    buffers two text = buff :: buffers two rest := by
  rw [buffers]
  split
  · rename_i ends
    cases ends.symm.trans reads
  · rename_i same
    obtain ⟨rfl, rfl⟩ := Prod.mk.inj (Option.some.inj (reads.symm.trans same))
    rfl

theorem buffers_append (two : 2 ≤ size) (closed : Closed first) (second : List UInt8) :
    buffers two (first ++ second) = buffers two first ++ buffers two second := by
  induction length : first.length using Nat.strongRecOn generalizing first with
  | ind _ ih =>
      cases first with
      | nil =>
          have nothing : buffers two [] = [] := buffers_of_none two rfl
          rw [nothing, List.nil_append, List.nil_append]
      | cons byte text =>
          obtain ⟨same, rest⟩ := fgetsLoop_closed closed (List.cons_ne_nil _ _) (size - 1) second
          have reads : fgets size (byte :: text) = some (fgetsLoop (size - 1) (byte :: text)) := rfl
          have readsMore : fgets size (byte :: text ++ second) =
              some (fgetsLoop (size - 1) (byte :: text ++ second)) := rfl
          rw [same] at readsMore
          have shorter := fgetsLoop_length_lt (by omega : 0 < size - 1) byte text
          rw [buffers_of_some two readsMore, buffers_of_some two reads, List.cons_append,
            ih _ (length ▸ shorter) rest rfl]

theorem lines_flatten (text : List UInt8) : (lines text).flatten = text := by
  induction text with
  | nil => rfl
  | cons byte text ih =>
      by_cases ends : byte = newline
      · simp [lines, ends, ih]
      · conv_rhs => rw [← ih]
        cases later : lines text <;> simp [lines, ends, later]

private theorem ne_nil_of_mem_lines {line : List UInt8} (isLine : line ∈ lines text) :
    line ≠ [] := by
  induction text generalizing line with
  | nil => cases isLine
  | cons byte text ih =>
      by_cases ends : byte = newline
      · rcases List.mem_cons.mp (by simpa [lines, ends] using isLine) with rfl | isLater
        · exact List.cons_ne_nil _ _
        · exact ih isLater
      · cases later : lines text with
        | nil =>
            obtain rfl : line = [byte] := by simpa [lines, ends, later] using isLine
            exact List.cons_ne_nil _ _
        | cons first rest =>
            rcases List.mem_cons.mp (by simpa [lines, ends, later] using isLine) with rfl | isLater
            · exact List.cons_ne_nil _ _
            · exact ih (later ▸ List.mem_cons_of_mem _ isLater)

private theorem Closed.append (left : Closed first) (right : Closed second) :
    Closed (first ++ second) := by
  intro nonempty
  by_cases empty : second = []
  · rw [empty, List.append_nil] at nonempty ⊢
    exact left nonempty
  · rw [List.getLast?_append, right empty]
    rfl

private theorem Closed.cons {byte : UInt8} (closed : Closed text) (nonempty : text ≠ []) :
    Closed (byte :: text) := by
  intro _
  rw [List.getLast?_cons, closed nonempty]
  rfl

theorem lines_closed {earlier later : List (List UInt8)} {line : List UInt8}
    (split : lines text = earlier ++ line :: later) : Closed earlier.flatten := by
  induction text generalizing earlier with
  | nil => simp [lines] at split
  | cons byte text ih =>
      cases earlier with
      | nil => exact fun nonempty => absurd rfl nonempty
      | cons first earlier =>
          by_cases ends : byte = newline
          · obtain ⟨rfl, rest⟩ : [newline] = first ∧ lines text = earlier ++ line :: later := by
              simpa [lines, ends] using split
            exact Closed.append (fun _ => rfl) (ih rest)
          · cases next : lines text with
            | nil => simp [lines, ends, next] at split
            | cons head tail =>
                obtain ⟨rfl, rfl⟩ : byte :: head = first ∧ tail = earlier ++ line :: later := by
                  simpa [lines, ends, next] using split
                have nonempty : head ≠ [] :=
                  ne_nil_of_mem_lines (by rw [next]; exact List.mem_cons_self)
                have closed : Closed (head :: earlier).flatten := ih next
                exact closed.cons fun empty => nonempty (List.append_eq_nil_iff.mp empty).1

end Lines

/-! ## Tokens -/

/-- The string in a buffer ends before the first zero. -/
def contents (buff : List UInt8) : List UInt8 := buff.takeWhile (· ≠ 0)

/-- `strtok`: the next token of a string, none where it would be `NULL`, and the string after the
delimiter that ends the token. -/
def strtok (delimiters string : List UInt8) : Option (List UInt8) × List UInt8 :=
  match string.dropWhile (· ∈ delimiters) with
  | [] => (none, [])
  | byte :: rest =>
      (some ((byte :: rest).takeWhile (· ∉ delimiters)),
        ((byte :: rest).dropWhile (· ∉ delimiters)).tail)

/-! ## Numbers -/

/-- `isspace`. -/
def isspace (byte : UInt8) : Bool := byte = 32 || 9 ≤ byte && byte ≤ 13

/-- `isdigit`. -/
def isdigit (byte : UInt8) : Bool := 48 ≤ byte && byte ≤ 57

/-- The number that decimal digits stand for. -/
def decimal (digits : List UInt8) : Nat :=
  digits.foldl (fun value digit => 10 * value + (digit.toNat - 48)) 0

/-- `strtol` to base 10, which stays in the range of a `long`. -/
def strtol (string : List UInt8) : Int :=
  match string.dropWhile isspace with
  | [] => 0
  | first :: rest =>
      if first = 45 then max (-(decimal (rest.takeWhile isdigit) : Int)) (-2 ^ 63)
      else if first = 43 then min (decimal (rest.takeWhile isdigit) : Int) (2 ^ 63 - 1)
      else min (decimal ((first :: rest).takeWhile isdigit) : Int) (2 ^ 63 - 1)

/-- `atoi`. -/
def atoi (string : List UInt8) : Int32 := Int32.ofInt (strtol string)

/-- The number that a token stands for as a whole, none where it is no number. -/
def number (token : List UInt8) : Option Int :=
  match token with
  | [] => none
  | sign :: digits =>
      if sign = 45 ∧ digits ≠ [] ∧ digits.all isdigit then some (-(decimal digits : Int))
      else if sign = 43 ∧ digits ≠ [] ∧ digits.all isdigit then some (decimal digits)
      else if (sign :: digits).all isdigit then some (decimal (sign :: digits))
      else none

example : atoi [32, 45, 52, 50, 120] = -42 := by decide

end CString
end CS2200
