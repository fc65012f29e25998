import CS2200.Library.Printed
import CS2200.VirtualMemory.References

/-!
# Writing a references file

The lines of a references file, as the files in `references` have them: forks, loads, stores and
remarks. `sim_readdata` executes the commands that are written in a file, in their order and with
their arguments, and nothing else.
-/

namespace CS2200.VirtualMemory

open CString

/-! ## Lines of a file -/

/-- The name of a process. -/
structure Name where
  /-- Letters. -/
  bytes : List UInt8
  /-- There is a letter and no space. -/
  isWord : IsWord whitespace bytes
  /-- It contains no NUL. -/
  noNul : 0 ∉ bytes
  /-- It fits into the buffer. -/
  short : bytes.length ≤ 480

/-- What follows the first letter of a remark. -/
structure Remark where
  /-- Letters. -/
  bytes : List UInt8
  /-- It is part of a line. -/
  noNewline : newline ∉ bytes
  /-- It fits into the buffer. -/
  short : bytes.length ≤ 480

/-- A line of a references file. -/
inductive Entry where
  /-- A line that begins with `#`. -/
  | remark (text : Remark)
  /-- `@ pid name`. -/
  | fork (pid : Int32) (name : Name)
  /-- `l pid va val`. -/
  | load (pid : Int32) (va : VAddr) (val : Word)
  /-- `s pid va val`. -/
  | store (pid : Int32) (va : VAddr) (val : Word)

namespace Entry

/-- The words of a command, numbers in the format `%d`. -/
def words : Entry → List (List UInt8)
  | .remark _ => []
  | .fork pid name => [['@'.toUInt8], printed pid.toInt, name.bytes]
  | .load pid va val => [['l'.toUInt8], printed pid.toInt, printed va.toNat, printed val.toNat]
  | .store pid va val => [['s'.toUInt8], printed pid.toInt, printed va.toNat, printed val.toNat]

/-- A line without its newline. -/
def body : Entry → List UInt8
  | .remark text => '#'.toUInt8 :: text.bytes
  | entry => spaced entry.words

/-- A line. -/
def text (entry : Entry) : List UInt8 := entry.body ++ [newline]

/-- The command that a line stands for. -/
def command : Entry → Option Command
  | .remark _ => none
  | .fork pid _ => some (.fork pid.toUInt32)
  | .load pid va _ => some (.load pid.toUInt32 va)
  | .store pid va val => some (.store pid.toUInt32 va val)

end Entry

/-! ## Words of a line -/

section Words

private theorem isWord_printed (number : Int) : IsWord whitespace (printed number) := by
  have digit : ∀ {byte : UInt8}, isdigit byte = true → byte ∉ whitespace := by
    intro byte isDigit space
    rw [isdigit_iff] at isDigit
    simp only [whitespace, List.mem_cons, List.not_mem_nil, or_false] at space
    rcases space with rfl | rfl | rfl | rfl <;> exact absurd isDigit.1 (by decide)
  unfold printed
  split
  · refine ⟨List.cons_ne_nil _ _, fun byte member => ?_⟩
    rcases List.mem_cons.mp member with rfl | member
    · decide
    · exact digit (all_isdigit_digits _ byte member)
  · exact ⟨digits_ne_nil _, fun byte member => digit (all_isdigit_digits _ byte member)⟩

private theorem noNul_printed (number : Int) : 0 ∉ printed number := by
  have digit : 0 ∉ digits number.natAbs := fun member =>
    absurd (all_isdigit_digits _ 0 member) (by decide)
  unfold printed
  split
  · simpa using digit
  · exact digit

/-- An `int` has ten digits and a sign. -/
theorem length_printed_le {number : Int} (small : number.natAbs < 10 ^ 10) :
    (printed number).length ≤ 11 := by
  have digits : (digits number.natAbs).length ≤ 10 := length_digits_le small
  unfold printed
  split
  · exact Nat.succ_le_succ digits
  · exact Nat.le_succ_of_le digits

private theorem isWord_letter {letter : UInt8} (plain : letter ∉ whitespace) :
    IsWord whitespace [letter] :=
  ⟨List.cons_ne_nil _ _, fun _ member => List.mem_singleton.mp member ▸ plain⟩

theorem Entry.isWord (entry : Entry) : ∀ word ∈ entry.words, IsWord whitespace word := by
  cases entry with
  | remark text => exact fun word member => absurd member List.not_mem_nil
  | fork pid name =>
      simpa [Entry.words, isWord_printed, name.isWord] using isWord_letter (by decide)
  | load pid va val => simpa [Entry.words, isWord_printed] using isWord_letter (by decide)
  | store pid va val => simpa [Entry.words, isWord_printed] using isWord_letter (by decide)

private theorem Entry.noNul (entry : Entry) : ∀ word ∈ entry.words, 0 ∉ word := by
  cases entry with
  | remark text => exact fun word member => absurd member List.not_mem_nil
  | fork pid name => simpa [Entry.words, noNul_printed, name.noNul] using by decide
  | load pid va val => simpa [Entry.words, noNul_printed] using by decide
  | store pid va val => simpa [Entry.words, noNul_printed] using by decide

private theorem Entry.noNewline (entry : Entry) : newline ∉ entry.body := by
  have commands : newline ∉ spaced entry.words := by
    intro member
    rcases mem_of_mem_spaced member with space | ⟨word, present, inside⟩
    · exact absurd space (by decide)
    · exact (entry.isWord word present).plain newline inside (by decide)
  cases entry with
  | remark text => simpa [Entry.body] using ⟨by decide, text.noNewline⟩
  | _ => exact commands

private theorem length_pid_le (pid : Int32) : (printed pid.toInt).length ≤ 11 := by
  have lower := pid.le_toInt
  have upper := pid.toInt_lt
  exact length_printed_le (by omega)

private theorem length_va_le (va : VAddr) : (printed va.toNat).length ≤ 11 := by
  have bound := va.toNat_lt
  exact length_printed_le (by omega)

private theorem length_val_le (val : Word) : (printed val.toNat).length ≤ 11 := by
  have bound := val.toNat_lt
  exact length_printed_le (by omega)

private theorem Entry.short (entry : Entry) : entry.body.length + 1 < bufferSize := by
  cases entry with
  | remark text =>
      have bound := text.short
      simp only [Entry.body, List.length_cons, bufferSize]
      omega
  | fork pid name =>
      have bound := name.short
      have number := length_pid_le pid
      simp only [Entry.body, Entry.words, spaced, List.length_append, List.length_cons,
        List.length_nil, bufferSize]
      omega
  | load pid va val =>
      have number := length_pid_le pid
      have address := length_va_le va
      have value := length_val_le val
      simp only [Entry.body, Entry.words, spaced, List.length_append, List.length_cons,
        List.length_nil, bufferSize]
      omega
  | store pid va val =>
      have number := length_pid_le pid
      have address := length_va_le va
      have value := length_val_le val
      simp only [Entry.body, Entry.words, spaced, List.length_append, List.length_cons,
        List.length_nil, bufferSize]
      omega

end Words

/-! ## Reading a line -/

section Reading

variable {first second third fourth : List UInt8}

theorem contents_spaced {words : List (List UInt8)} (noNul : ∀ word ∈ words, 0 ∉ word) :
    contents (spaced words ++ [newline]) = spaced words ++ [newline] := by
  refine contents_eq fun member => ?_
  rcases List.mem_append.mp member with inside | last
  · rcases mem_of_mem_spaced inside with space | ⟨word, present, nul⟩
    · exact absurd space (by decide)
    · exact noNul word present nul
  · exact absurd (List.mem_singleton.mp last) (by decide)

theorem strtok_last {word : List UInt8} (isWord : IsWord whitespace word) :
    strtok whitespace (spaced [word] ++ [newline]) = (some word, []) :=
  strtok_word isWord (by decide) []

private theorem fields_three (isWord : ∀ word ∈ [first, second, third], IsWord whitespace word)
    (noNul : ∀ word ∈ [first, second, third], 0 ∉ word) :
    fields (spaced [first, second, third] ++ [newline]) =
      { cmd := some first, arg1 := some second, arg2 := some third, arg3 := none } := by
  simp only [List.forall_mem_cons] at isWord
  rw [fields, contents_spaced noNul, strtok_spaced isWord.1 (by decide)]
  dsimp only
  rw [strtok_spaced isWord.2.1 (by decide)]
  dsimp only
  rw [strtok_last isWord.2.2.1]
  rfl

private theorem fields_four
    (isWord : ∀ word ∈ [first, second, third, fourth], IsWord whitespace word)
    (noNul : ∀ word ∈ [first, second, third, fourth], 0 ∉ word) :
    fields (spaced [first, second, third, fourth] ++ [newline]) =
      { cmd := some first, arg1 := some second, arg2 := some third, arg3 := some fourth } := by
  simp only [List.forall_mem_cons] at isWord
  rw [fields, contents_spaced noNul, strtok_spaced isWord.1 (by decide)]
  dsimp only
  rw [strtok_spaced isWord.2.1 (by decide)]
  dsimp only
  rw [strtok_spaced isWord.2.2.1 (by decide)]
  dsimp only
  rw [strtok_last isWord.2.2.2.1]

private theorem cmd_remark (text : Remark) :
    ∃ cmd, (fields (Entry.remark text).text).cmd = some cmd ∧ verb cmd = none := by
  refine ⟨'#'.toUInt8 :: (contents (text.bytes ++ [newline])).takeWhile (· ∉ whitespace), ?_, ?_⟩
  · rfl
  · rfl

theorem pidOf_printed (pid : Int32) : pidOf (printed pid.toInt) = pid.toUInt32 := by
  rw [pidOf, atoi_printed]

theorem atoi_printed_nat {number : Nat} (small : number < 2 ^ 31) :
    atoi (printed number) = .ofInt number := by
  rw [atoi, strtol_printed (by omega) (by omega)]

theorem addrOf_printed (va : VAddr) : addrOf (printed va.toNat) = va := by
  have bound := va.toNat_lt
  rw [addrOf, atoi_printed_nat (by omega), Int32.ofInt_eq_ofNat]
  simp

private theorem valOf_printed (val : Word) : valOf (printed val.toNat) = val := by
  have bound := val.toNat_lt
  have value : (Int32.ofInt val.toNat).toInt = val.toNat := by
    rw [Int32.toInt_ofInt]
    exact Int.bmod_eq_of_le (by omega) (by unfold Int32.size; omega)
  have small : Int32.ofInt val.toNat % 256 = Int32.ofInt val.toNat := by
    refine Int32.toInt_inj.mp ?_
    rw [Int32.toInt_mod, value]
    exact Int.tmod_eq_of_lt (Int.natCast_nonneg _) (by simpa using bound)
  rw [valOf, atoi_printed_nat (by omega), small, Int32.ofInt_eq_ofNat]
  simp

/-- What a line does to a state. -/
def Entry.perform (config : Config) (state : State) (entry : Entry) : Except Fault State :=
  match entry.command with
  | none => .ok state
  | some command => check ((simCommand config state command).map Prod.fst)

variable (config : Config) (state : State)

private theorem execute_fork (pid : Int32) (name : List UInt8) :
    execute config state { cmd := some ['@'.toUInt8], arg1 := some (printed pid.toInt)
                           arg2 := some name, arg3 := none } =
      check ((simCommand config state (.fork pid.toUInt32)).map Prod.fst) := by
  have which : verb ['@'.toUInt8] = some .fork := rfl
  simp only [execute, deref, Option.elim_some, bind, Except.bind, which, pidOf_printed, simCommand]
  split
  · cases procFork config state pid.toUInt32 <;> rfl
  · rfl

private theorem execute_load (pid : Int32) (va : VAddr) (val : List UInt8) :
    execute config state { cmd := some ['l'.toUInt8], arg1 := some (printed pid.toInt)
                           arg2 := some (printed va.toNat), arg3 := some val } =
      check ((simCommand config state (.load pid.toUInt32 va)).map Prod.fst) := by
  have which : verb ['l'.toUInt8] = some .load := rfl
  simp only [execute, deref, Option.elim_some, bind, Except.bind, which, pidOf_printed,
    addrOf_printed, announceSwitch_eq, simCommand]
  split
  · rfl
  · cases switchTo config state pid.toUInt32 with
    | none => rfl
    | some switched =>
        simp only [check, Option.elim_some, Option.bind_some]
        cases memLoad config switched va <;> rfl

private theorem execute_store (pid : Int32) (va : VAddr) (val : Word) :
    execute config state { cmd := some ['s'.toUInt8], arg1 := some (printed pid.toInt)
                           arg2 := some (printed va.toNat), arg3 := some (printed val.toNat) } =
      check ((simCommand config state (.store pid.toUInt32 va val)).map Prod.fst) := by
  have which : verb ['s'.toUInt8] = some .store := rfl
  simp only [execute, deref, Option.elim_some, bind, Except.bind, which, pidOf_printed,
    addrOf_printed, valOf_printed, announceSwitch_eq, simCommand]
  split
  · rfl
  · cases switchTo config state pid.toUInt32 with
    | none => rfl
    | some switched =>
        simp only [check, Option.elim_some, Option.bind_some]
        cases memStore config switched va val <;> rfl

/-- A line is read as the command that was written. -/
theorem readBuffer_text (entry : Entry) :
    readBuffer config state entry.text = entry.perform config state := by
  have isWord := entry.isWord
  have noNul := entry.noNul
  cases entry with
  | remark text =>
      obtain ⟨cmd, isCmd, ignored⟩ := cmd_remark text
      exact (Executed.ignored isCmd ignored).execute_eq
  | fork pid name =>
      have tokens : fields (Entry.fork pid name).text = _ := fields_three isWord noNul
      rw [readBuffer, tokens]
      exact execute_fork config state pid name.bytes
  | load pid va val =>
      have tokens : fields (Entry.load pid va val).text = _ := fields_four isWord noNul
      rw [readBuffer, tokens]
      exact execute_load config state pid va _
  | store pid va val =>
      have tokens : fields (Entry.store pid va val).text = _ := fields_four isWord noNul
      rw [readBuffer, tokens]
      exact execute_store config state pid va val

end Reading

/-! ## Reading a file -/

/-- The text of a references file. -/
def fileText (entries : List Entry) : List UInt8 := (entries.map Entry.text).flatten

section File

variable (config : Config) (state : State)

private theorem pieces_fileText (entries : List Entry) :
    pieces (fileText entries) = entries.map Entry.text := by
  induction entries with
  | nil => exact buffers_of_none _ rfl
  | cons entry entries ih =>
      have reads : fgets bufferSize (fileText (entry :: entries)) =
          some (entry.text, fileText entries) := by
        have line := fgets_line entry.noNewline entry.short (fileText entries)
        rwa [show fileText (entry :: entries) = entry.body ++ newline :: fileText entries by
          simp [fileText, Entry.text]]
      rw [pieces, buffers_of_some _ reads, List.map_cons, ← ih]
      rfl

private theorem run_cons (command : Command) (commands : List Command) :
    (run config state (command :: commands)).map Prod.fst =
      ((simCommand config state command).map Prod.fst).bind fun after =>
        (run config after commands).map Prod.fst := by
  rw [run]
  cases simCommand config state command with
  | none => rfl
  | some result =>
      obtain ⟨after, output⟩ := result
      simp only [bind, Option.bind_some, Option.map_some]
      cases run config after commands <;> rfl

/-- What is written in a references file is executed by `sim_readdata`: the commands, in their order
and with their arguments, whatever remarks stand between them. The reader stops at an assertion
exactly when a command does. -/
theorem simReaddata_fileText (entries : List Entry) :
    simReaddata config state (fileText entries) =
      check ((run config state (entries.filterMap Entry.command)).map Prod.fst) := by
  rw [simReaddata_eq, pieces_fileText]
  induction entries generalizing state with
  | nil => rfl
  | cons entry entries ih =>
      rw [List.map_cons, List.foldlM_cons, readBuffer_text, Entry.perform]
      cases isCommand : entry.command with
      | none =>
          rw [List.filterMap_cons_none isCommand]
          exact ih state
      | some command =>
          rw [List.filterMap_cons_some isCommand, run_cons]
          dsimp only
          cases (simCommand config state command).map Prod.fst with
          | none => rfl
          | some after => exact ih after

end File

end CS2200.VirtualMemory
