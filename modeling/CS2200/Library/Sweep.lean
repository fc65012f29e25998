import Mathlib.Data.List.Basic

/-!
# Sweeps that begin at the first slot

A sweep looks at slots in their order and clears used bits until it finds a slot without one, which
it takes; if all slots are used it takes the first. The slot that it takes is used afterwards, and
the next sweep begins at the first slot again. From a table whose slots are all used, the first
three sweeps take the first slot, the second and the first again, and never look at a third slot
after the first sweep.
-/

namespace CS2200
namespace Sweep

variable {ν : Type*}

/-- One sweep. -/
structure Record (ν : Type*) where
  /-- The slot that it takes. -/
  taken : ν
  /-- The slots that it looks at. -/
  examined : List ν
  deriving DecidableEq, Repr

/-- The slots that a sweep looks at. -/
def examined (used : ν → Bool) : List ν → List ν
  | [] => []
  | slot :: slots => if used slot then slot :: examined used slots else [slot]

/-- The first slot without a used bit. -/
def stop (used : ν → Bool) (slots : List ν) : Option ν := slots.find? fun slot => !used slot

/-- A sweep over slots, of which `first` is taken if all are used. -/
def sweep (first : ν) (slots : List ν) (used : ν → Bool) : Record ν where
  taken := (stop used slots).getD first
  examined := examined used slots

/-- Whenever a slot is taken for the second time, every other slot was looked at in between. -/
def Circulates (slots : List ν) (records : List (Record ν)) : Prop :=
  ∀ earlier one between two later, records = earlier ++ one :: (between ++ two :: later) →
    one.taken = two.taken → (∀ record ∈ between, record.taken ≠ one.taken) →
      ∀ slot ∈ slots, slot ≠ one.taken → ∃ record ∈ between ++ [two], slot ∈ record.examined

variable [DecidableEq ν]

/-- The used bits after a sweep. -/
def after (first : ν) (slots : List ν) (used : ν → Bool) : ν → Bool := fun slot =>
  decide (slot = (sweep first slots used).taken) ||
    (used slot && decide (slot ∉ examined used slots))

/-- A number of sweeps one after the other. -/
def sweeps (first : ν) (slots : List ν) : Nat → (ν → Bool) → List (Record ν)
  | 0, _ => []
  | count + 1, used => sweep first slots used :: sweeps first slots count (after first slots used)

/-- The used bits after a number of sweeps. -/
def iterate (first : ν) (slots : List ν) : Nat → (ν → Bool) → ν → Bool
  | 0, used => used
  | count + 1, used => iterate first slots count (after first slots used)

section Basics

variable {first second : ν} {slots others : List ν} {used other : ν → Bool}

omit [DecidableEq ν] in
theorem examined_of_full (full : ∀ slot ∈ slots, used slot = true) : examined used slots = slots := by
  induction slots with
  | nil => rfl
  | cons slot slots ih =>
      rw [examined, if_pos (full slot List.mem_cons_self),
        ih fun later member => full later (List.mem_cons_of_mem slot member)]

omit [DecidableEq ν] in
theorem sweep_of_full (full : ∀ slot ∈ slots, used slot = true) :
    sweep first slots used = { taken := first, examined := slots } := by
  have none : stop used slots = none :=
    List.find?_eq_none.mpr fun slot member => by simp [full slot member]
  rw [sweep, none, examined_of_full full, Option.getD_none]

omit [DecidableEq ν] in
theorem sweep_of_unused (free : used first = false) :
    sweep first (first :: others) used = { taken := first, examined := [first] } := by
  simp [sweep, stop, examined, free]

omit [DecidableEq ν] in
theorem sweep_of_second (usedFirst : used first = true) (free : used second = false) :
    sweep first (first :: second :: others) used =
      { taken := second, examined := [first, second] } := by
  simp [sweep, stop, examined, usedFirst, free]

private theorem after_taken : after first slots used (sweep first slots used).taken = true := by
  simp [after]

theorem sweeps_succ (first : ν) (slots : List ν) (count : Nat) (used : ν → Bool) :
    sweeps first slots (count + 1) used =
      sweeps first slots count used ++ [sweep first slots (iterate first slots count used)] := by
  induction count generalizing used with
  | zero => rfl
  | succ count ih =>
      rw [sweeps, ih]
      rfl

theorem iterate_succ (first : ν) (slots : List ν) (count : Nat) (used : ν → Bool) :
    iterate first slots (count + 1) used =
      after first slots (iterate first slots count used) := by
  induction count generalizing used with
  | zero => rfl
  | succ count ih => exact ih _

omit [DecidableEq ν] in
theorem examined_congr (agree : ∀ slot ∈ slots, used slot = other slot) :
    examined used slots = examined other slots := by
  induction slots with
  | nil => rfl
  | cons slot slots ih =>
      rw [examined, examined, agree slot List.mem_cons_self,
        ih fun later member => agree later (List.mem_cons_of_mem slot member)]

omit [DecidableEq ν] in
theorem stop_congr (agree : ∀ slot ∈ slots, used slot = other slot) :
    stop used slots = stop other slots := by
  unfold stop
  induction slots with
  | nil => rfl
  | cons slot slots ih =>
      rw [List.find?_cons, List.find?_cons, agree slot List.mem_cons_self,
        ih fun later member => agree later (List.mem_cons_of_mem slot member)]

omit [DecidableEq ν] in
/-- A sweep depends on the used bits of its slots only. -/
theorem sweep_congr (agree : ∀ slot ∈ slots, used slot = other slot) :
    sweep first slots used = sweep first slots other := by
  rw [sweep, sweep, stop_congr agree, examined_congr agree]

theorem length_sweeps (first : ν) (slots : List ν) (count : Nat) (used : ν → Bool) :
    (sweeps first slots count used).length = count := by
  induction count generalizing used with
  | zero => rfl
  | succ count ih => rw [sweeps, List.length_cons, ih]

/-- What follows some of the sweeps is a number of sweeps again. -/
theorem sweeps_eq_append {count : Nat} {earlier rest : List (Record ν)}
    (split : sweeps first slots count used = earlier ++ rest) :
    ∃ number bits, rest = sweeps first slots number bits := by
  induction earlier generalizing count used with
  | nil => exact ⟨count, used, split.symm⟩
  | cons record earlier ih =>
      cases count with
      | zero => cases split
      | succ count => exact ih (List.cons.inj split).2

theorem mem_sweeps {count : Nat} {record : Record ν}
    (member : record ∈ sweeps first slots count used) :
    ∃ bits, record = sweep first slots bits := by
  obtain ⟨earlier, later, split⟩ := List.append_of_mem member
  obtain ⟨number, bits, same⟩ := sweeps_eq_append split
  cases number with
  | zero => cases same
  | succ number => exact ⟨bits, (List.cons.inj same).1⟩

omit [DecidableEq ν] in
/-- With two slots, the second is taken only after a look at the first, and looked at after the
first was used. -/
theorem sweep_of_two (first second : ν) (used : ν → Bool) :
    (sweep first [first, second] used = { taken := first, examined := [first] } ∧
        used first = false) ∨
      (sweep first [first, second] used).examined = [first, second] ∧
        ((sweep first [first, second] used).taken = first ∨
          (sweep first [first, second] used).taken = second) := by
  cases usedFirst : used first with
  | false => exact .inl ⟨sweep_of_unused usedFirst, rfl⟩
  | true =>
      cases usedSecond : used second with
      | false =>
          rw [sweep_of_second usedFirst usedSecond]
          exact .inr ⟨rfl, .inr rfl⟩
      | true =>
          rw [sweep_of_full (by simp [usedFirst, usedSecond])]
          exact .inr ⟨rfl, .inl rfl⟩

end Basics

section Circulation

variable {first : ν} {others : List ν} {used : ν → Bool}

theorem sweeps_of_full {second : ν} (nodup : (first :: second :: others).Nodup)
    (full : ∀ slot ∈ first :: second :: others, used slot = true) (count : Nat) :
    ∃ bits, sweeps first (first :: second :: others) (count + 2) used =
      { taken := first, examined := first :: second :: others } ::
        { taken := second, examined := [first, second] } ::
          sweeps first (first :: second :: others) count bits ∧ bits first = false := by
  have different : first ≠ second := fun same => by simp [same] at nodup
  have afterFirst : ∀ slot ∈ first :: second :: others,
      after first (first :: second :: others) used slot = decide (slot = first) := by
    intro slot member
    rw [after, sweep_of_full full, examined_of_full full]
    simp only [member, not_true_eq_false, decide_false, Bool.and_false, Bool.or_false]
  have secondSweep : sweep first (first :: second :: others)
      (after first (first :: second :: others) used) =
        { taken := second, examined := [first, second] } := by
    refine sweep_of_second ?_ ?_
    · rw [afterFirst first List.mem_cons_self, decide_eq_true rfl]
    · rw [afterFirst second (List.mem_cons_of_mem _ List.mem_cons_self),
        decide_eq_false different.symm]
  refine ⟨_, by rw [sweeps, sweeps, secondSweep, sweep_of_full full], ?_⟩
  have looked := congrArg Record.examined secondSweep
  have examinedFirst : first ∈ examined (after first (first :: second :: others) used)
      (first :: second :: others) := by
    change first ∈ (sweep first (first :: second :: others)
      (after first (first :: second :: others) used)).examined
    rw [looked]
    exact List.mem_cons_self
  rw [after, secondSweep]
  simp [different, examinedFirst]

private theorem circulates_singleton (first : ν) (count : Nat) (used : ν → Bool) :
    Circulates [first] (sweeps first [first] count used) := by
  intro earlier one between two later split _ _ slot member distinct
  obtain ⟨bits, rfl⟩ := mem_sweeps (split ▸ List.mem_append_right earlier List.mem_cons_self)
  obtain rfl : slot = first := List.mem_singleton.mp member
  refine absurd ?_ distinct
  cases free : bits slot <;> simp [sweep, stop, free]

/-- Of two slots, the first is cleared before it is taken again, and the second is looked at then;
the second is taken after a look at the first. -/
theorem circulates_pair (first second : ν) (count : Nat) (used : ν → Bool) :
    Circulates [first, second] (sweeps first [first, second] count used) := by
  intro earlier one between two later split same fresh slot member distinct
  obtain ⟨number, bits, rest⟩ := sweeps_eq_append split
  have isSweep : ∀ record ∈ between ++ [two],
      ∃ bits, record = sweep first [first, second] bits := by
    intro record inside
    refine mem_sweeps (split ▸ List.mem_append_right earlier (List.mem_cons_of_mem one ?_))
    rcases List.mem_append.mp inside with inside | inside
    · exact List.mem_append_left _ inside
    · exact List.mem_append_right _ (List.mem_singleton.mp inside ▸ List.mem_cons_self)
  by_cases takesFirst : one.taken = first
  · rw [takesFirst] at distinct fresh same
    obtain rfl : slot = second := by simpa [distinct] using member
    cases between with
    | nil =>
        cases number with
        | zero => cases rest
        | succ number =>
            obtain ⟨rfl, next⟩ := List.cons.inj rest
            cases number with
            | zero => cases next
            | succ number =>
                obtain ⟨rfl, -⟩ := List.cons.inj next
                have bit := @after_taken ν _ first [first, slot] bits
                rw [takesFirst] at bit
                rcases sweep_of_two first slot (after first [first, slot] bits) with
                  ⟨-, free⟩ | ⟨looked, -⟩
                · cases bit.symm.trans free
                · exact ⟨_, List.mem_cons_self, by simp [looked]⟩
    | cons record between =>
        obtain ⟨recordBits, rfl⟩ := isSweep record List.mem_cons_self
        rcases sweep_of_two first slot recordBits with ⟨record, -⟩ | ⟨looked, -⟩
        · exact absurd (by rw [record]) (fresh _ List.mem_cons_self)
        · exact ⟨_, List.mem_cons_self, by simp [looked]⟩
  · obtain ⟨twoBits, rfl⟩ := isSweep two (List.mem_append_right _ List.mem_cons_self)
    rcases sweep_of_two first second twoBits with ⟨record, -⟩ | ⟨looked, -⟩
    · rw [record] at same
      exact absurd same takesFirst
    · exact ⟨_, List.mem_append_right _ List.mem_cons_self, by rwa [looked]⟩

/-- The third sweep over at least three slots takes the first one again, without a look at the
third in between. -/
theorem not_circulates {second third : ν} (nodup : (first :: second :: third :: others).Nodup)
    (full : ∀ slot ∈ first :: second :: third :: others, used slot = true) (count : Nat) :
    ¬ Circulates (first :: second :: third :: others)
      (sweeps first (first :: second :: third :: others) (count + 3) used) := by
  intro circulates
  obtain ⟨bits, split, free⟩ := sweeps_of_full nodup full (count + 1)
  rw [split, sweeps, sweep_of_unused free] at circulates
  have thirdFirst : third ≠ first := by
    rintro rfl
    simp at nodup
  have thirdSecond : third ≠ second := by
    rintro rfl
    simp at nodup
  have secondFirst : second ≠ first := by
    rintro rfl
    simp at nodup
  obtain ⟨record, member, looked⟩ := circulates [] _ [_] _ _ rfl rfl
    (by simpa using secondFirst) third (by simp) thirdFirst
  rcases List.mem_cons.mp member with rfl | member
  · simp [thirdFirst, thirdSecond] at looked
  · obtain rfl := List.mem_singleton.mp member
    simp [thirdFirst] at looked

private theorem circulates_two {second : ν} (nodup : (first :: second :: others).Nodup)
    (full : ∀ slot ∈ first :: second :: others, used slot = true) {count : Nat} (few : count ≤ 2) :
    Circulates (first :: second :: others)
      (sweeps first (first :: second :: others) count used) := by
  intro earlier one between two later split same
  have length := congrArg List.length split
  simp only [length_sweeps, List.length_append, List.length_cons] at length
  obtain rfl : count = 0 + 2 := by omega
  obtain rfl : earlier = [] := List.eq_nil_of_length_eq_zero (by omega)
  obtain rfl : between = [] := List.eq_nil_of_length_eq_zero (by omega)
  obtain ⟨bits, records, -⟩ := sweeps_of_full nodup full 0
  rw [records] at split
  obtain ⟨rfl, next⟩ := List.cons.inj split
  obtain ⟨rfl, -⟩ := List.cons.inj next
  have taken : first = second := same
  exact absurd nodup (by simp [taken])

/-- From a table whose slots are all used, sweeps circulate exactly when there are at most two slots
or at most two sweeps. -/
theorem circulates_iff (nodup : (first :: others).Nodup)
    (full : ∀ slot ∈ first :: others, used slot = true) (count : Nat) :
    Circulates (first :: others) (sweeps first (first :: others) count used) ↔
      (first :: others).length ≤ 2 ∨ count ≤ 2 := by
  cases others with
  | nil => exact iff_of_true (circulates_singleton first count used) (.inl (by simp))
  | cons second others =>
      cases others with
      | nil => exact iff_of_true (circulates_pair first second count used) (.inl (by simp))
      | cons third others =>
          constructor
          · intro circulates
            refine .inr (Nat.not_lt.mp fun many => ?_)
            obtain ⟨count, rfl⟩ := Nat.exists_eq_add_of_lt many
            rw [show 2 + count + 1 = count + 3 by omega] at circulates
            exact not_circulates nodup full count circulates
          · rintro (short | few)
            · simp at short
            · exact circulates_two nodup full few

end Circulation

end Sweep
end CS2200
