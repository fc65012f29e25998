import Mathlib.Data.List.Basic
import Mathlib.Logic.Function.Basic

/-!
# Lists as finite maps

Items with keys are saved at the head of a list and restored by unlinking the first item with a
given key. As long as an item is saved only when no item with its key is pending, the list is a
finite map: it holds under every key the item that was saved last and not restored since.
-/

namespace CS2200

theorem find?_eraseP_of_disjoint {α : Type*} {sought erased : α → Bool} (list : List α)
    (disjoint : ∀ x, sought x = true → erased x = false) :
    (list.eraseP erased).find? sought = list.find? sought := by
  induction list with
  | nil => rfl
  | cons head tail ih =>
      cases gone : erased head with
      | true =>
          have skipped : sought head = false := by
            by_contra found
            simp [disjoint head (by simpa using found)] at gone
          simp [gone, skipped]
      | false => simp [gone, List.find?_cons, ih]

theorem eraseP_eq_filter {α : Type*} {erased : α → Bool} {list : List α}
    (unique : list.Pairwise fun first second => ¬(erased first = true ∧ erased second = true)) :
    list.eraseP erased = list.filter fun x => !erased x := by
  induction list with
  | nil => rfl
  | cons head tail ih =>
      obtain ⟨others, unique⟩ := List.pairwise_cons.mp unique
      cases gone : erased head with
      | true =>
          have kept : ∀ x ∈ tail, (!erased x) = true := fun x member => by
            simpa [gone] using others x member
          rw [List.eraseP_cons_of_pos gone, List.filter_cons_of_neg (by simp [gone]),
            List.filter_eq_self.mpr kept]
      | false =>
          rw [List.eraseP_cons_of_neg (by simp [gone]), List.filter_cons_of_pos (by simp [gone]),
            ih unique]

theorem not_of_mem_eraseP {α : Type*} {erased : α → Bool} {list : List α} {x : α}
    (unique : list.Pairwise fun first second => ¬(erased first = true ∧ erased second = true))
    (member : x ∈ list.eraseP erased) : erased x = false := by
  rw [eraseP_eq_filter unique] at member
  simpa using (List.mem_filter.mp member).2

namespace Ledger

/-- What happens to a list of items with keys. -/
inductive Event (α κ : Type*) where
  /-- Save an item. -/
  | save (item : α)
  /-- Restore the item with a key, if there is one. -/
  | restore (sought : κ)
  deriving DecidableEq

variable {α κ : Type*} [DecidableEq κ] (key : α → κ)

/-- Items are saved at the head and unlinked at the first match. -/
def apply (items : List α) : Event α κ → List α
  | .save item => item :: items
  | .restore sought => items.eraseP fun item => key item = sought

/-- The list that a log leaves. -/
def replay (log : List (Event α κ)) : List α := log.foldl (apply key) []

/-- The abstract map. -/
def record (found : κ → Option α) : Event α κ → κ → Option α
  | .save item => Function.update found (key item) (some item)
  | .restore sought => Function.update found sought none

/-- For every key the item that a log saved last and did not restore since. -/
def pending (log : List (Event α κ)) : κ → Option α := log.foldl (record key) fun _ => none

/-- An item is saved only when no item with its key is pending. -/
def Event.Fits (found : κ → Option α) : Event α κ → Prop
  | .save item => found (key item) = none
  | .restore _ => True

/-- A list holds the items of a map, each once. -/
structure Represents (items : List α) (found : κ → Option α) : Prop where
  /-- No two items have the same key. -/
  unique : items.Pairwise fun first second => key first ≠ key second
  /-- The first item with a key is the one of the map. -/
  find : ∀ sought, items.find? (fun item => key item = sought) = found sought

theorem replay_append (log more : List (Event α κ)) :
    replay key (log ++ more) = more.foldl (apply key) (replay key log) := by
  simp [replay, List.foldl_append]

theorem pending_append (log more : List (Event α κ)) :
    pending key (log ++ more) = more.foldl (record key) (pending key log) := by
  simp [pending, List.foldl_append]

namespace Represents

variable {key} {items : List α} {found : κ → Option α}

theorem nil : Represents key ([] : List α) (fun _ => none) where
  unique := List.Pairwise.nil
  find _ := rfl

/-- At most one item can be restored. -/
theorem restorable (represents : Represents key items found) (sought : κ) :
    items.Pairwise fun first second =>
      ¬(decide (key first = sought) = true ∧ decide (key second = sought) = true) :=
  represents.unique.imp fun different both =>
    different ((of_decide_eq_true both.1).trans (of_decide_eq_true both.2).symm)

theorem apply_restore (represents : Represents key items found) (sought : κ) :
    apply key items (.restore sought) = items.filter fun item => !decide (key item = sought) :=
  eraseP_eq_filter (represents.restorable sought)

/-- Every event that fits is performed by the list as by the map. -/
theorem apply (represents : Represents key items found) (event : Event α κ)
    (fits : event.Fits key found) :
    Represents key (apply key items event) (record key found event) := by
  cases event with
  | save item =>
      have missing : items.find? (fun other => key other = key item) = none :=
        (represents.find _).trans fits
      refine ⟨List.pairwise_cons.mpr ⟨fun other member same => ?_, represents.unique⟩,
        fun sought => ?_⟩
      · simpa [same] using List.find?_eq_none.mp missing other member
      · by_cases here : sought = key item
        · simp [Ledger.apply, record, here]
        · simp [Ledger.apply, record, Function.update_of_ne here, Ne.symm here, represents.find]
  | restore sought =>
      refine ⟨represents.unique.sublist List.eraseP_sublist, fun other => ?_⟩
      by_cases here : other = sought
      · subst here
        rw [represents.apply_restore, record, Function.update_self]
        simp [List.find?_eq_none]
      · rw [record, Function.update_of_ne here, ← represents.find]
        refine find?_eraseP_of_disjoint items fun item holds => ?_
        simpa [of_decide_eq_true holds] using here

end Represents

end Ledger

end CS2200
