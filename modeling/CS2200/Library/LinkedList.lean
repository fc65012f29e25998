import Mathlib.Data.List.Basic
import Mathlib.Logic.Function.Basic
import Mathlib.Logic.Relation

/-!
# Linked lists in a heap

A heap gives every node an optional successor. `IsList` says which nodes are reached from a head,
and the loops that walk along the successors are bounded by a number of steps, so that a cyclic
heap gives no result instead of none ever.
-/

namespace CS2200
namespace LinkedList

variable {ν β : Type*}

/-- Following `next` from `head` visits `nodes` in this order and ends. -/
def IsList (next : ν → Option ν) : Option ν → List ν → Prop
  | head, [] => head = none
  | head, node :: nodes => head = some node ∧ IsList next (next node) nodes

/-- Following `next` from `head` visits `node`. -/
def Reaches (next : ν → Option ν) (head : Option ν) (node : ν) : Prop :=
  ∃ first, head = some first ∧ Relation.ReflTransGen (fun a b => next a = some b) first node

/-! ## Walking along a list -/

/-- The loop `while (node->next != NULL) node = node->next`. -/
def lastFrom (next : ν → Option ν) : Nat → ν → Option ν
  | 0, _ => none
  | steps + 1, node =>
      match next node with
      | none => some node
      | some successor => lastFrom next steps successor

/-- The loop `while (node->next != target) node = node->next`. -/
def predecessorFrom [DecidableEq ν] (next : ν → Option ν) (target : ν) : Nat → ν → Option ν
  | 0, _ => none
  | steps + 1, node =>
      match next node with
      | none => none
      | some successor =>
          if successor = target then some node else predecessorFrom next target steps successor

/-- The loop `while (node != NULL) { ...; node = node->next; }` over an accumulator. -/
def foldFrom (next : ν → Option ν) (body : β → ν → β) : Nat → Option ν → β → Option β
  | _, none, result => some result
  | 0, some _, _ => none
  | steps + 1, some node, result => foldFrom next body steps (next node) (body result node)

namespace IsList

variable {next other : ν → Option ν} {head : Option ν} {nodes : List ν}

theorem head_eq_none_iff (list : IsList next head nodes) : head = none ↔ nodes = [] := by
  cases nodes with
  | nil => simpa [IsList] using list
  | cons node nodes => simp [list.1]

/-- The nodes of a list are determined by the heap and the head. -/
theorem unique {first second : List ν} (firstList : IsList next head first)
    (secondList : IsList next head second) : first = second := by
  induction first generalizing head second with
  | nil => exact (secondList.head_eq_none_iff.mp firstList).symm
  | cons node nodes ih =>
      cases second with
      | nil =>
          have empty : head = none := secondList
          rw [firstList.1] at empty
          cases empty
      | cons otherNode otherNodes =>
          obtain rfl := Option.some.inj (firstList.1.symm.trans secondList.1)
          rw [ih firstList.2 secondList.2]

private theorem suffix {earlier later : List ν} {node : ν}
    (list : IsList next head (earlier ++ node :: later)) :
    IsList next (some node) (node :: later) := by
  induction earlier generalizing head with
  | nil => exact ⟨rfl, list.2⟩
  | cons _ earlier ih => exact ih list.2

theorem nodup (list : IsList next head nodes) : nodes.Nodup := by
  induction nodes generalizing head with
  | nil => exact List.nodup_nil
  | cons node nodes ih =>
      refine List.nodup_cons.mpr ⟨fun member => ?_, ih list.2⟩
      obtain ⟨earlier, later, split⟩ := List.append_of_mem member
      have again : IsList next (some node) (node :: later) := suffix (split ▸ list.2)
      have whole : IsList next (some node) (node :: nodes) := ⟨rfl, list.2⟩
      have length := congrArg List.length (whole.unique again)
      simp [split] at length
      omega

/-- The nodes of a list are those that are reached from its head. -/
theorem reaches_iff (list : IsList next head nodes) {node : ν} :
    Reaches next head node ↔ node ∈ nodes := by
  constructor
  · rintro ⟨first, rfl, path⟩
    induction path using Relation.ReflTransGen.head_induction_on generalizing nodes with
    | refl =>
        cases nodes with
        | nil => cases list
        | cons start nodes => simp [Option.some.inj list.1]
    | head link _ ih =>
        cases nodes with
        | nil => cases list
        | cons start nodes =>
            obtain rfl := Option.some.inj list.1
            have rest := list.2
            rw [link] at rest
            exact List.mem_cons_of_mem _ (ih rest)
  · intro member
    induction nodes generalizing head with
    | nil => cases member
    | cons start nodes ih =>
        rcases List.mem_cons.mp member with rfl | member
        · exact ⟨node, list.1, .refl⟩
        · obtain ⟨second, link, path⟩ := ih list.2 member
          exact ⟨start, list.1, .head link path⟩

private theorem congr (list : IsList next head nodes)
    (agree : ∀ node ∈ nodes, other node = next node) : IsList other head nodes := by
  induction nodes generalizing head with
  | nil => exact list
  | cons node nodes ih =>
      refine ⟨list.1, ?_⟩
      rw [agree node List.mem_cons_self]
      exact ih list.2 fun later member => agree later (List.mem_cons_of_mem node member)

section Update

variable [DecidableEq ν]

theorem update_of_notMem (list : IsList next head nodes) {node : ν} (outside : node ∉ nodes)
    (successor : Option ν) : IsList (Function.update next node successor) head nodes :=
  list.congr fun _ member => Function.update_of_ne (ne_of_mem_of_not_mem member outside) _ _

/-- Linking a node without successor to the last node appends it. -/
theorem snoc {earlier : List ν} {last node : ν} (list : IsList next head (earlier ++ [last]))
    (outside : node ∉ earlier ++ [last]) (ends : next node = none) :
    IsList (Function.update next last (some node)) head (earlier ++ [last, node]) := by
  induction earlier generalizing head with
  | nil =>
      have different : node ≠ last := fun same => outside (by simp [same])
      exact ⟨list.1, by simp, by simp [IsList, Function.update_of_ne different, ends]⟩
  | cons first earlier ih =>
      have different : first ≠ last := by
        rintro rfl
        exact (List.nodup_cons.mp list.nodup).1 (by simp)
      refine ⟨list.1, ?_⟩
      rw [Function.update_of_ne different]
      exact ih list.2 fun member => outside (List.mem_cons_of_mem first member)

/-- Linking past a node removes it. -/
theorem unlink {earlier later : List ν} {previous node : ν}
    (list : IsList next head (earlier ++ previous :: node :: later)) :
    IsList (Function.update next previous (next node)) head (earlier ++ previous :: later) := by
  induction earlier generalizing head with
  | nil =>
      obtain ⟨distinct, -⟩ := List.nodup_cons.mp list.nodup
      refine ⟨list.1, ?_⟩
      rw [Function.update_self]
      exact list.2.2.update_of_notMem (fun member => distinct (by simp [member])) _
  | cons first earlier ih =>
      have different : first ≠ previous := by
        rintro rfl
        exact (List.nodup_cons.mp list.nodup).1 (by simp)
      refine ⟨list.1, ?_⟩
      rw [Function.update_of_ne different]
      exact ih list.2

theorem unlink_erase {earlier later : List ν} {previous node : ν}
    (list : IsList next head (earlier ++ previous :: node :: later)) :
    IsList (Function.update next previous (next node)) head
      ((earlier ++ previous :: node :: later).erase node) := by
  have outside : node ∉ earlier ++ [previous] := by
    intro inside
    have nodup : ((earlier ++ [previous]) ++ node :: later).Nodup := by simpa using list.nodup
    exact (List.nodup_append.mp nodup).2.2 node inside node List.mem_cons_self rfl
  have erased : (earlier ++ previous :: node :: later).erase node =
      earlier ++ previous :: later := by
    simpa using List.erase_append_right (node :: later) outside
  rw [erased]
  exact list.unlink

end Update

/-! ## The results of the loops -/

theorem lastFrom_eq {earlier : List ν} {node last : ν} {steps : Nat}
    (list : IsList next (some node) (earlier ++ [last])) (enough : earlier.length < steps) :
    lastFrom next steps node = some last := by
  induction earlier generalizing node steps with
  | nil =>
      obtain ⟨steps, rfl⟩ := Nat.exists_eq_succ_of_ne_zero (Nat.ne_of_gt enough)
      obtain rfl := Option.some.inj list.1
      have ends : next node = none := list.2
      simp [lastFrom, ends]
  | cons first earlier ih =>
      obtain ⟨steps, rfl⟩ := Nat.exists_eq_succ_of_ne_zero (Nat.ne_of_gt (Nat.zero_lt_of_lt enough))
      obtain rfl := Option.some.inj list.1
      cases successor : next node with
      | none =>
          have rest := list.2
          rw [successor] at rest
          simpa using rest.head_eq_none_iff.mp rfl
      | some following =>
          have rest := list.2
          rw [successor] at rest
          simpa [lastFrom, successor] using ih rest (by simpa using enough)

/-- The second loop stops before the target. -/
theorem predecessorFrom_eq [DecidableEq ν] {earlier later : List ν} {node previous target : ν}
    {steps : Nat} (list : IsList next (some node) (earlier ++ previous :: target :: later))
    (enough : earlier.length < steps) :
    predecessorFrom next target steps node = some previous := by
  induction earlier generalizing node steps with
  | nil =>
      obtain ⟨steps, rfl⟩ := Nat.exists_eq_succ_of_ne_zero (Nat.ne_of_gt enough)
      obtain rfl := Option.some.inj list.1
      simp [predecessorFrom, list.2.1]
  | cons first earlier ih =>
      obtain ⟨steps, rfl⟩ := Nat.exists_eq_succ_of_ne_zero (Nat.ne_of_gt (Nat.zero_lt_of_lt enough))
      obtain rfl := Option.some.inj list.1
      have rest := list.2
      cases successor : next node with
      | none =>
          rw [successor] at rest
          simpa using rest.head_eq_none_iff.mp rfl
      | some following =>
          rw [successor] at rest
          have different : following ≠ target := by
            have distinct := rest.nodup
            cases earlier with
            | nil =>
                obtain rfl := Option.some.inj rest.1
                simp at distinct
                exact distinct.1.1
            | cons second earlier =>
                obtain rfl := Option.some.inj rest.1
                simp at distinct
                exact distinct.1.2.2.1
          simpa [predecessorFrom, successor, different] using ih rest (by simpa using enough)

theorem of_predecessorFrom [DecidableEq ν] {node previous target : ν} {steps : Nat}
    (list : IsList next (some node) nodes)
    (stops : predecessorFrom next target steps node = some previous) :
    ∃ earlier later, nodes = earlier ++ previous :: target :: later := by
  induction steps generalizing node nodes with
  | zero => cases stops
  | succ steps ih =>
      cases nodes with
      | nil => cases list
      | cons start nodes =>
          obtain rfl := Option.some.inj list.1
          have rest := list.2
          cases successor : next node with
          | none => simp [predecessorFrom, successor] at stops
          | some following =>
              rw [successor] at rest
              by_cases found : following = target
              · subst found
                obtain rfl : node = previous := by
                  simpa [predecessorFrom, successor] using stops
                cases nodes with
                | nil => cases rest
                | cons second nodes =>
                    obtain rfl := Option.some.inj rest.1
                    exact ⟨[], nodes, rfl⟩
              · obtain ⟨earlier, later, split⟩ := ih rest
                  (by simpa [predecessorFrom, successor, found] using stops)
                exact ⟨node :: earlier, later, by rw [split, List.cons_append]⟩

theorem foldFrom_eq (list : IsList next head nodes) (body : β → ν → β) (result : β) {steps : Nat}
    (enough : nodes.length ≤ steps) :
    foldFrom next body steps head result = some (nodes.foldl body result) := by
  induction nodes generalizing head result steps with
  | nil =>
      obtain rfl : head = none := list
      cases steps <;> rfl
  | cons node nodes ih =>
      obtain ⟨steps, rfl⟩ := Nat.exists_eq_succ_of_ne_zero (Nat.ne_of_gt (Nat.zero_lt_of_lt enough))
      obtain rfl := list.1
      exact ih list.2 _ (Nat.le_of_succ_le_succ enough)

end IsList

/-- A node that is linked to where the first loop stops is reached. -/
theorem reaches_of_lastFrom [DecidableEq ν] {next : ν → Option ν} {node last new : ν} {steps : Nat}
    (walk : lastFrom next steps node = some last) :
    Reaches (Function.update next last (some new)) (some node) new := by
  induction steps generalizing node with
  | zero => cases walk
  | succ steps ih =>
      by_cases atEnd : node = last
      · subst atEnd
        exact ⟨node, rfl, .single (Function.update_self _ _ _)⟩
      · cases successor : next node with
        | none => simp [lastFrom, successor, atEnd] at walk
        | some following =>
            obtain ⟨first, same, path⟩ := ih (by simpa [lastFrom, successor] using walk)
            obtain rfl := Option.some.inj same
            refine ⟨node, rfl, .head ?_ path⟩
            rwa [Function.update_of_ne atEnd]

end LinkedList
end CS2200
