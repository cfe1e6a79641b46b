/-
  Binary trees with values at the leaves.

  Sequences and choices of many parsers are built from combinators of two.
  The balanced tree over a list says how they are nested.
-/

set_option autoImplicit false

namespace ParseKit

/-- A nonempty binary tree. -/
inductive Tree (α : Type)
  | leaf (value : α)
  | node (left right : Tree α)
  deriving DecidableEq, Repr

namespace Tree

variable {α : Type}

/-- The values from left to right. -/
def toList : Tree α → List α
  | .leaf value => [value]
  | .node left right => left.toList ++ right.toList

/-- Combines the values of every node into one. -/
def fold (combine : α → α → α) : Tree α → α
  | .leaf value => value
  | .node left right => combine (left.fold combine) (right.fold combine)

/-- The tree that splits its values in half at every node, the shorter half on the left; an
empty list has no tree.  Parsers are nested so, and the values of a tuple are taken out of the
nested pairs they come in along the tree of a list as long. -/
def balanced? : List α → Option (Tree α)
  | [] => none
  | [value] => some (.leaf value)
  | a :: b :: more =>
    let values := a :: b :: more
    let half := values.length / 2
    match balanced? (values.take half), balanced? (values.drop half) with
    | some left, some right => some (.node left right)
    | _, _ => none
termination_by values => values.length
decreasing_by
  all_goals simp only [List.length_take, List.length_drop, List.length_cons]; omega

theorem toList_ne_nil (t : Tree α) : t.toList ≠ [] := by
  induction t with
  | leaf value => simp [toList]
  | node left right ihl _ => simp [toList, ihl]

/-- The balanced tree holds the values in their order. -/
theorem toList_of_balanced? {values : List α} {t : Tree α} (h : balanced? values = some t) :
    t.toList = values := by
  fun_induction balanced? values generalizing t with
  | case1 => cases h
  | case2 value =>
    cases h
    rfl
  | case3 =>
    rename_i hright hleft ihl ihr
    cases h
    rw [toList, ihl hleft, ihr hright, List.take_append_drop]
  | case4 => cases h

/-- Every list but the empty one has a balanced tree. -/
theorem balanced?_isSome {values : List α} (h : values ≠ []) : (balanced? values).isSome := by
  fun_induction balanced? values with
  | case1 => exact absurd rfl h
  | case2 => rfl
  | case3 => rfl
  | case4 a b more values half hnone ihl ihr =>
    have hleft : (values.take half) ≠ [] := by
      refine List.ne_nil_of_length_pos ?_
      simp only [half, values, List.length_take, List.length_cons]
      omega
    have hright : (values.drop half) ≠ [] := by
      refine List.ne_nil_of_length_pos ?_
      simp only [half, values, List.length_drop, List.length_cons]
      omega
    obtain ⟨left, hl⟩ := Option.isSome_iff_exists.1 (ihl hleft)
    obtain ⟨right, hr⟩ := Option.isSome_iff_exists.1 (ihr hright)
    exact absurd hr (hnone left right hl)

end Tree

end ParseKit
