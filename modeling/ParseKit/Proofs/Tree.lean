/-
  Trees: their leaves, their shapes and their folds.

  The balanced tree over a list is shaped by the length of the list alone, so
  trees that are built apart over lists of one length have one shape.  A fold
  of an associative operation depends on the leaves of a tree alone.
-/
import ParseKit.Tree

set_option autoImplicit false

namespace ParseKit.Tree

variable {α β : Type}

/-! ## Shapes -/

/-- A tree with a function applied to every leaf. -/
def map (g : α → β) : Tree α → Tree β
  | .leaf value => .leaf (g value)
  | .node left right => .node (left.map g) (right.map g)

/-- A tree without its values. -/
def shape (t : Tree α) : Tree Unit := t.map fun _ => ()

theorem toList_map (g : α → β) (t : Tree α) : (t.map g).toList = t.toList.map g := by
  induction t with
  | leaf value => rfl
  | node left right ihl ihr => rw [map, toList, toList, ihl, ihr, List.map_append]

/-- A balanced tree is split with no regard to its values. -/
theorem balanced?_map (g : α → β) (values : List α) :
    balanced? (values.map g) = (balanced? values).map (map g) := by
  fun_induction balanced? values with
  | case1 => rw [List.map_nil, balanced?, Option.map_none]
  | case2 value => rw [List.map_cons, List.map_nil, balanced?, Option.map_some, map]
  | case3 a b more values half left right hright hleft ihl ihr =>
    rw [List.map_cons, List.map_cons, balanced?]
    simp only [← List.map_cons, List.length_map, ← List.map_take, ← List.map_drop]
    rw [ihl, ihr, hleft, hright]
    rfl
  | case4 a b more values half hnone ihl ihr =>
    rw [List.map_cons, List.map_cons, balanced?]
    simp only [← List.map_cons, List.length_map, ← List.map_take, ← List.map_drop]
    rw [ihl, ihr]
    split
    · rename_i hleft hright
      obtain ⟨left, hleft, -⟩ := Option.map_eq_some_iff.1 hleft
      obtain ⟨right, hright, -⟩ := Option.map_eq_some_iff.1 hright
      exact (hnone left right hleft hright).elim
    · rfl

/-- The balanced tree over as many units has the shape of the balanced tree over a list. -/
theorem balanced?_replicate (values : List α) :
    balanced? (List.replicate values.length ()) = (balanced? values).map shape := by
  rw [← List.map_const', balanced?_map]
  rfl

/-! ## Folds of an associative operation -/

variable {f : α → α → α} [Std.Associative f] {t : Tree α}

/-- Of an associative operation a tree is a fold of its leaves. -/
theorem fold_eq_foldl {first : α} {more : List α} (h : t.toList = first :: more) :
    t.fold f = more.foldl f first := by
  induction t generalizing first more with
  | leaf value =>
    cases h
    rfl
  | node left right ihl ihr =>
    obtain ⟨a, l, hleft⟩ := List.exists_cons_of_ne_nil left.toList_ne_nil
    obtain ⟨b, m, hright⟩ := List.exists_cons_of_ne_nil right.toList_ne_nil
    rw [toList, hleft, hright, List.cons_append] at h
    obtain ⟨rfl, rfl⟩ := List.cons.inj h
    rw [fold, ihl hleft, ihr hright, List.foldl_append, List.foldl_cons, List.foldl_assoc]

/-- The fold may begin at any leaf and go on from it to both sides. -/
theorem fold_eq_foldr {before after : List α} {a : α} (h : t.toList = before ++ a :: after) :
    t.fold f = before.foldr f (after.foldl f a) := by
  have hfrom : ∀ (l : List α) (b : α),
      (l ++ a :: after).foldl f b = f b (l.foldr f (after.foldl f a)) := by
    intro l
    induction l with
    | nil =>
      intro b
      exact List.foldl_assoc
    | cons c l ih =>
      intro b
      rw [List.cons_append, List.foldl_cons, List.foldl_assoc, ih c, List.foldr_cons]
  cases before with
  | nil => exact fold_eq_foldl h
  | cons b before => exact (fold_eq_foldl h).trans (hfrom before b)

end ParseKit.Tree
