/-
  Sequences whatever the tree.

  A sequence of many parsers is built from pairs, and its tree may have any
  shape.  The parsers may have values of different types, so a tree of pairs
  has nested values; read from left to right they are what the parsers give
  in turn, each on the remainder of the one before it.  The first parser that
  does not succeed gives the reply, and none behind it is applied.
-/
import ParseKit.Expr.Eval
import ParseKit.Proofs.Parser.Run
import ParseKit.Proofs.Tree

set_option autoImplicit false

namespace ParseKit

/-! ## Nested values -/

namespace Tree

variable {κ : Type} {A : κ → Type}

/-- The values of a tree of pairs, nested as the tree is; a leaf has a value of a type of its
own. -/
def Nested (A : κ → Type) : Tree κ → Type
  | .leaf k => A k
  | .node left right => Nested A left × Nested A right

/-- Nested values from left to right, each with the leaf it is of. -/
def flat : (t : Tree κ) → t.Nested A → List (Σ k, A k)
  | .leaf k, value => [⟨k, value⟩]
  | .node left right, both => left.flat both.1 ++ right.flat both.2

theorem length_flat (t : Tree κ) (values : t.Nested A) :
    (t.flat values).length = t.toList.length := by
  induction t with
  | leaf k => rfl
  | node left right ihl ihr =>
    rw [flat, List.length_append, ihl, ihr, toList, List.length_append]

/-- Nothing is lost in a row but the nesting, which the tree tells. -/
theorem flat_injective (t : Tree κ) {values values' : t.Nested A}
    (h : t.flat values = t.flat values') : values = values' := by
  induction t with
  | leaf k =>
    cases h
    rfl
  | node left right ihl ihr =>
    have hlength : (left.flat values.1).length = (left.flat values'.1).length := by
      rw [length_flat, length_flat]
    obtain ⟨hleft, hright⟩ := List.append_inj h hlength
    exact Prod.ext (ihl hleft) (ihr hright)

end Tree

/-! ## Parsers in turn -/

namespace Parser

variable {ι ε κ : Type} {A : κ → Type}

/-- The pairs of a tree with parsers at the leaves. -/
def pairs (p : (k : κ) → Parser ι ε (A k)) : (t : Tree κ) → Parser ι ε (t.Nested A)
  | .leaf k => p k
  | .node left right => pair (pairs p left) (pairs p right)

/-- Parsers one after the other, and their values in a row. -/
def inTurn (p : (k : κ) → Parser ι ε (A k)) : List κ → Parser ι ε (List (Σ k, A k))
  | [], i => .success [] i
  | k :: ks, i => (p k i).andThen fun value rest => (inTurn p ks rest).map (⟨k, value⟩ :: ·)

/-- Parsers succeed one after the other, each on the remainder of the one before it: what they log,
their values and the last remainder. -/
inductive Passes (p : (k : κ) → Parser ι ε (A k)) :
    List κ → ι → List Signal → List (Σ k, A k) → ι → Prop
  | nil {i} : Passes p [] i [] [] i
  | cons {k ks i r s log log' value values} : p k i = ⟨log, .success value r⟩ →
    Passes p ks r log' values s → Passes p (k :: ks) i (log ++ log') (⟨k, value⟩ :: values) s

variable {p : (k : κ) → Parser ι ε (A k)} {ks : List κ} {i : ι}

theorem inTurn_append (ks ls : List κ) (i : ι) :
    inTurn p (ks ++ ls) i =
      (inTurn p ks i).andThen fun values rest => (inTurn p ls rest).map (values ++ ·) := by
  induction ks generalizing i with
  | nil => exact (Run.map_id _).symm
  | cons k ks ih =>
    simp only [List.cons_append, inTurn, ih, Run.map_andThen, Run.andThen_andThen, Run.andThen_map,
      Run.map_map]

/-- A node applies its right part to what its left part leaves. -/
theorem map_pairs_node {β : Type} (left right : Tree κ) (i : ι)
    (f : (Tree.node left right).Nested A → β) :
    (pairs p (.node left right) i).map f =
      (pairs p left i).andThen fun a rest => (pairs p right rest).map fun b => f (a, b) := by
  have hmap : ∀ a rest, ((pairs p right rest).map fun b => (a, b)).map f =
      (pairs p right rest).map fun b => f (a, b) := fun a rest => Run.map_map _ f _
  simp only [← hmap]
  exact Run.map_andThen _ _ f

/-- However pairs are nested, their leaves are applied in turn. -/
theorem map_flat_pairs (t : Tree κ) (i : ι) :
    (pairs p t i).map t.flat = inTurn p t.toList i := by
  induction t generalizing i with
  | leaf k => exact (Run.andThen_success _ _).symm
  | node left right ihl ihr =>
    simp only [map_pairs_node, Tree.toList, inTurn_append, ← ihl, ← ihr, Run.andThen_map,
      Run.map_map, Tree.flat]

/-- Parsers that succeed leave the rest to those behind them. -/
theorem inTurn_of_passes {before : List κ} {log : List Signal} {values : List (Σ k, A k)} {r : ι}
    (h : Passes p before i log values r) (after : List κ) :
    inTurn p (before ++ after) i = ((inTurn p after r).map (values ++ ·)).after log := by
  induction h with
  | nil => exact (Run.map_id _).symm
  | @cons k ks i r s log log' value values hk _ ih =>
    rw [List.cons_append, inTurn, hk, Run.success_andThen, ih, Run.map_after, Run.map_map,
      Run.after_after]
    rfl

/-- All parsers of a row succeed, or there is a first one that does not. -/
theorem passes_or_exists_first (p : (k : κ) → Parser ι ε (A k)) (ks : List κ) (i : ι) :
    (∃ log values r, Passes p ks i log values r) ∨
      ∃ before k after log values r, ks = before ++ k :: after ∧ Passes p before i log values r ∧
        (p k r).reply.success? = none := by
  induction ks generalizing i with
  | nil => exact .inl ⟨[], [], i, .nil⟩
  | cons k ks ih =>
    rcases hk : p k i with ⟨log, ⟨value, r⟩ | f | fault⟩
    · rcases ih r with ⟨log', values, s, h⟩ | ⟨before, l, after, log', values, s, rfl, h, hl⟩
      · exact .inl ⟨_, _, s, .cons hk h⟩
      · exact .inr ⟨k :: before, l, after, _, _, s, rfl, .cons hk h, hl⟩
    · exact .inr ⟨[], k, ks, [], [], i, rfl, .nil, by rw [hk]; rfl⟩
    · exact .inr ⟨[], k, ks, [], [], i, rfl, .nil, by rw [hk]; rfl⟩

/-- What stands behind the first parser that does not succeed is not applied. -/
theorem inTurn_of_first {before : List κ} {k : κ} {log : List Signal} {values : List (Σ k, A k)}
    {r : ι} (h : Passes p before i log values r) (hk : (p k r).reply.success? = none)
    (after : List κ) :
    inTurn p (before ++ k :: after) i =
      ((p k r).map fun value => values ++ [⟨k, value⟩]).after log := by
  rw [inTurn_of_passes h, inTurn, Run.andThen_eq_map hk _ fun value => [⟨k, value⟩], Run.map_map]

/-- Parsers in turn succeed exactly if each of them does on the remainder of the one before it. -/
theorem inTurn_eq_success_iff {log : List Signal} {values : List (Σ k, A k)} {r : ι} :
    inTurn p ks i = ⟨log, .success values r⟩ ↔ Passes p ks i log values r := by
  have hpasses : ∀ {log values r}, Passes p ks i log values r →
      inTurn p ks i = ⟨log, .success values r⟩ := by
    intro log values r h
    have hrun := inTurn_of_passes h []
    rw [List.append_nil] at hrun
    rw [hrun]
    simp [inTurn, Run.success, Run.map, Run.after, Reply.map]
  refine ⟨fun h => ?_, hpasses⟩
  rcases passes_or_exists_first p ks i with
    ⟨_, _, _, hall⟩ | ⟨before, k, after, _, _, s, rfl, hbefore, hk⟩
  · rw [hpasses hall] at h
    cases h
    exact hall
  · rw [inTurn_of_first hbefore hk] at h
    rcases hrun : p k s with ⟨log', ⟨value, rest⟩ | f | fault⟩
    · rw [hrun] at hk
      cases hk
    · rw [hrun] at h
      cases h
    · rw [hrun] at h
      cases h

/-- Parsers in turn fail exactly as the first of them does that does not succeed. -/
theorem inTurn_eq_failure_iff {log : List Signal} {f : Failure ε} :
    inTurn p ks i = ⟨log, .failure f⟩ ↔
      ∃ before k after log' values r log'', ks = before ++ k :: after ∧
        Passes p before i log' values r ∧ p k r = ⟨log'', .failure f⟩ ∧ log = log' ++ log'' := by
  constructor
  · intro h
    rcases passes_or_exists_first p ks i with
      ⟨_, _, _, hall⟩ | ⟨before, k, after, log', values, s, rfl, hbefore, hk⟩
    · rw [inTurn_eq_success_iff.2 hall] at h
      cases h
    · rw [inTurn_of_first hbefore hk] at h
      rcases hrun : p k s with ⟨log'', ⟨value, rest⟩ | f' | fault⟩
      · rw [hrun] at hk
        cases hk
      · rw [hrun] at h
        cases h
        exact ⟨before, k, after, log', values, s, log'', rfl, hbefore, hrun, rfl⟩
      · rw [hrun] at h
        cases h
  · rintro ⟨before, k, after, log', values, r, log'', rfl, hbefore, hk, rfl⟩
    rw [inTurn_of_first hbefore (by rw [hk]; rfl), hk]
    rfl

/-! ## One parser behind another -/

section

variable {α β : Type} {left : Parser ι ε α} {q : Parser ι ε β}

theorem preceded_of_success {value : α} {rest : ι} (h : (left i).reply = .success value rest) :
    (preceded left q i).reply = (q rest).reply :=
  Run.reply_andThen_of_success h

theorem preceded_of_failure {f : Failure ε} (h : (left i).reply = .failure f) :
    (preceded left q i).reply = .failure f :=
  Run.reply_andThen_of_failure h

theorem preceded_of_stuck {fault : Fault} (h : (left i).reply = .stuck fault) :
    (preceded left q i).reply = .stuck fault :=
  Run.reply_andThen_of_stuck h

end

/-! ## Projections -/

/-- The values on both sides of a separator. -/
theorem separatedPair_eq_pairs (p : (k : κ) → Parser ι ε (A k)) (a b c : κ) (i : ι) :
    separatedPair (p a) (p b) (p c) i =
      (pairs p (.node (.leaf a) (.node (.leaf b) (.leaf c))) i).map
        fun values => (values.1, values.2.2) := by
  simp only [map_pairs_node]
  rfl

/-- The value between two others. -/
theorem delimited_eq_pairs (p : (k : κ) → Parser ι ε (A k)) (a b c : κ) (i : ι) :
    delimited (p a) (p b) (p c) i =
      (pairs p (.node (.leaf a) (.node (.leaf b) (.leaf c))) i).map fun values => values.2.1 := by
  simp only [map_pairs_node]
  rfl

/-- The value behind another one. -/
theorem preceded_eq_pairs (p : (k : κ) → Parser ι ε (A k)) (a b : κ) (i : ι) :
    preceded (p a) (p b) i =
      (pairs p (.node (.leaf a) (.leaf b)) i).map fun values => values.2 := by
  rw [map_pairs_node]
  exact congrArg _ (funext fun _ => funext fun rest => (Run.map_id (p b rest)).symm)

/-- The value before another one. -/
theorem terminated_eq_pairs (p : (k : κ) → Parser ι ε (A k)) (a b : κ) (i : ι) :
    terminated (p a) (p b) i =
      (pairs p (.node (.leaf a) (.leaf b)) i).map fun values => values.1 := by
  rw [map_pairs_node]
  rfl

end Parser

/-! ## Tuples of expressions -/

namespace Value

variable {ι σ κ : Type}

/-- Nested values of expressions as one value, pairs in pairs. -/
def ofNested : (t : Tree κ) → t.Nested (fun _ => Value ι σ) → Value ι σ
  | .leaf _, value => value
  | .node left right, both => .tuple [ofNested left both.1, ofNested right both.2]

/-- The tuple of the values of a row. -/
def ofRow (values : List (Σ _ : κ, Value ι σ)) : Value ι σ :=
  .tuple (values.map Sigma.snd)

/-- A value of nested pairs, read along the shape of its tree, is the row of the tree. -/
theorem flatten_ofNested (t : Tree κ) (values : t.Nested fun _ => Value ι σ) :
    (ofNested t values).flatten t.shape = (t.flat values).map Sigma.snd := by
  induction t with
  | leaf k => simp only [ofNested, Tree.shape, Tree.map, flatten, Tree.flat, List.map]
  | node left right ihl ihr =>
    rw [Tree.flat, List.map_append, ← ihl, ← ihr, ofNested, Tree.shape, Tree.map, flatten]
    rfl

end Value

section

variable {ι σ ε : Type} [Input ι σ] [Symbol σ] [ParseError ε ι]

namespace Expr

/-- Pairs of expressions are pairs of their parsers. -/
theorem eval_fold_pair (env : Env ι σ ε) (t : Tree Expr) (i : ι) :
    (t.fold .pair).eval env i =
      (Parser.pairs (fun e => e.eval env) t i).map (Value.ofNested t) := by
  induction t generalizing i with
  | leaf e => exact (Run.map_id _).symm
  | node left right ihl ihr =>
    rw [Tree.fold, eval, Parser.map_pairs_node]
    simp only [Parser.map, Parser.pair, ihl, ihr, Run.map_andThen, Run.andThen_map, Run.map_map]
    rfl

/-- Read along its own shape, a tree of pairs is a tuple of its leaves in turn. -/
theorem eval_flatten_fold_pair (env : Env ι σ ε) (t : Tree Expr) (i : ι) :
    (Expr.flatten t.shape (t.fold .pair)).eval env i =
      (Parser.inTurn (fun e => e.eval env) t.toList i).map Value.ofRow := by
  rw [eval, ← Parser.map_flat_pairs, Run.map_map]
  simp only [Parser.map, eval_fold_pair, Run.map_map, Value.flatten_ofNested, Value.ofRow]

/-- A tuple of nothing takes nothing. -/
theorem tuple_nil : tuple [] = .succeed (.tuple []) := by
  rw [tuple, Tree.balanced?]

/-- The tree of a tuple and the shape it is read along are split at the same places. -/
theorem exists_tree_of_tuple {es : List Expr} (h : es ≠ []) :
    ∃ t : Tree Expr, t.toList = es ∧ tuple es = .flatten t.shape (t.fold .pair) := by
  obtain ⟨t, ht⟩ := Option.isSome_iff_exists.1 (Tree.balanced?_isSome h)
  refine ⟨t, Tree.toList_of_balanced? ht, ?_⟩
  rw [tuple, Tree.balanced?_replicate, ht]
  rfl

theorem eval_tuple (env : Env ι σ ε) (es : List Expr) (i : ι) :
    (tuple es).eval env i = (Parser.inTurn (fun e => e.eval env) es i).map Value.ofRow := by
  cases es with
  | nil =>
    rw [tuple_nil]
    rfl
  | cons e es =>
    obtain ⟨t, hparts, htuple⟩ := exists_tree_of_tuple (List.cons_ne_nil e es)
    rw [htuple, ← hparts]
    exact eval_flatten_fold_pair env t i

/-! ## The parts of a sequence -/

/-- Pairs as a tree, as far down as a shape goes. -/
def along : Tree Unit → Expr → Tree Expr
  | .node left right, .pair e f => .node (along left e) (along right f)
  | _, e => .leaf e

theorem fold_along (shape : Tree Unit) (e : Expr) : (along shape e).fold .pair = e := by
  fun_induction along shape e with
  | case1 left right e f ihe ihf => rw [Tree.fold, ihe, ihf]
  | case2 => rfl

theorem along_shape (t : Tree Expr) : along t.shape (t.fold .pair) = t := by
  induction t with
  | leaf e => rfl
  | node left right ihl ihr =>
    rw [Tree.shape, Tree.map, Tree.fold, along]
    rw [Tree.shape] at ihl ihr
    rw [ihl, ihr]

/-- The parts of a combinator that applies them one after the other, as pairs would be nested that
do the same. -/
def sequence? : Expr → Option (Tree Expr)
  | .pair e f => some (.node (.leaf e) (.leaf f))
  | .separatedPair e sep f => some (.node (.leaf e) (.node (.leaf sep) (.leaf f)))
  | .delimited left e right => some (.node (.leaf left) (.node (.leaf e) (.leaf right)))
  | .preceded left e => some (.node (.leaf left) (.leaf e))
  | .terminated e right => some (.node (.leaf e) (.leaf right))
  | .flatten shape e => some (along shape e)
  | _ => none

/-- The parts of a tuple are the expressions it is made of. -/
theorem sequence?_tuple {es : List Expr} (h : es ≠ []) :
    ∃ t, (tuple es).sequence? = some t ∧ t.toList = es := by
  obtain ⟨t, hparts, htuple⟩ := exists_tree_of_tuple h
  refine ⟨t, ?_, hparts⟩
  rw [htuple]
  exact congrArg some (along_shape t)

/-- A sequence makes its value of the values of its parts. -/
theorem exists_join {e : Expr} {t : Tree Expr} (h : e.sequence? = some t) :
    ∃ join : t.Nested (fun _ => Value ι σ) → Value ι σ, ∀ (env : Env ι σ ε) (i : ι),
      e.eval env i = (Parser.pairs (fun e => e.eval env) t i).map join := by
  cases e with
  | pair e f =>
    cases h
    exact ⟨Value.ofPair, fun env i => rfl⟩
  | separatedPair e sep f =>
    cases h
    refine ⟨fun values => Value.ofPair (values.1, values.2.2), fun env i => ?_⟩
    exact (congrArg (Run.map Value.ofPair) (Parser.separatedPair_eq_pairs
      (fun e : Expr => e.eval env) e sep f i)).trans (Run.map_map _ _ _)
  | delimited left e right =>
    cases h
    exact ⟨fun values => values.2.1, fun env i =>
      Parser.delimited_eq_pairs (fun e : Expr => e.eval env) left e right i⟩
  | preceded left e =>
    cases h
    exact ⟨fun values => values.2, fun env i =>
      Parser.preceded_eq_pairs (fun e : Expr => e.eval env) left e i⟩
  | terminated e right =>
    cases h
    exact ⟨fun values => values.1, fun env i =>
      Parser.terminated_eq_pairs (fun e : Expr => e.eval env) e right i⟩
  | flatten shape e =>
    cases h
    refine ⟨fun values => .tuple ((Value.ofNested _ values).flatten shape), fun env i => ?_⟩
    have heval := eval_fold_pair env (along shape e) i
    rw [fold_along] at heval
    rw [eval, Parser.map, heval, Run.map_map]
  | _ => cases h

end Expr

/-! ## One after the other -/

variable {κ : Type} {A : κ → Type}

/-- **A sequence goes from left to right, whatever its tree.**  However pairs are nested, their
flat values are those of the leaves in turn: the leaves succeed if each does on the remainder of the
one before it, and otherwise the first that fails gives the failure, and nothing behind it is
applied.  The combinators of two and of three parts are projections of such trees.  The tree of a
tuple and the shape its values are read along have the same splits, for any number of parts, so a
tuple of expressions has the values of its parts in turn, as any other tree over them has that is
read along its own shape. -/
theorem Parser.sequence_in_order (p : (k : κ) → Parser ι ε (A k)) (i : ι) :
    (∀ t : Tree κ, (pairs p t i).map t.flat = inTurn p t.toList i) ∧
    (∀ ks log values r,
      inTurn p ks i = ⟨log, .success values r⟩ ↔ Passes p ks i log values r) ∧
    (∀ ks log f, inTurn p ks i = ⟨log, .failure f⟩ ↔
      ∃ before k after log' values r log'', ks = before ++ k :: after ∧
        Passes p before i log' values r ∧ p k r = ⟨log'', .failure f⟩ ∧ log = log' ++ log'') ∧
    (∀ a b, pair (p a) (p b) i = pairs p (.node (.leaf a) (.leaf b)) i ∧
      preceded (p a) (p b) i =
        (pairs p (.node (.leaf a) (.leaf b)) i).map (fun values => values.2) ∧
      terminated (p a) (p b) i =
        (pairs p (.node (.leaf a) (.leaf b)) i).map fun values => values.1) ∧
    (∀ a b c,
      separatedPair (p a) (p b) (p c) i =
        (pairs p (.node (.leaf a) (.node (.leaf b) (.leaf c))) i).map
          (fun values => (values.1, values.2.2)) ∧
      delimited (p a) (p b) (p c) i =
        (pairs p (.node (.leaf a) (.node (.leaf b) (.leaf c))) i).map
          fun values => values.2.1) ∧
    (∀ ks : List κ,
      Tree.balanced? (List.replicate ks.length ()) = (Tree.balanced? ks).map Tree.shape) ∧
    (∀ (env : Expr.Env ι σ ε) (es : List Expr),
      (Expr.tuple es).eval env i = (inTurn (fun e => e.eval env) es i).map Value.ofRow) ∧
    (∀ (env : Expr.Env ι σ ε) (t : Tree Expr),
      (Expr.flatten t.shape (t.fold .pair)).eval env i =
        (inTurn (fun e => e.eval env) t.toList i).map Value.ofRow) :=
  ⟨fun t => map_flat_pairs t i,
    fun _ _ _ _ => inTurn_eq_success_iff,
    fun _ _ _ => inTurn_eq_failure_iff,
    fun a b => ⟨rfl, preceded_eq_pairs p a b i, terminated_eq_pairs p a b i⟩,
    fun a b c => ⟨separatedPair_eq_pairs p a b c i, delimited_eq_pairs p a b c i⟩,
    Tree.balanced?_replicate,
    fun env es => Expr.eval_tuple env es i,
    fun env t => Expr.eval_flatten_fold_pair env t i⟩

end

end ParseKit
