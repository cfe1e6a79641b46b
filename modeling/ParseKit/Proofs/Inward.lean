/-
  Causes point inward.

  A level of a cause lies at an input that some parser on the way was given.
  Every combinator that puts a level around an error puts it at its own
  input or at one in front of the part that failed, and parts are given
  remainders only.  So from the outermost level to the root the positions
  are remainders of each other, and all of them remainders of the input.
  The invariant is a parse beside itself, with errors that point into the
  input of the run they are errors of.  A leaf given from outside is only
  asked where it reports its errors; that a success hands on the remaining
  input is what makes it a parser.
-/
import ParseKit.Proofs.Confinement
import ParseKit.Proofs.Relocation

set_option autoImplicit false

namespace ParseKit

open LawfulInput

variable {ι σ : Type} [Input ι σ] [LawfulInput ι σ]

/-! ## Positions one inside the other -/

/-- An error inside an input: its levels, from the outermost one, lie at remainders of the input and
of each other. -/
def ParseError.PointsInto {ε : Type} [ParseError ε ι] (i : ι) (e : ε) : Prop :=
  (i :: (ParseError.levels e).map Prod.snd).Pairwise IsRemainder

/-- A reply to an input that ends inside it: a success leaves a remainder of it, and an error lies
inside it. -/
def Reply.PointsInto {ε α : Type} [ParseError ε ι] (i : ι) (reply : Reply ι ε α) : Prop :=
  (i :: reply.places).Pairwise IsRemainder

/-- The places of a reply that ends inside an input, by their offsets in it. -/
theorem Reply.PointsInto.exists_offsets {ε α : Type} [ParseError ε ι] {i : ι}
    {reply : Reply ι ε α} (h : reply.PointsInto i) :
    ∃ offsets : List Nat, offsets.Pairwise (· ≤ ·) ∧
      (∀ n ∈ offsets, Input.isBoundary i n = true) ∧
        reply.places = offsets.map fun n => (Input.splitAt i n).2 := by
  obtain ⟨hinside, hordered⟩ := List.pairwise_cons.1 h
  refine ⟨reply.places.map fun r => Input.length i - Input.length r, ?_, ?_, ?_⟩
  · refine List.pairwise_map.2 (hordered.imp fun hrest => ?_)
    exact Nat.sub_le_sub_left hrest.length_le _
  · exact List.forall_mem_map.2 fun r hr => (hinside r hr).eq_splitAt.1
  · rw [List.map_map]
    conv => lhs; rw [← List.map_id reply.places]
    exact List.map_congr_left fun r hr => (hinside r hr).eq_splitAt.2

/-! ## The invariant -/

variable [Symbol σ]

/-- A parse beside itself on the remainders of an input, with errors that point into the input of
the run they are errors of. -/
def Correspondence.inward (i : ι) : Correspondence ι σ (Cause ι) ι σ (Cause ι) where
  input j j' := IsRemainder i j ∧ j = j'
  follows := IsRemainder
  piece := Eq
  symbol := Eq
  error j e e' := ParseError.PointsInto j e ∧ e = e'
  lax := False
  waits := True
  tolerates _ := True
  follows_refl h := .refl h.1.valid
  follows_trans := @IsRemainder.trans ι σ _ _
  faithful := .equal
  error_mono {j r e e'} hfollows h := by
    obtain ⟨hinside, hordered⟩ := List.pairwise_cons.1 h.1
    exact ⟨List.pairwise_cons.2 ⟨fun q hq => hfollows.trans (hinside q hq), hordered⟩, h.2⟩
  error_ofKind {j j'} kind h := by
    obtain ⟨hj, rfl⟩ := h
    exact ⟨List.pairwise_pair.2 (.refl hj.valid), rfl⟩
  error_wrap {j j' e e'} kind h he := by
    obtain ⟨hj, rfl⟩ := h
    obtain ⟨hpoints, rfl⟩ := he
    obtain ⟨hinside, -⟩ := List.pairwise_cons.1 hpoints
    -- The new level lies at the input itself, so what lies inside the input lies inside the level.
    exact ⟨List.pairwise_cons.2 ⟨List.forall_mem_cons.2 ⟨.refl hj.valid, hinside⟩, hpoints⟩, rfl⟩
  consumed?_eq h hr _ := h.2 ▸ hr.2 ▸ rfl
  grown _ _ _ _ := trivial
  spanned {j j' r r' n} h _ hfollows hsome := by
    obtain ⟨-, rfl⟩ := h
    have hboundary := hfollows.isBoundary hsome
    exact .inl ⟨hboundary, hboundary, rfl⟩

namespace Correspondence

variable {i : ι}

theorem inward_invariant (i : ι) : (inward i : Correspondence ι σ _ ι σ _).Invariant where
  input_eq h := ⟨h.1.valid, h.2⟩
  input_rest h hrest := ⟨⟨h.1.trans hrest, rfl⟩, hrest⟩
  piece_eq := rfl
  symbol_eq := rfl
  not_lax := id
  waits := trivial

/-- A run has the invariant if and only if its reply ends inside the input. -/
theorem runs_inward_iff {j : ι} (hj : IsRemainder i j) {run : Run ι (Cause ι) (Value ι σ)} :
    (inward i).Runs (Value.Related Eq Eq) j run run ↔ run.reply.PointsInto j := by
  unfold Runs Reply.PointsInto
  generalize run.reply = reply
  constructor
  · intro h
    cases h with
    | success _ _ hfollows => exact List.pairwise_pair.2 hfollows
    | recoverable he => exact he.1
    | fatal he => exact he.1
    | incomplete _ => exact List.pairwise_singleton ..
    | undecided _ _ => exact List.pairwise_singleton ..
    | stuck _ => exact List.pairwise_singleton ..
  · intro h
    rcases reply with ⟨v, r⟩ | ⟨_ | e | e⟩ | fault
    · have hrest : IsRemainder j r := List.pairwise_pair.1 h
      exact .success (Value.related_refl v) ⟨hj.trans hrest, rfl⟩ hrest
    · exact .incomplete trivial
    · exact .recoverable ⟨h, rfl⟩
    · exact .fatal ⟨h, rfl⟩
    · exact .stuck trivial

/-- An expression that changes no errors keeps the invariant if the leaves given from outside do. -/
theorem inward_eval {env env' : Expr.Env ι σ (Cause ι)} {e : Expr}
    (he : e.Every fun part => part.isMapError = false)
    (henv : ∀ name, (inward i).ValueParsers (env name) (env' name)) :
    (inward i).ValueParsers (e.eval env) (e.eval env') := by
  have hadmits : e.Every ((inward i).Admits env env' id id) := by
    refine he.imp fun {part} hpart => ?_
    refine (inward_invariant i).admits (.inr trivial) (fun g inner hmap => ?_)
      fun name _ => henv name
    rw [hmap] at hpart
    cases hpart
  have heval := eval_related hadmits
  rwa [Expr.mapMode_id] at heval

theorem inward_unfold {g : Grammar}
    (hg : ∀ rule ∈ g.rules, rule.2.Every fun part => part.isMapError = false) (depth : Nat)
    (name : String) :
    (inward i : Correspondence ι σ _ ι σ _).ValueParsers
      (g.unfold (fun _ _ => .stuck .tooDeep) depth name)
      (g.unfold (fun _ _ => .stuck .tooDeep) depth name) :=
  unfold_related trivial (fun _ => trivial)
    (fun rule hrule _ _ henv => inward_eval (hg rule hrule) henv) depth name

end Correspondence

/-! ## Leaves given from outside -/

/-- A parser given from outside.  It keeps the promise of every parser: what it hands on with a
value is the remaining unparsed input.  Where it reports its errors is left open. -/
structure Leaf (ι σ ε : Type) [Input ι σ] [LawfulInput ι σ] where
  parser : Parser ι ε (Value ι σ)
  isRemainder_of_success : ∀ {j : ι} {v r}, Valid j → (parser j).reply = .success v r →
    IsRemainder j r

omit [Symbol σ] in
/-- The reply of a leaf ends inside its input if its error does. -/
theorem Leaf.pointsInto {ε : Type} [ParseError ε ι] (leaf : Leaf ι σ ε) {j : ι} (hj : Valid j)
    (herror : ∀ failed e, (leaf.parser j).reply = .failure failed → failed.error? = some e →
      ParseError.PointsInto j e) : (leaf.parser j).reply.PointsInto j := by
  cases hreply : (leaf.parser j).reply with
  | success v r => exact List.pairwise_pair.2 (leaf.isRemainder_of_success hj hreply)
  | failure failed =>
    cases failed with
    | incomplete => exact List.pairwise_singleton ..
    | recoverable e => exact herror _ e hreply rfl
    | fatal e => exact herror _ e hreply rfl
  | stuck fault => exact List.pairwise_singleton ..

/-! ## Every part of an expression -/

/-- A parser that does not keep the promise leads elsewhere: behind it an error lies at what it has
made up. -/
example :
    ((Expr.pair (.ref "item") (.scan .complete (.char 'a'))).eval
        (fun _ _ => .success .unit ⟨['x', 'y', 'z']⟩) ⟨['a']⟩ : Run Text (Cause Text) _).reply =
      .failure (.recoverable (.root ⟨['x', 'y', 'z']⟩ .char)) :=
  rfl

end ParseKit
