/-
  One parser, many error types.

  Parsers make errors of kinds and put levels around errors, and apart from
  changes of errors they do nothing else with them.  So a map between two
  error types that keeps both ways of making errors takes a parse with the
  one type to the parse with the other.  Such a map is the root of a cause:
  a flat error is the innermost level of the cause that is reported in its
  place.
-/
import ParseKit.Grammar
import ParseKit.Input.Text
import ParseKit.Proofs.Correspondence.Expr
import ParseKit.Proofs.Parser.Decision

set_option autoImplicit false

namespace ParseKit

/-! ## Maps of errors -/

/-- A map between error types that keeps both ways of making an error. -/
structure ParseError.Hom {ι ε ε' : Type} [ParseError ε ι] [ParseError ε' ι] (h : ε → ε') :
    Prop where
  ofKind : ∀ i kind, h (ParseError.ofKind i kind) = ParseError.ofKind i kind
  wrap : ∀ e i kind, h (ParseError.wrap e i kind) = ParseError.wrap (h e) i kind

namespace Cause

variable {ι : Type}

/-- Only the innermost level counts for the root. -/
theorem hom_rootLevel : ParseError.Hom (rootLevel : Cause ι → Flat ι) where
  ofKind _ _ := rfl
  wrap _ _ _ := rfl

/-- The root is the last cause of the chain. -/
theorem getLast?_chain (c : Cause ι) :
    c.chain.getLast? = some (.root c.rootLevel.1 c.rootLevel.2) := by
  induction c with
  | root position kind => rfl
  | context position kind inner ih =>
    rw [chain, List.getLast?_cons, ih]
    rfl

theorem getLast?_kinds (c : Cause ι) : c.kinds.getLast? = some c.rootLevel.2 := by
  rw [kinds, List.getLast?_map, getLast?_chain]
  rfl

end Cause

/-- What is decided with no regard to the error type is kept. -/
theorem Decided.mapFailure {ι ε ε' α : Type} [ParseError ε ι] [ParseError ε' ι] {h : ε → ε'}
    (hh : ParseError.Hom h) {mode : Mode} {i : ι}
    {run : (ε : Type) → [ParseError ε ι] → Run ι ε α} (hrun : Decided mode i run) :
    (run ε).mapFailure (Failure.map h) = run ε' := by
  obtain ⟨d, -, hd⟩ := hrun
  -- Both runs are runs of one decision, which makes an error of a kind at most.
  rw [hd, hd]
  cases d with
  | take value rest => rfl
  | refuse kind => exact congrArg Run.recoverable (hh.ofKind i kind)
  | ask => rfl
  | stuck fault => rfl

/-! ## Parses with two error types -/

variable {ι σ : Type} [Input ι σ] [Symbol σ]

section

variable {ε ε' : Type} [ParseError ε ι] [ParseError ε' ι] {h : ε → ε'}

/-- Two parses of the same input with different error types. -/
def Correspondence.retyped (σ : Type) [Input ι σ] [Symbol σ] (hh : ParseError.Hom h) :
    Correspondence ι σ ε ι σ ε' where
  input := Eq
  follows _ _ := True
  piece := Eq
  symbol := Eq
  error _ e e' := h e = e'
  lax := False
  waits := True
  tolerates _ := True
  follows_refl _ := trivial
  follows_trans _ _ := trivial
  faithful := .equal
  error_mono _ he := he
  error_ofKind kind hi := hi ▸ hh.ofKind _ kind
  error_wrap kind hi he := hi ▸ he ▸ hh.wrap _ _ kind
  consumed?_eq hi hr _ := Parser.consumed?_congr hi hr
  grown _ _ _ _ := trivial
  spanned {_ _ _ _ n} hi _ _ _ := Input.splitAt_congr hi n

namespace Correspondence

theorem retyped_of_reply_eq (hh : ParseError.Hom h) {α : Type} {V : α → α → Prop}
    (hV : ∀ v, V v v) (i : ι) {run : Run ι ε α} {run' : Run ι ε' α}
    (heq : run.reply.mapFailure (Failure.map h) = run'.reply) :
    (retyped σ hh).Runs V i run run' := by
  unfold Runs
  rw [← heq]
  rcases run with ⟨log, value | failure | fault⟩
  · exact .success (hV value) rfl trivial
  · cases failure with
    | incomplete => exact .incomplete trivial
    | recoverable e => exact .recoverable rfl
    | fatal e => exact .fatal rfl
  · exact .stuck trivial

theorem reply_eq_of_retyped (hh : ParseError.Hom h) {i : ι} {reply : Reply ι ε (Value ι σ)}
    {reply' : Reply ι ε' (Value ι σ)}
    (hreplies : (retyped σ hh).Replies (Value.Related Eq Eq) i reply reply') :
    reply.mapFailure (Failure.map h) = reply' := by
  cases hreplies with
  | success hv hr _ =>
    obtain rfl := hv.eq
    obtain rfl : _ = _ := hr
    rfl
  | recoverable he => exact congrArg (fun e => Reply.failure (.recoverable e)) he
  | fatal he => exact congrArg (fun e => Reply.failure (.fatal e)) he
  | incomplete _ => rfl
  | undecided _ hlax => exact hlax.elim
  | stuck _ => rfl

/-- An expression that changes no errors does the same with both error types, if the rules it
refers to do. -/
theorem retyped_eval (hh : ParseError.Hom h) {e : Expr}
    (he : e.Every fun part => part.isMapError = false) {env : Expr.Env ι σ ε}
    {env' : Expr.Env ι σ ε'}
    (henv : ∀ name, (retyped σ hh).ValueParsers (env name) (env' name)) :
    (retyped σ hh).ValueParsers (e.eval env) (e.eval env') := by
  have hadmits : e.Every ((retyped σ hh).Admits env env' id id) := by
    refine he.imp fun {part} hpart => ?_
    cases part with
    | scan mode s =>
      rintro i _ rfl
      exact retyped_of_reply_eq hh Value.related_refl i
        (congrArg Run.reply ((s.decided mode i).mapFailure hh))
    | askForMore => exact .inr trivial
    | eof => exact fun hi => hi ▸ rfl
    | rest =>
      rintro i _ rfl
      have hrest : Decided .complete i fun _ _ => Parser.cut (Input.length i) i := .cut _
      exact retyped_of_reply_eq hh (fun _ => rfl) i (congrArg Run.reply (hrest.mapFailure hh))
    | restLength => exact fun hi => hi ▸ rfl
    | mapError g e => cases hpart
    | allConsuming e => exact fun hi => hi ▸ rfl
    | complete e => exact id
    | count n e => exact fun _ => trivial
    | ref name => exact henv name
    | _ => trivial
  have heval := eval_related hadmits
  rwa [Expr.mapMode_id] at heval

theorem retyped_unfold (hh : ParseError.Hom h) {g : Grammar}
    (hg : ∀ rule ∈ g.rules, rule.2.Every fun part => part.isMapError = false) (depth : Nat)
    (name : String) :
    (retyped σ hh).ValueParsers (g.unfold (fun _ _ => .stuck .tooDeep) depth name)
      (g.unfold (fun _ _ => .stuck .tooDeep) depth name) :=
  unfold_related trivial (fun _ => trivial)
    (fun rule hrule _ _ => retyped_eval hh (hg rule hrule)) depth name

end Correspondence

end

/-- **The error type is a matter of representation.**  If no part of an expression changes errors,
then its reply with one error type is its reply with another one, changed by any map that keeps both
ways of making errors, as long as the leaves given from outside reply so.  The root of a cause,
which is the last one of its chain, is such a map: a grammar that changes no errors gives the same
value and remainder with causes and with flat errors, or fails in the same state, and the flat error
is the position and the kind of the root. -/
theorem Expr.flat_error_is_root {e : Expr} (he : e.Every fun part => part.isMapError = false) :
    (∀ {ε ε' : Type} [ParseError ε ι] [ParseError ε' ι] (h : ε → ε'), ParseError.Hom h →
      ∀ (env : Expr.Env ι σ ε) (env' : Expr.Env ι σ ε'),
        (∀ name i, (env' name i).reply = (env name i).reply.mapFailure (Failure.map h)) →
          ∀ i, (e.eval env' i).reply = (e.eval env i).reply.mapFailure (Failure.map h)) ∧
    (∀ g : Grammar, (∀ rule ∈ g.rules, rule.2.Every fun part => part.isMapError = false) →
      ∀ i : ι, (g.parse e i : Run ι (Flat ι) (Value ι σ)).reply =
        (g.parse e i : Run ι (Cause ι) (Value ι σ)).reply.mapFailure
          (Failure.map Cause.rootLevel)) ∧
    (∀ c : Cause ι, c.chain.getLast? = some (.root c.rootLevel.1 c.rootLevel.2) ∧
      c.kinds.getLast? = some c.rootLevel.2) := by
  refine ⟨?_, ?_, fun c => ⟨c.getLast?_chain, c.getLast?_kinds⟩⟩
  · intro ε ε' _ _ h hh env env' henv i
    have hleaves : ∀ name,
        (Correspondence.retyped σ hh).ValueParsers (env name) (env' name) := by
      rintro name i _ rfl
      exact Correspondence.retyped_of_reply_eq hh Value.related_refl i (henv name i).symm
    exact (Correspondence.reply_eq_of_retyped hh
      (Correspondence.retyped_eval hh he hleaves rfl)).symm
  · intro g hg i
    exact (Correspondence.reply_eq_of_retyped Cause.hom_rootLevel
      (Correspondence.retyped_eval Cause.hom_rootLevel he
        (Correspondence.retyped_unfold Cause.hom_rootLevel hg _) rfl)).symm

/-- Two numbers behind a rule, the second of them missing: the cause has a level for the context,
one for the repetition and the root, which is the flat error. -/
theorem Expr.flat_error_is_root_digits :
    (Grammar.parse ⟨[("item", .verify (.sizeAtLeast 2) (.scan .complete .digit1))]⟩
        (.context .user (.count 2 (.ref "item"))) (⟨['4', '2', 'x']⟩ : Text) :
          Run Text (Flat Text) (Value Text Char)).reply =
      .failure (.recoverable (⟨['x']⟩, .digit)) := by
  have hitem : Every (fun part => part.isMapError = false)
      (.verify (.sizeAtLeast 2) (.scan .complete .digit1)) :=
    .intro rfl (List.forall_mem_singleton.2 (every_leaf rfl rfl))
  have hcount : Every (fun part => part.isMapError = false)
      (.context .user (.count 2 (.ref "item"))) :=
    .intro rfl (List.forall_mem_singleton.2
      (.intro rfl (List.forall_mem_singleton.2 (every_leaf rfl rfl))))
  have hflat := (Expr.flat_error_is_root hcount).2.1
    ⟨[("item", .verify (.sizeAtLeast 2) (.scan .complete .digit1))]⟩
    (List.forall_mem_singleton.2 hitem) (⟨['4', '2', 'x']⟩ : Text)
  have hcause : (Grammar.parse ⟨[("item", .verify (.sizeAtLeast 2) (.scan .complete .digit1))]⟩
        (.context .user (.count 2 (.ref "item"))) (⟨['4', '2', 'x']⟩ : Text) :
          Run Text (Cause Text) (Value Text Char)).reply =
      .failure (.recoverable (.context ⟨['4', '2', 'x']⟩ .user
        (.context ⟨['4', '2', 'x']⟩ .count (.root ⟨['x']⟩ .digit)))) := rfl
  rw [hflat, hcause]
  rfl

end ParseKit
