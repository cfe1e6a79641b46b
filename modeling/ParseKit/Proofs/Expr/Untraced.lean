/-
  Expressions without traced parsers, and the parts of an expression.
-/
import ParseKit.Grammar
import ParseKit.Proofs.Expr.Parts

set_option autoImplicit false

namespace ParseKit

namespace Expr

/-- The same expression with no part traced. -/
def untraced : Expr → Expr
  | .scan mode s => .scan mode s
  | .succeed literal => .succeed literal
  | .fail kind => .fail kind
  | .failFatally kind => .failFatally kind
  | .askForMore => .askForMore
  | .eof => .eof
  | .rest => .rest
  | .restLength => .restLength
  | .map g e => .map g e.untraced
  | .mapRes g e => .mapRes g e.untraced
  | .mapError g e => .mapError g e.untraced
  | .context kind e => .context kind e.untraced
  | .commit e => .commit e.untraced
  | .replace literal e => .replace literal e.untraced
  | .opt e => .opt e.untraced
  | .verify check e => .verify check e.untraced
  | .recognize e => .recognize e.untraced
  | .peek e => .peek e.untraced
  | .not e => .not e.untraced
  | .cond condition e => .cond condition e.untraced
  | .allConsuming e => .allConsuming e.untraced
  | .complete e => .complete e.untraced
  | .traced _ e => e.untraced
  | .pair e f => .pair e.untraced f.untraced
  | .separatedPair e sep f => .separatedPair e.untraced sep.untraced f.untraced
  | .delimited left e right => .delimited left.untraced e.untraced right.untraced
  | .preceded left e => .preceded left.untraced e.untraced
  | .terminated e right => .terminated e.untraced right.untraced
  | .flatten shape e => .flatten shape e.untraced
  | .either e f => .either e.untraced f.untraced
  | .choice e => .choice e.untraced
  | .many0 e => .many0 e.untraced
  | .many1 e => .many1 e.untraced
  | .collectMany0 container e => .collectMany0 container e.untraced
  | .collectMany1 container e => .collectMany1 container e.untraced
  | .foldMany0 folding e => .foldMany0 folding e.untraced
  | .count n e => .count n e.untraced
  | .manyMN min max e => .manyMN min max e.untraced
  | .manyTill e terminator => .manyTill e.untraced terminator.untraced
  | .separatedList sep item => .separatedList sep.untraced item.untraced
  | .separatedNonemptyList sep item => .separatedNonemptyList sep.untraced item.untraced
  | .ref name => .ref name

/-- An expression is another one or stands somewhere inside it. -/
inductive Within (part : Expr) : Expr → Prop
  | here : Within part part
  | inside {e child : Expr} : child ∈ e.children → Within part child → Within part e

/-- What holds of all that stands within an expression holds of its parts. -/
theorem every_of_within {test : Expr → Prop} {e : Expr} (h : ∀ part, part.Within e → test part) :
    e.Every test := by
  have hparts : e.Every fun _ => True := every_of_forall (fun _ => trivial) e
  induction hparts with
  | intro _ _ ih =>
    refine ⟨h _ .here, fun part hpart => ih part hpart fun inner hinner => ?_⟩
    exact h inner (.inside hpart hinner)

end Expr

namespace Grammar

/-- The same grammar with no part of a rule traced. -/
def untraced (g : Grammar) : Grammar := ⟨g.rules.map fun rule => (rule.1, rule.2.untraced)⟩

theorem body?_untraced (g : Grammar) (name : String) :
    g.untraced.body? name = (g.body? name).map Expr.untraced := by
  unfold untraced body?
  induction g.rules with
  | nil => rfl
  | cons rule rules ih =>
    rw [List.map_cons, List.lookup_cons, List.lookup_cons, ih]
    split <;> rfl

theorem depthBound_untraced (g : Grammar) (length : Nat) :
    g.untraced.depthBound length = g.depthBound length := by
  rw [depthBound, depthBound, untraced, List.length_map]

end Grammar

end ParseKit
