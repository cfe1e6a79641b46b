/-
  Grammars: named rules that may refer to each other and to themselves.

  A rule is unfolded to a bounded depth.  On an input of length `n` a parse
  that ends never nests more than `rules * (n + 1)` references: among more,
  some rule would be applied twice to the same remainder, one application
  inside the other, and so again inside that one without end.
-/
import ParseKit.Expr.Eval

set_option autoImplicit false

namespace ParseKit

/-- Rules by name. -/
structure Grammar where
  rules : List (String × Expr)

namespace Grammar

variable {ι σ ε : Type} [Input ι σ] [Symbol σ] [ParseError ε ι]

/-- The body of a rule. -/
def body? (g : Grammar) (name : String) : Option Expr := g.rules.lookup name

/-- The body of a rule is that of one of the rules. -/
theorem mem_rules_of_body? {g : Grammar} {name : String} {body : Expr}
    (h : g.body? name = some body) : (name, body) ∈ g.rules := by
  obtain ⟨before, after, hrules, -⟩ := List.lookup_eq_some_iff.1 h
  rw [hrules]
  exact List.mem_append_right _ List.mem_cons_self

/-- The rules unfolded to a depth, with the parsers of `bottom` behind the names there. -/
def unfold (g : Grammar) (bottom : Expr.Env ι σ ε) : Nat → Expr.Env ι σ ε
  | 0, name, i => bottom name i
  | depth + 1, name, i =>
    match g.body? name with
    | some body => body.eval (g.unfold bottom depth) i
    | none => .stuck (.undefinedRule name)

/-- A depth that no parse of an input of the length exceeds if it ends at all. -/
def depthBound (g : Grammar) (length : Nat) : Nat := g.rules.length * (length + 1) + 1

/-- The run of an expression that may refer to the rules. -/
def parse (g : Grammar) (e : Expr) : Parser ι ε (Value ι σ) := fun i =>
  e.eval (g.unfold (fun _ _ => .stuck .tooDeep) (g.depthBound (Input.length i))) i

end Grammar

end ParseKit
