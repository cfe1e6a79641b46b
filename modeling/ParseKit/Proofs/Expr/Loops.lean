/-
  The loops of expressions.

  Each repetition is an expression whose loop applies the parsers of its parts
  round by round.  If no part leaves a remainder longer than its input, the
  loop ends on every input, and the expression is what the loop ends with.
-/
import ParseKit.Expr.Eval
import ParseKit.Proofs.Expr.Parts
import ParseKit.Proofs.Parser.Rounds

set_option autoImplicit false

namespace ParseKit.Expr

variable {ι σ ε : Type} [Input ι σ] [Symbol σ] [ParseError ε ι]

/-- The loop of a repetition, and what is made of its result.  A repetition with bounds in the
wrong order has none: it fails before it begins. -/
inductive HasLoop (env : Env ι σ ε) :
    Expr → {β : Type} → Loop ι ε (Value ι σ) β → (β → Value ι σ) → Prop
  | many0 (e : Expr) : HasLoop env (.many0 e) (.collecting .list .many0 (e.eval env)) .list
  | many1 (e : Expr) : HasLoop env (.many1 e) (.collectingOnce .list (e.eval env)) .list
  | collectMany0 (container : Container) (e : Expr) :
    HasLoop env (.collectMany0 container e)
      (.collecting container.collector .many0 (e.eval env)) id
  | collectMany1 (container : Container) (e : Expr) :
    HasLoop env (.collectMany1 container e) (.collectingOnce container.collector (e.eval env)) id
  | foldMany0 (folding : Folding) (e : Expr) :
    HasLoop env (.foldMany0 folding e)
      (.collecting (.folding folding.start folding.step) .many0 (e.eval env)) id
  | manyMN {min max : Nat} (e : Expr) : min ≤ max →
    HasLoop env (.manyMN min max e) (.bounded min max (e.eval env)) .list
  | manyTill (e terminator : Expr) :
    HasLoop env (.manyTill e terminator) (.till (e.eval env) (terminator.eval env)) .ofTill
  | separatedList (sep item : Expr) :
    HasLoop env (.separatedList sep item) (.list (sep.eval env) (item.eval env)) .list
  | separatedNonemptyList (sep item : Expr) :
    HasLoop env (.separatedNonemptyList sep item) (.nonemptyList (sep.eval env) (item.eval env))
      .list

/-- The loop of a repetition ends where no part of it grows its input. -/
theorem HasLoop.exists_endsOn {S : ι → Prop} {env : Env ι σ ε} {e : Expr} {β : Type}
    {loop : Loop ι ε (Value ι σ) β} {f : β → Value ι σ} (h : e.HasLoop env loop f)
    (hparts : ∀ part ∈ e.children, Parser.Keeps S (part.eval env)) :
    ∃ p, loop.EndsOn S p ∧ ∀ i, e.eval env i = (p i).map f := by
  cases h with
  | many0 e =>
    exact ⟨_, Loop.ends_collecting (hparts e (.head _)) .list .many0, fun _ => rfl⟩
  | many1 e =>
    exact ⟨_, Loop.ends_collectingOnce (hparts e (.head _)) .list, fun _ => rfl⟩
  | collectMany0 container e =>
    exact ⟨_, Loop.ends_collecting (hparts e (.head _)) container.collector .many0,
      fun _ => (Run.map_id _).symm⟩
  | collectMany1 container e =>
    exact ⟨_, Loop.ends_collectingOnce (hparts e (.head _)) container.collector,
      fun _ => (Run.map_id _).symm⟩
  | foldMany0 folding e =>
    exact ⟨_, Loop.ends_collecting (hparts e (.head _)) (.folding folding.start folding.step)
      .many0, fun _ => (Run.map_id _).symm⟩
  | manyMN e hle => exact ⟨_, Loop.ends_bounded (hparts e (.head _)) hle, fun _ => rfl⟩
  | manyTill e terminator =>
    exact ⟨_, Loop.ends_till (hparts e (.head _)) (terminator.eval env), fun _ => rfl⟩
  | separatedList sep item =>
    exact ⟨_, Loop.ends_list (hparts sep (.head _)) (hparts item (.tail _ (.head _))),
      fun _ => rfl⟩
  | separatedNonemptyList sep item =>
    exact ⟨_, Loop.ends_nonemptyList (hparts sep (.head _)) (hparts item (.tail _ (.head _))),
      fun _ => rfl⟩

end ParseKit.Expr
