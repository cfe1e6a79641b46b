/-
  Functions on values that are given from outside.

  Such a function sees a value with codes in place of its symbols, and
  answers with a template: a value in which pieces and symbols of the
  argument may stand in any place, as often as wanted.  Given in this way, a
  function fits every kind of input.
-/
import ParseKit.Value

set_option autoImplicit false

namespace ParseKit

/-- A value with codes in place of symbols; a piece is the list of its codes. -/
abbrev Coded := Value (List Nat) Nat

/-- A value to be made of another one, whose pieces and symbols it refers to by number. -/
abbrev Template := Value Nat Empty

namespace Value

variable {ι σ : Type}

/-- A value as it is seen from outside. -/
def coded [Input ι σ] [Symbol σ] (value : Value ι σ) : Coded :=
  value.map (fun i => (Input.symbols i).map Symbol.code) Symbol.code

/-! ## Templates -/

mutual

/-- The pieces and the symbols a value holds, from left to right. -/
def leaves : Value ι σ → List (Value ι σ)
  | .piece i => [.piece i]
  | .symbol s => [.symbol s]
  | .present content => content.leaves
  | .list items => leavesAll items
  | .tuple items => leavesAll items
  | _ => []

/-- The pieces and the symbols some values hold. -/
def leavesAll : List (Value ι σ) → List (Value ι σ)
  | [] => []
  | value :: more => value.leaves ++ leavesAll more

end

mutual

/-- A template with leaves put where it refers to them; unit where there is none. -/
def fill (leaves : List (Value ι σ)) : Template → Value ι σ
  | .piece index => leaves[index]?.getD .unit
  | .symbol s => s.elim
  | .char c => .char c
  | .unit => .unit
  | .absent => .absent
  | .present content => .present (fill leaves content)
  | .int n => .int n
  | .bool b => .bool b
  | .str s => .str s
  | .list items => .list (fillAll leaves items)
  | .tuple items => .tuple (fillAll leaves items)

/-- Templates with leaves put where they refer to them. -/
def fillAll (leaves : List (Value ι σ)) : List Template → List (Value ι σ)
  | [] => []
  | template :: more => fill leaves template :: fillAll leaves more

end

/-- The value a function from outside makes of a value. -/
def applyOutside [Input ι σ] [Symbol σ] (f : Coded → Template) (value : Value ι σ) : Value ι σ :=
  fill value.leaves (f value.coded)

end Value

end ParseKit
