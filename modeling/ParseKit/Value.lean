/-
  Values: what parser expressions produce.

  A value may hold pieces of the input and symbols, so its type depends on
  both.  A literal is a value that holds neither and so fits every input.
-/
import ParseKit.Input.Basic
import ParseKit.Tree

set_option autoImplicit false

namespace ParseKit

/-- A parsed value over inputs `ι` with symbols `σ`. -/
inductive Value (ι σ : Type)
  /-- A part of the input. -/
  | piece (i : ι)
  | symbol (s : σ)
  | char (c : Char)
  | unit
  /-- An option without content. -/
  | absent
  /-- An option with content. -/
  | present (content : Value ι σ)
  | int (n : Int)
  | bool (b : Bool)
  | str (s : String)
  | list (items : List (Value ι σ))
  | tuple (items : List (Value ι σ))

/-- A value that holds no part of an input. -/
abbrev Literal := Value Empty Empty

namespace Value

variable {ι σ κ τ : Type}

/-! ## Change of input -/

mutual

/-- Changes the pieces and the symbols a value holds. -/
def map (f : ι → κ) (g : σ → τ) : Value ι σ → Value κ τ
  | .piece i => .piece (f i)
  | .symbol s => .symbol (g s)
  | .char c => .char c
  | .unit => .unit
  | .absent => .absent
  | .present content => .present (content.map f g)
  | .int n => .int n
  | .bool b => .bool b
  | .str s => .str s
  | .list items => .list (mapAll f g items)
  | .tuple items => .tuple (mapAll f g items)

/-- Changes the pieces and the symbols of every value of a list. -/
def mapAll (f : ι → κ) (g : σ → τ) : List (Value ι σ) → List (Value κ τ)
  | [] => []
  | value :: more => value.map f g :: mapAll f g more

end

/-- A literal as a value over any input. -/
def ofLiteral (literal : Literal) : Value ι σ := literal.map Empty.elim Empty.elim

/-- An optional value. -/
def ofOption : Option (Value ι σ) → Value ι σ
  | none => .absent
  | some content => .present content

/-! ## Text and size -/

mutual

/-- The text of a value: pieces and symbols as they are spelled, numbers in decimal, and the
texts of the parts of a list or tuple one after the other. -/
def text [Input ι σ] [Symbol σ] : Value ι σ → String
  | .piece i => Input.spell i
  | .symbol s => Symbol.spell [s]
  | .char c => c.toString
  | .unit => ""
  | .absent => ""
  | .present content => content.text
  | .int n => toString n
  | .bool b => if b then "true" else "false"
  | .str s => s
  | .list items => textAll items
  | .tuple items => textAll items

/-- The texts of some values one after the other. -/
def textAll [Input ι σ] [Symbol σ] : List (Value ι σ) → String
  | [] => ""
  | value :: more => value.text ++ textAll more

end

/-- The size of a value: the length of a piece or of a string in storage units, the number of
parts of a list or tuple, nothing for an empty value and one for any other. -/
def size [Input ι σ] : Value ι σ → Nat
  | .piece i => Input.length i
  | .str s => s.utf8ByteSize
  | .list items => items.length
  | .tuple items => items.length
  | .unit => 0
  | .absent => 0
  | _ => 1

/-! ## Nested pairs -/

/-- The values of nested pairs from left to right, read along a shape. -/
def flatten : Tree Unit → Value ι σ → List (Value ι σ)
  | .node left right, .tuple [a, b] => flatten left a ++ flatten right b
  | _, value => [value]

end Value

end ParseKit
