/-
  Functions on values: mappings, conversions and checks.
-/
import ParseKit.Text.Integer
import ParseKit.Value.Coded

set_option autoImplicit false

namespace ParseKit

variable {ι σ : Type} [Input ι σ] [Symbol σ]

/-! ## Mappings -/

/-- A function from values to values. -/
inductive Mapping
  /-- The text. -/
  | text
  /-- The size. -/
  | size
  /-- The text in ASCII upper case. -/
  | upper
  /-- A list backwards; other values stay as they are. -/
  | reverse
  /-- A part of a list or tuple, counted from zero; unit if there is none. -/
  | nth (index : Nat)
  /-- The value behind a label. -/
  | label (name : String)
  /-- A function from outside. -/
  | outside (f : Coded → Template)

/-- The value a mapping makes of a value. -/
def Mapping.apply : Mapping → Value ι σ → Value ι σ
  | .text, value => .str value.text
  | .size, value => .int value.size
  | .upper, value => .str (String.ofList (value.text.toList.map Char.toUpper))
  | .reverse, .list items => .list items.reverse
  | .reverse, value => value
  | .nth index, .list items => items[index]?.getD .unit
  | .nth index, .tuple items => items[index]?.getD .unit
  | .nth _, _ => .unit
  | .label name, value => .tuple [.str name, value]
  | .outside f, value => value.applyOutside f

/-! ## Conversions -/

/-- A function from values to values that may refuse a value. -/
inductive Conversion
  /-- The integer a text spells, if the range holds it. -/
  | integer (range : Text.Integer.Range)
  /-- Values of a size other than zero, as they are. -/
  | nonempty
  /-- The character with an integer as its code. -/
  | codePoint
  /-- A function from outside. -/
  | outside (f : Coded → Option Template)

/-- The value a conversion makes of a value. -/
def Conversion.result? : Conversion → Value ι σ → Option (Value ι σ)
  | .integer range, value => (Text.Integer.read? range value.text).map .int
  | .nonempty, value => if 0 < value.size then some value else none
  | .codePoint, .int n =>
    if 0 ≤ n ∧ n.toNat.isValidChar then some (.char (Char.ofNat n.toNat)) else none
  | .codePoint, _ => none
  | .outside f, value => (f value.coded).map (Value.fill value.leaves)

/-! ## Checks -/

/-- A test of a value. -/
inductive Check
  | constant (answer : Bool)
  | sizeAtMost (bound : Nat)
  | sizeAtLeast (bound : Nat)
  | textIs (text : String)
  /-- Only integers can pass. -/
  | intBelow (bound : Int)
  /-- A test from outside. -/
  | outside (test : Coded → Bool)

/-- Whether a value passes. -/
def Check.holds : Check → Value ι σ → Bool
  | .constant answer, _ => answer
  | .sizeAtMost bound, value => value.size ≤ bound
  | .sizeAtLeast bound, value => bound ≤ value.size
  | .textIs text, value => value.text == text
  | .intBelow bound, .int n => n < bound
  | .intBelow _, _ => false
  | .outside test, value => test value.coded

end ParseKit
