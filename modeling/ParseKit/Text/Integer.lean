/-
  Decimal integers with a range.

  An optional sign, then ASCII digits and nothing else.  Leading zeros are
  allowed; an empty text, a lone sign and a value outside the range are
  refused.  A range without negative numbers has no minus sign at all, so
  even `-0` is refused there.
-/

set_option autoImplicit false

namespace ParseKit.Text.Integer

/-- The integers from `least` to `greatest`. -/
structure Range where
  least : Int
  greatest : Int
  deriving DecidableEq, Repr

/-- The numbers held by `bits` bits. -/
def Range.unsigned (bits : Nat) : Range := ⟨0, Int.ofNat (Nat.pow 2 bits) - 1⟩

/-- The numbers held by `bits` bits in two's complement. -/
def Range.signed (bits : Nat) : Range :=
  ⟨-Int.ofNat (Nat.pow 2 (bits - 1)), Int.ofNat (Nat.pow 2 (bits - 1)) - 1⟩

/-- Whether a number lies in the range. -/
def Range.contains (r : Range) (n : Int) : Bool := r.least ≤ n && n ≤ r.greatest

/-- The value of a nonempty run of ASCII digits. -/
def digits? (cs : List Char) : Option Nat :=
  if cs.isEmpty || !cs.all Char.isDigit then none
  else some (cs.foldl (fun n c => 10 * n + (c.toNat - '0'.toNat)) 0)

/-- The integer that a text spells, before its range is checked. -/
def signed? (r : Range) : List Char → Option Int
  | '+' :: cs => (digits? cs).map Int.ofNat
  | '-' :: cs => if r.least < 0 then (digits? cs).map fun n => -(n : Int) else none
  | cs => (digits? cs).map Int.ofNat

/-- The integer that a text spells, if the range holds it. -/
def read? (r : Range) (text : String) : Option Int :=
  (signed? r text.toList).filter r.contains

end ParseKit.Text.Integer
