/-
  Comparing the head of an input with a literal pattern of bytes.

  The two are compared over their common length first, so an input that is
  too short but agrees so far is told apart from one that differs.  A match
  that would end inside a character of a text is a mismatch.
-/
import ParseKit.Input.Basic

set_option autoImplicit false

namespace ParseKit

/-- The outcome of a comparison. -/
inductive Comparison
  /-- The input starts with the pattern, which spans so many storage units. -/
  | found (length : Nat)
  /-- The input is shorter than the pattern and agrees with it so far. -/
  | tooShort
  /-- The two differ somewhere in their common length. -/
  | mismatch
  deriving DecidableEq, Repr

/-- Whether letter case matters. -/
inductive CaseRule
  | exact
  /-- ASCII letters of both cases are equal. -/
  | ignored
  deriving DecidableEq, Repr

namespace Comparison

/-- A byte with ASCII upper case turned to lower case. -/
def lowerByte (b : UInt8) : UInt8 := if 65 ≤ b && b ≤ 90 then b + 32 else b

/-- Whether two bytes count as equal. -/
def sameByte : CaseRule → UInt8 → UInt8 → Bool
  | .exact, a, b => a == b
  | .ignored, a, b => lowerByte a == lowerByte b

/-- Compares two byte strings from their starts. -/
def ofBytes (rule : CaseRule) (input pattern : List UInt8) : Comparison :=
  if !(input.zip pattern).all fun pair => sameByte rule pair.1 pair.2 then .mismatch
  else if input.length < pattern.length then .tooShort
  else .found pattern.length

end Comparison

/-- Compares the start of an input with a pattern.  An input that is not stored as bytes
matches no pattern. -/
def Input.compare {ι σ : Type} [Input ι σ] (rule : CaseRule) (i : ι) (pattern : List UInt8) :
    Comparison :=
  match Input.bytes i with
  | none => .mismatch
  | some bytes =>
    match Comparison.ofBytes rule bytes pattern with
    | .found length => if Input.isBoundary i length then .found length else .mismatch
    | other => other

end ParseKit
