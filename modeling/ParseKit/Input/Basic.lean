/-
  Inputs: immutable views of a sequence of symbols.

  Consuming symbols never changes a view; it splits the view into the part
  taken and the remainder.  Lengths and offsets count storage units: bytes
  of UTF-8 text, elements of a slice.  A split is meaningful at a symbol
  boundary only.
-/
import ParseKit.Symbol

set_option autoImplicit false

namespace ParseKit

/-! ## Scans over offsets and symbols -/

namespace Indexed

variable {σ : Type}

/-- The offset of the first symbol that passes the test. -/
def firstOffset (p : σ → Bool) : List (Nat × σ) → Option Nat
  | [] => none
  | (offset, s) :: rest => if p s then some offset else firstOffset p rest

/-- The offset after `count` symbols of a run that ends at offset `stop`; none if the run
is shorter. -/
def offsetAfter (stop : Nat) : Nat → List (Nat × σ) → Option Nat
  | 0, [] => some stop
  | _ + 1, [] => none
  | 0, (offset, _) :: _ => some offset
  | count + 1, _ :: rest => offsetAfter stop count rest

end Indexed

/-! ## The class of inputs -/

/-- A view of a sequence of symbols. -/
class Input (ι : Type) (σ : outParam Type) where
  /-- The length in storage units. -/
  length : ι → Nat
  /-- Whether the view may be split at an offset: between two symbols or at an end. -/
  isBoundary : ι → Nat → Bool
  /-- The part before an offset and the part from it on. -/
  splitAt : ι → Nat → ι × ι
  /-- The symbols in order, each with the offset it starts at. -/
  indexed : ι → List (Nat × σ)
  /-- The stored bytes, for kinds that are stored as bytes. -/
  bytes : ι → Option (List UInt8)
  /-- The offset of the first symbol that passes the test. -/
  position : (σ → Bool) → ι → Option Nat := fun p i => Indexed.firstOffset p (indexed i)
  /-- The offset just after the first symbols, if there are so many. -/
  sliceIndex : Nat → ι → Option Nat :=
    fun count i => Indexed.offsetAfter (length i) count (indexed i)

namespace Input

variable {ι σ : Type} [Input ι σ]

/-- Whether no symbol is left. -/
def isEmpty (i : ι) : Bool := length i == 0

/-- The symbols in order. -/
def symbols (i : ι) : List σ := (indexed i).map (·.2)

/-- The part of a view from offset `start` to offset `stop`. -/
def between (i : ι) (start stop : Nat) : ι := (splitAt (splitAt i stop).1 start).2

/-- The content as plain text. -/
def spell [Symbol σ] (i : ι) : String := Symbol.spell (symbols i)

/-- The content as it is shown inside a message. -/
def quote [Symbol σ] (i : ι) : String := Symbol.quote (symbols i)

end Input

end ParseKit
