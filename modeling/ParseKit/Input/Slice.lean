/-
  Slices as inputs: lists of symbols, measured in elements.

  An element is one storage unit, so positions and symbol counts are offsets
  already and both searches have a shorter form than the general one.
-/
import ParseKit.Input.Basic

set_option autoImplicit false

namespace ParseKit

/-- The elements with their offsets, the first at `offset`. -/
def Indexed.number {σ : Type} (offset : Nat) : List σ → List (Nat × σ)
  | [] => []
  | s :: rest => (offset, s) :: number (offset + 1) rest

instance {σ : Type} [Symbol σ] : Input (List σ) σ where
  length := List.length
  isBoundary i n := n ≤ i.length
  splitAt i n := (i.take n, i.drop n)
  indexed i := Indexed.number 0 i
  bytes i := (Symbol.byte? (σ := σ)).map fun byte => i.map byte
  position p i := i.findIdx? p
  sliceIndex count i := if count ≤ i.length then some count else none

end ParseKit
