/-
  Text as an input: characters, measured in the bytes of their UTF-8 form.
-/
import ParseKit.Input.Basic

set_option autoImplicit false

namespace ParseKit

/-- A view of text. -/
structure Text where
  chars : List Char
  deriving DecidableEq, Repr

namespace Text

/-- The view of all of a string. -/
def ofString (s : String) : Text := ⟨s.toList⟩

/-- The text of the view. -/
def asString (t : Text) : String := String.ofList t.chars

/-- One text behind the other. -/
def append (t u : Text) : Text := ⟨t.chars ++ u.chars⟩

/-! ## Offsets in bytes -/

/-- The number of bytes of a run of characters. -/
def width : List Char → Nat
  | [] => 0
  | c :: cs => c.utf8Size + width cs

/-- Whether an offset falls between two characters or at an end. -/
def onBoundary : List Char → Nat → Bool
  | _, 0 => true
  | [], _ + 1 => false
  | c :: cs, n + 1 => c.utf8Size ≤ n + 1 && onBoundary cs (n + 1 - c.utf8Size)

/-- The longest run of whole characters that fits into so many bytes, and what follows. -/
def splitBytes : List Char → Nat → List Char × List Char
  | [], _ => ([], [])
  | c :: cs, n =>
    if c.utf8Size ≤ n then
      let parts := splitBytes cs (n - c.utf8Size)
      (c :: parts.1, parts.2)
    else ([], c :: cs)

/-- Splitting loses nothing. -/
theorem splitBytes_append (cs : List Char) (n : Nat) :
    (splitBytes cs n).1 ++ (splitBytes cs n).2 = cs := by
  fun_induction splitBytes cs n with
  | case1 => rfl
  | case2 c cs n _ _ ih => exact congrArg (c :: ·) ih
  | case3 => rfl

/-- At a boundary the first part has the width asked for. -/
theorem width_splitBytes {cs : List Char} {n : Nat} (h : onBoundary cs n = true) :
    width (splitBytes cs n).1 = n := by
  fun_induction onBoundary cs n with
  | case1 cs =>
    cases cs with
    | nil => rfl
    | cons c cs =>
      have := c.utf8Size_pos
      rw [splitBytes, if_neg (by omega)]
      rfl
  | case2 => cases h
  | case3 c cs n ih =>
    rw [Bool.and_eq_true, decide_eq_true_eq] at h
    rw [splitBytes, if_pos h.1, width, ih h.2]
    omega

/-- The characters with their offsets, the first at `offset`. -/
def indexedFrom (offset : Nat) : List Char → List (Nat × Char)
  | [] => []
  | c :: cs => (offset, c) :: indexedFrom (offset + c.utf8Size) cs

/-- The UTF-8 form. -/
def utf8 (cs : List Char) : List UInt8 := cs.flatMap String.utf8EncodeChar

end Text

instance : Input Text Char where
  length t := Text.width t.chars
  isBoundary t n := Text.onBoundary t.chars n
  splitAt t n := (⟨(Text.splitBytes t.chars n).1⟩, ⟨(Text.splitBytes t.chars n).2⟩)
  indexed t := Text.indexedFrom 0 t.chars
  bytes t := some (Text.utf8 t.chars)

end ParseKit
