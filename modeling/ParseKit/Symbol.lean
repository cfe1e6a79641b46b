/-
  Symbols: the units an input is a sequence of.

  A symbol has a code, may read as a character and may be stored in one
  byte.  Four kinds are symbols here: characters, ASCII characters, bytes
  and 32-bit words.  The character classes are ASCII classes of the
  character a symbol reads as, so a symbol that reads as none is in none.
-/
import ParseKit.Text.Quoted

set_option autoImplicit false

namespace ParseKit

/-- An ASCII character: a code below 128. -/
structure Ascii where
  code : Fin 128
  deriving DecidableEq, Repr

/-- The character with the code. -/
def Ascii.toChar (a : Ascii) : Char := Char.ofNat a.code.val

/-- The byte with the code. -/
def Ascii.toByte (a : Ascii) : UInt8 := UInt8.ofNat a.code.val

/-- What the parsers ask of a symbol. -/
class Symbol (σ : Type) where
  /-- The code point, byte or number.  Different symbols have different codes. -/
  code : σ → Nat
  /-- The character the symbol reads as, if its kind reads as text. -/
  char? : σ → Option Char
  /-- Whether the symbol stands for a given character. -/
  standsFor : σ → Char → Bool
  /-- The byte each symbol is stored in, for kinds that take one byte a symbol. -/
  byte? : Option (σ → UInt8)
  /-- A run of symbols as plain text. -/
  spell : List σ → String
  /-- A run of symbols as it is shown inside a message. -/
  quote : List σ → String

namespace Symbol

/-- Numbers between square brackets, each after the first behind a comma and a space. -/
def bracketed (numbers : List Nat) : String :=
  "[" ++ String.intercalate ", " (numbers.map Nat.repr) ++ "]"

/-- The character of a byte read as a code point. -/
def latin (b : UInt8) : Char := Char.ofNat b.toNat

end Symbol

instance : Symbol Char where
  code := Char.toNat
  char? := some
  standsFor s c := s == c
  byte? := none
  spell := String.ofList
  quote := Text.Quoted.encode

instance : Symbol Ascii where
  code s := s.code.val
  char? s := some s.toChar
  standsFor s c := s.toChar == c
  byte? := some Ascii.toByte
  spell s := String.ofList (s.map Ascii.toChar)
  quote s := Text.Quoted.encode (s.map Ascii.toChar)

/-- A byte reads as the character with its code, but it stands for ASCII characters only:
a byte above 127 is a part of a longer sequence, not a character. -/
instance : Symbol UInt8 where
  code := UInt8.toNat
  char? s := some (Symbol.latin s)
  standsFor s c := s.toNat < 128 && Symbol.latin s == c
  byte? := some id
  spell s := String.ofList (s.map Symbol.latin)
  quote s := Symbol.bracketed (s.map UInt8.toNat)

/-- A word is a number and reads as no character. -/
instance : Symbol UInt32 where
  code := UInt32.toNat
  char? _ := none
  standsFor _ _ := false
  byte? := none
  spell s := String.intercalate "," (s.map fun n => n.toNat.repr)
  quote s := Symbol.bracketed (s.map UInt32.toNat)

/-! ## Character classes -/

/-- The ASCII classes a symbol can be tested for. -/
inductive CharClass
  | alpha
  | digit
  | alphanum
  | space
  | newline
  | multispace
  deriving DecidableEq, Repr

/-- Whether a character is in the class; no character beyond ASCII is in any. -/
def CharClass.holds : CharClass → Char → Bool
  | .alpha, c => c.isAlpha
  | .digit, c => c.isDigit
  | .alphanum, c => c.isAlpha || c.isDigit
  | .space, c => c == ' ' || c == '\t'
  | .newline, c => c == '\n' || c == '\r'
  | .multispace, c => c == ' ' || c == '\t' || c == '\n' || c == '\r'

/-- Whether the character a symbol reads as is in the class. -/
def Symbol.isIn {σ : Type} [Symbol σ] (cls : CharClass) (s : σ) : Bool :=
  (Symbol.char? s).any cls.holds

end ParseKit
