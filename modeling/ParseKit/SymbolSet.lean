/-
  Sets of symbols and tests on symbols.

  Both are described without naming a kind of symbol, so one description
  serves every kind of input.
-/
import ParseKit.Symbol

set_option autoImplicit false

namespace ParseKit

variable {σ : Type} [Symbol σ]

/-! ## Sets -/

/-- A finite set of symbols. -/
inductive SymbolSet
  /-- The symbols that stand for a character of the text. -/
  | text (chars : List Char)
  /-- The symbols with one of the codes. -/
  | codes (members : List Nat)
  deriving DecidableEq, Repr

/-- Whether a symbol is a member.  A text is searched character by character for every kind of
symbol; on bytes and ASCII characters that is the same as a search of its UTF-8 form. -/
def SymbolSet.contains (set : SymbolSet) (s : σ) : Bool :=
  match set with
  | .text chars => chars.any (Symbol.standsFor s)
  | .codes members => members.contains (Symbol.code s)

/-! ## Tests -/

/-- A test on single symbols. -/
inductive Pred
  | any
  | none
  | inClass (cls : CharClass)
  /-- The symbol stands for the character. -/
  | standsFor (c : Char)
  | member (set : SymbolSet)
  /-- A test on the code of the symbol. -/
  | code (test : Nat → Bool)
  | not (p : Pred)
  | or (p q : Pred)

namespace Pred

/-- The symbols with a code from `lo` to `hi`, both included. -/
def range (lo hi : Nat) : Pred := .code fun n => lo ≤ n && n ≤ hi

/-- Whether a symbol passes the test. -/
def holds : Pred → σ → Bool
  | .any, _ => true
  | .none, _ => false
  | .inClass cls, s => Symbol.isIn cls s
  | .standsFor c, s => Symbol.standsFor s c
  | .member set, s => set.contains s
  | .code test, s => test (Symbol.code s)
  | .not p, s => !p.holds s
  | .or p q, s => p.holds s || q.holds s

end Pred

end ParseKit
