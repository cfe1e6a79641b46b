/-
  Errors: where a parser failed and what it expected there.

  Two representations are given.  A cause keeps every level that was put
  around an error; a flat error keeps the innermost level alone.
-/
import ParseKit.ErrorKind
import ParseKit.Input.Basic

set_option autoImplicit false

namespace ParseKit

/-- What parsers ask of an error type. -/
class ParseError (ε : Type) (ι : outParam Type) where
  /-- The error of one level. -/
  ofKind : ι → ErrorKind → ε
  /-- Puts a level around an error. -/
  wrap : ε → ι → ErrorKind → ε
  /-- The position of the outermost level kept. -/
  position : ε → ι
  /-- The kind of the outermost level kept. -/
  kind : ε → ErrorKind
  /-- Position and kind of the innermost level. -/
  root : ε → ι × ErrorKind
  /-- The levels kept, outermost first. -/
  levels : ε → List (ErrorKind × ι)

namespace ParseError

variable {ι ε : Type} [ParseError ε ι]

/-- The innermost level alone. -/
def rooted (e : ε) : ε := ofKind (root e).1 (root e).2

end ParseError

/-! ## Causes -/

/-- An error with the levels put around it. -/
inductive Cause (ι : Type)
  /-- The level where the failure arose. -/
  | root (position : ι) (kind : ErrorKind)
  /-- A level around an error. -/
  | context (position : ι) (kind : ErrorKind) (inner : Cause ι)
  deriving BEq, DecidableEq, Repr

namespace Cause

variable {ι σ : Type}

def position : Cause ι → ι
  | .root position _ => position
  | .context position _ _ => position

def kind : Cause ι → ErrorKind
  | .root _ kind => kind
  | .context _ kind _ => kind

/-- The error one level further in. -/
def inner? : Cause ι → Option (Cause ι)
  | .root _ _ => none
  | .context _ _ inner => some inner

/-- Position and kind of the innermost level. -/
def rootLevel : Cause ι → ι × ErrorKind
  | .root position kind => (position, kind)
  | .context _ _ inner => inner.rootLevel

/-- The error and the errors inside it, outermost first. -/
def chain : Cause ι → List (Cause ι)
  | .root position kind => [.root position kind]
  | .context position kind inner => .context position kind inner :: inner.chain

/-- The kinds of the levels, outermost first. -/
def kinds (e : Cause ι) : List ErrorKind := e.chain.map kind

/-- The number of levels. -/
def depth (e : Cause ι) : Nat := e.chain.length

/-- The outermost level in words. -/
def message [Input ι σ] [Symbol σ] (e : Cause ι) : String :=
  "expected " ++ e.kind.description ++ " at " ++ Input.quote e.position

instance : ParseError (Cause ι) ι where
  ofKind := .root
  wrap e position kind := .context position kind e
  position := Cause.position
  kind := Cause.kind
  root := rootLevel
  levels e := e.chain.map fun level => (level.kind, level.position)

end Cause

/-! ## Flat errors -/

/-- A position and a kind. -/
abbrev Flat (ι : Type) := ι × ErrorKind

/-- A level put around a flat error is dropped, so the innermost level is what is kept. -/
instance {ι : Type} : ParseError (Flat ι) ι where
  ofKind position kind := (position, kind)
  wrap e _ _ := e
  position := Prod.fst
  kind := Prod.snd
  root := id
  levels e := [(e.2, e.1)]

end ParseKit
