/-
  Failures: the three ways a parser can fail.

  A recoverable failure lets another alternative be tried, a fatal one does
  not, and an incomplete one asks for more input before anything is decided.
-/

set_option autoImplicit false

namespace ParseKit

/-- A failure, with an error of type `ε` unless it only asks for more input. -/
inductive Failure (ε : Type)
  /-- More input is needed to decide. -/
  | incomplete
  /-- Something else may be tried at the same place. -/
  | recoverable (error : ε)
  /-- Nothing else is to be tried. -/
  | fatal (error : ε)
  deriving BEq, DecidableEq, Repr

namespace Failure

variable {ε ε' : Type}

def isIncomplete : Failure ε → Bool
  | .incomplete => true
  | _ => false

def isRecoverable : Failure ε → Bool
  | .recoverable _ => true
  | _ => false

def isFatal : Failure ε → Bool
  | .fatal _ => true
  | _ => false

/-- The error, of a failure that has one. -/
def error? : Failure ε → Option ε
  | .incomplete => none
  | .recoverable error => some error
  | .fatal error => some error

/-- Changes the error and keeps the state. -/
def map (f : ε → ε') : Failure ε → Failure ε'
  | .incomplete => .incomplete
  | .recoverable error => .recoverable (f error)
  | .fatal error => .fatal (f error)

/-- Turns a recoverable failure into a fatal one. -/
def intoFatal : Failure ε → Failure ε
  | .recoverable error => .fatal error
  | other => other

end Failure

end ParseKit
