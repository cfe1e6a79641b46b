/-
  Parsers one after the other.

  Each part starts where the one before it ended, and the first failure is
  the failure of the whole, unchanged.
-/
import ParseKit.Parser.Basic

set_option autoImplicit false

namespace ParseKit.Parser

variable {ι ε α β γ : Type}

/-- Two parsers and both values. -/
def pair (p : Parser ι ε α) (q : Parser ι ε β) : Parser ι ε (α × β) := fun i =>
  (p i).andThen fun a rest => (q rest).map fun b => (a, b)

/-- Two parsers with a separator between them. -/
def separatedPair (p : Parser ι ε α) (sep : Parser ι ε β) (q : Parser ι ε γ) :
    Parser ι ε (α × γ) := fun i =>
  (p i).andThen fun a rest =>
    (sep rest).andThen fun _ rest => (q rest).map fun c => (a, c)

/-- A parser between two others whose values are dropped. -/
def delimited (left : Parser ι ε α) (p : Parser ι ε β) (right : Parser ι ε γ) :
    Parser ι ε β := fun i =>
  (left i).andThen fun _ rest =>
    (p rest).andThen fun b rest => (right rest).map fun _ => b

/-- A parser behind one whose value is dropped. -/
def preceded (left : Parser ι ε α) (p : Parser ι ε β) : Parser ι ε β := fun i =>
  (left i).andThen fun _ rest => p rest

/-- A parser before one whose value is dropped. -/
def terminated (p : Parser ι ε α) (right : Parser ι ε β) : Parser ι ε α := fun i =>
  (p i).andThen fun a rest => (right rest).map fun _ => a

end ParseKit.Parser
