/-
  Ordered choice between parsers.
-/
import ParseKit.Parser.Basic

set_option autoImplicit false

namespace ParseKit.Parser

variable {ι σ ε α : Type} [Input ι σ] [ParseError ε ι]

/-- The first parser, or the second one where the first fails recoverably. -/
def either (p q : Parser ι ε α) : Parser ι ε α := fun i =>
  (p i).handle .success fun _ => Run.noting (.alternativeFailed (Input.length i)) (q i)

/-- Marks the end of a choice: its recoverable failure gets a level of its own. -/
def choice (p : Parser ι ε α) : Parser ι ε α := fun i =>
  (p i).handle .success fun e =>
    Run.noting (.allAlternativesFailed (Input.length i))
      (.recoverable (ParseError.wrap e i .alt))

end ParseKit.Parser
