/-
  Lists with separators.

  A separator is taken only together with the item behind it, so a separator
  that no item follows is left in the remainder.
-/
import ParseKit.Parser.Basic

set_option autoImplicit false

namespace ParseKit.Parser

variable {ι σ ε α β : Type} [Input ι σ] [ParseError ε ι]

/-- The items of a list after its first one, each behind a separator. -/
def separatedTail (sep : Parser ι ε β) (item : Parser ι ε α) : Parser ι ε (List α) := fun i =>
  (sep i).handle
    (fun _ afterSep =>
      if _ : Input.length afterSep < Input.length i then
        (item afterSep).handle
          (fun value rest =>
            if _ : Input.length rest < Input.length afterSep then
              (separatedTail sep item rest).map (value :: ·)
            else .stalled .itemStalled .separatedList i afterSep rest)
          fun _ => Run.noting (.trailingSeparator (Input.length i)) (.success [] i)
      else .stalled .separatorStalled .separatedList i i afterSep)
    fun _ => .success [] i
termination_by i => Input.length i
decreasing_by omega

/-- A list whose first item was found between `i` and `rest`. -/
def separatedAfter (sep : Parser ι ε β) (item : Parser ι ε α) (i : ι) (first : α) (rest : ι) :
    Run ι ε (List α) :=
  if Input.length rest < Input.length i then (separatedTail sep item rest).map (first :: ·)
  else .stalled .firstItemStalled .separatedList i i rest

/-- A list that may be empty. -/
def separatedList (sep : Parser ι ε β) (item : Parser ι ε α) : Parser ι ε (List α) := fun i =>
  (item i).handle (separatedAfter sep item i) fun _ => .success [] i

/-- A list with one item at least. -/
def separatedNonemptyList (sep : Parser ι ε β) (item : Parser ι ε α) : Parser ι ε (List α) :=
  fun i => (item i).andThen (separatedAfter sep item i)

end ParseKit.Parser
