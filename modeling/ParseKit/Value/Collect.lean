/-
  Containers and folds: what is made of the values of a repetition.
-/
import ParseKit.Parser.Repeat
import ParseKit.Value.Coded

set_option autoImplicit false

namespace ParseKit

variable {ι σ : Type} [Input ι σ] [Symbol σ]

/-! ## Containers -/

/-- What the values of a repetition are collected into. -/
inductive Container
  /-- All values in order. -/
  | list
  /-- The texts of the values one after the other. -/
  | text
  /-- The different texts of the values, sorted. -/
  | set
  /-- Nothing. -/
  | unit
  /-- All contents, or nothing as soon as an option without content comes. -/
  | option
  /-- The first values only; no more than so many are requested. -/
  | first (limit : Nat)
  /-- All values, and the number of values that so many further requests bring. -/
  | insistent (requests : Nat)
  /-- A collection from outside: whether it requests another value, seeing those it has; how
  many further requests it makes; and its result, seeing the values and the number of those the
  further requests brought. -/
  | outside (wants : Coded → Bool) (requests : Nat) (finish : Coded → Template)

namespace Container

/-- Puts a text into a sorted list unless it is there. -/
def insertText (text : String) : List String → List String
  | [] => [text]
  | other :: more =>
    if text < other then text :: other :: more
    else if text = other then other :: more
    else other :: insertText text more

/-- The different texts of some values, sorted by code points. -/
def texts (items : List (Value ι σ)) : List String :=
  items.foldl (fun sorted item => insertText item.text sorted) []

/-- Whether a value is an option without content. -/
def isAbsent : Value ι σ → Bool
  | .absent => true
  | _ => false

/-- The content of an option; any other value stands for itself. -/
def content : Value ι σ → Value ι σ
  | .present inner => inner
  | value => value

/-- Whether a container requests another value, given the values it has, last one first. -/
def wants : Container → List (Value ι σ) → Bool
  | .option, collected => !(collected.head?.any isAbsent)
  | .first limit, collected => collected.length < limit
  | .outside wants _ _, collected => wants (Value.list collected.reverse).coded
  | _, _ => true

/-- What a container makes of the values it has. -/
def finish (container : Container) (items : List (Value ι σ)) (extra : Nat) : Value ι σ :=
  match container with
  | .list => .list items
  | .text => .str (Value.textAll items)
  | .set => .list ((texts items).map .str)
  | .unit => .unit
  | .option => if items.any isAbsent then .absent else .present (.list (items.map content))
  | .first _ => .list items
  | .insistent _ => .tuple [.list items, .int extra]
  | .outside _ _ finish => (Value.tuple [.list items, .int extra]).applyOutside finish

/-- How often a container requests a value again after the last one. -/
def extraRequests : Container → Nat
  | .insistent requests => requests
  | .outside _ requests _ => requests
  | _ => 0

/-- The strategy of a container.  It holds the values it has, last one first. -/
def collector (container : Container) :
    Collector (Value ι σ) (List (Value ι σ)) (Value ι σ) where
  start := []
  wants := container.wants
  push collected value := value :: collected
  extra := container.extraRequests
  finish collected extra := container.finish collected.reverse extra

end Container

/-! ## Folds -/

/-- A value built up from the values of a repetition. -/
inductive Folding
  /-- The number of values. -/
  | count
  /-- The sum of their sizes. -/
  | sumSize
  /-- Their texts, each with a semicolon behind it. -/
  | concat
  /-- Pairs nested to the left. -/
  | nest
  /-- A fold from outside; a step sees the result so far and the value, as a pair. -/
  | outside (start : Literal) (step : Coded → Template)

namespace Folding

/-- The value before the first step. -/
def start : Folding → Value ι σ
  | .count => .int 0
  | .sumSize => .int 0
  | .concat => .str ""
  | .nest => .unit
  | .outside start _ => .ofLiteral start

/-- The value after one more. -/
def step : Folding → Value ι σ → Value ι σ → Value ι σ
  | .count, .int n, _ => .int (n + 1)
  | .sumSize, .int n, value => .int (n + value.size)
  | .concat, .str s, value => .str (s ++ value.text ++ ";")
  | .nest, result, value => .tuple [result, value]
  | .outside _ step, result, value => (Value.tuple [result, value]).applyOutside step
  | _, result, _ => result

end Folding

end ParseKit
