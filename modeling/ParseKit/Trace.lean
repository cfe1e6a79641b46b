/-
  Traces: what a parse logs on its way.

  A run logs signals in order: a span is entered, an event happens, a span
  is left.  Numbering turns the signals into records, each with the number
  of spans open around it.
-/
import ParseKit.ErrorKind

set_option autoImplicit false

namespace ParseKit

/-! ## Signals -/

/-- How much attention a record asks for. -/
inductive Level
  | trace
  | debug
  deriving DecidableEq, Repr

/-- Something worth noting that is not seen in the result.  Lengths and kinds are those of
the place where it happens. -/
inductive Event
  /-- A traced parser succeeded. -/
  | matched (consumed : Nat)
  /-- A traced parser asked for more input. -/
  | incomplete
  /-- A traced parser failed recoverably. -/
  | noMatch (kind : ErrorKind)
  /-- A traced parser failed fatally. -/
  | fatal (kind : ErrorKind)
  | optionalMissed
  | alternativeFailed (remaining : Nat)
  | allAlternativesFailed (remaining : Nat)
  | repetitionEnded (remaining : Nat)
  | repetitionStalled (kind : ErrorKind)
  | separatorStalled
  | itemStalled
  | firstItemStalled
  | trailingSeparator (remaining : Nat)
  deriving DecidableEq, Repr

/-- One entry of a log. -/
inductive Signal
  /-- A span opens around a traced parser, which is given an input of the length. -/
  | enter (rule : String) (length : Nat)
  | event (e : Event)
  /-- The innermost open span closes. -/
  | leave
  deriving DecidableEq, Repr

namespace Event

/-- Parsers that would repeat for ever, and choices without a way out, ask for more
attention than a parse taking its normal course. -/
def level : Event → Level
  | .allAlternativesFailed _ => .debug
  | .repetitionStalled _ => .debug
  | .separatorStalled => .debug
  | .itemStalled => .debug
  | .firstItemStalled => .debug
  | _ => .trace

def message : Event → String
  | .matched _ => "matched"
  | .incomplete => "incomplete"
  | .noMatch _ => "no match"
  | .fatal _ => "fatal"
  | .optionalMissed => "optional parser did not match"
  | .alternativeFailed _ => "alternative failed, backtracking"
  | .allAlternativesFailed _ => "all alternatives failed"
  | .repetitionEnded _ => "repetition ended"
  | .repetitionStalled _ => "repeated parser consumed nothing"
  | .separatorStalled => "separator consumed nothing"
  | .itemStalled => "item consumed nothing"
  | .firstItemStalled => "first item consumed nothing"
  | .trailingSeparator _ => "discarding trailing separator"

/-- A length an event carries, with its name. -/
def measure? : Event → Option (String × Nat)
  | .matched consumed => some ("consumed", consumed)
  | .alternativeFailed remaining => some ("remaining", remaining)
  | .allAlternativesFailed remaining => some ("remaining", remaining)
  | .repetitionEnded remaining => some ("remaining", remaining)
  | .trailingSeparator remaining => some ("remaining", remaining)
  | _ => none

/-- The kind an event carries. -/
def kind? : Event → Option ErrorKind
  | .noMatch kind => some kind
  | .fatal kind => some kind
  | .repetitionStalled kind => some kind
  | .separatorStalled => some .separatedList
  | .itemStalled => some .separatedList
  | .firstItemStalled => some .separatedList
  | _ => none

end Event

/-! ## Records -/

/-- A numbered entry: what happened below how many open spans. -/
inductive Record
  | span (depth : Nat) (rule : String) (length : Nat)
  | event (depth : Nat) (e : Event)
  deriving DecidableEq, Repr

/-- The number of spans open after a log, given the number before. -/
def Signal.depthAfter (depth : Nat) : List Signal → Nat
  | [] => depth
  | .enter _ _ :: rest => depthAfter (depth + 1) rest
  | .event _ :: rest => depthAfter depth rest
  | .leave :: rest => depthAfter (depth - 1) rest

/-- The records of a log that begins below `depth` open spans. -/
def Record.ofSignals (depth : Nat) : List Signal → List Record
  | [] => []
  | .enter rule length :: rest => .span depth rule length :: ofSignals (depth + 1) rest
  | .event e :: rest => .event depth e :: ofSignals depth rest
  | .leave :: rest => ofSignals (depth - 1) rest

theorem Signal.depthAfter_append (depth : Nat) (log log' : List Signal) :
    depthAfter depth (log ++ log') = depthAfter (depthAfter depth log) log' := by
  fun_induction depthAfter depth log with
  | case1 => rfl
  | case2 depth rule length rest ih => exact ih
  | case3 depth e rest ih => exact ih
  | case4 depth rest ih => exact ih

theorem Record.ofSignals_append (depth : Nat) (log log' : List Signal) :
    ofSignals depth (log ++ log') =
      ofSignals depth log ++ ofSignals (Signal.depthAfter depth log) log' := by
  fun_induction ofSignals depth log with
  | case1 => rfl
  | case2 depth rule length rest ih => exact congrArg (Record.span depth rule length :: ·) ih
  | case3 depth e rest ih => exact congrArg (Record.event depth e :: ·) ih
  | case4 depth rest ih => exact ih

end ParseKit
