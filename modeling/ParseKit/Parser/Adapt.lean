/-
  Parsers around one parser: values, lookahead, checks and ends of input.
-/
import ParseKit.Parser.Basic

set_option autoImplicit false

namespace ParseKit.Parser

variable {ι σ ε ε' α β : Type} [Input ι σ] [ParseError ε ι]

/-! ## Without looking -/

/-- Succeeds with a value and takes nothing. -/
def succeed (value : α) : Parser ι ε α := fun i => .success value i

/-- Fails recoverably with an error of a given kind. -/
def fail (kind : ErrorKind) : Parser ι ε α := fun i => .reject i kind

/-- Fails fatally with an error of a given kind. -/
def failFatally (kind : ErrorKind) : Parser ι ε α := fun i =>
  .failure (.fatal (ParseError.ofKind i kind))

/-- Asks for more input, whatever the input is. -/
def askForMore : Parser ι ε α := fun _ => .failure .incomplete

/-! ## Values -/

/-- Changes the value. -/
def map (f : α → β) (p : Parser ι ε α) : Parser ι ε β := fun i => (p i).map f

/-- Converts the value; a conversion that fails is an error where the parser began. -/
def mapRes (f : α → Option β) (p : Parser ι ε α) : Parser ι ε β := fun i =>
  (p i).andThen fun value rest =>
    match f value with
    | some converted => .success converted rest
    | none => .reject i .mapRes

/-- Puts a value in the place of the parsed one. -/
def replace (value : β) (p : Parser ι ε α) : Parser ι ε β := fun i => (p i).map fun _ => value

/-- Accepts a value that passes a check; any other is an error where the parser began. -/
def verify (check : α → Bool) (p : Parser ι ε α) : Parser ι ε α := fun i =>
  (p i).andThen fun value rest => if check value then .success value rest else .reject i .verify

/-- The part of the input that a parser takes, in the place of its value. -/
def recognize (p : Parser ι ε α) : Parser ι ε ι := fun i =>
  (p i).andThen fun _ rest =>
    match consumed? i rest with
    | some n => (cut n i).andThen fun piece _ => .success piece rest
    | none => .stuck .grown

/-! ## Failures -/

/-- Changes the error, of recoverable and fatal failures alike. -/
def mapError (f : ε → ε') (p : Parser ι ε α) : Parser ι ε' α := fun i =>
  (p i).mapFailure (Failure.map f)

/-- Puts a level around the error, of recoverable and fatal failures alike. -/
def context (kind : ErrorKind) (p : Parser ι ε α) : Parser ι ε α := fun i =>
  (p i).mapFailure (Failure.map fun e => ParseError.wrap e i kind)

/-- Turns recoverable failures into fatal ones. -/
def commit (p : Parser ι ε α) : Parser ι ε α := fun i => (p i).mapFailure Failure.intoFatal

/-- Takes the end of the input as final: a request for more input becomes a recoverable
failure where the parser began. -/
def complete (p : Parser ι ε α) : Parser ι ε α := fun i =>
  let run := p i
  match run.reply with
  | .failure .incomplete => (Run.reject i .eof).after run.log
  | _ => run

/-! ## Options and lookahead -/

/-- Makes a parser optional: a recoverable failure takes nothing and has no value. -/
def opt (p : Parser ι ε α) : Parser ι ε (Option α) := fun i =>
  (p i).handle (fun value rest => .success (some value) rest)
    fun _ => Run.noting .optionalMissed (.success none i)

/-- Runs a parser only if a condition holds. -/
def cond (condition : Bool) (p : Parser ι ε α) : Parser ι ε (Option α) := fun i =>
  if condition then (p i).map some else .success none i

/-- Parses a value and takes nothing. -/
def peek (p : Parser ι ε α) : Parser ι ε α := fun i =>
  (p i).andThen fun value _ => .success value i

/-- Succeeds, taking nothing, where a parser fails recoverably. -/
def not (p : Parser ι ε α) : Parser ι ε Unit := fun i =>
  (p i).handle (fun _ _ => .reject i .not) fun _ => .success () i

/-! ## The end of the input -/

/-- Succeeds at the end of the input only. -/
def eof : Parser ι ε Unit := fun i =>
  if Input.isEmpty i then .success () i else .reject i .eof

/-- Takes all that is left. -/
def rest : Parser ι ε ι := fun i => cut (Input.length i) i

/-- The length of what is left; takes nothing. -/
def restLength : Parser ι ε Nat := fun i => .success (Input.length i) i

/-- Requires a parser to take all of the input. -/
def allConsuming (p : Parser ι ε α) : Parser ι ε α := fun i =>
  (p i).andThen fun value rest =>
    if Input.isEmpty rest then .success value rest else .reject rest .eof

/-! ## Tracing -/

/-- The event for the reply to an input; none if there is nothing to say about it. -/
def outcome? (i : ι) : Reply ι ε α → Option Event
  | .success _ rest => (consumed? i rest).map Event.matched
  | .failure .incomplete => some .incomplete
  | .failure (.recoverable e) => some (.noMatch (ParseError.kind e))
  | .failure (.fatal e) => some (.fatal (ParseError.kind e))
  | .stuck _ => none

/-- Logs a span around a parser, its outcome last. -/
def traced (rule : String) (p : Parser ι ε α) : Parser ι ε α := fun i =>
  let run := p i
  let opened := Signal.enter rule (Input.length i) :: run.log
  match outcome? i run.reply, run.reply with
  | some e, reply => ⟨opened ++ [.event e, .leave], reply⟩
  | none, .stuck fault => ⟨opened ++ [.leave], .stuck fault⟩
  | none, _ => ⟨opened ++ [.leave], .stuck .grown⟩

end ParseKit.Parser
