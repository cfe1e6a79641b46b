/-
  Parsers, their runs and their replies.

  A parser is a function from an input to a run: what it logs and what it
  replies.  `Run.handle` is the one way a combinator goes on after a reply:
  it can go on after a success or a recoverable failure, and any other reply
  passes through it unchanged.
-/
import ParseKit.Cause
import ParseKit.Failure
import ParseKit.Trace

set_option autoImplicit false

namespace ParseKit

/-! ## Replies -/

/-- A parsed value and the remainder of the input. -/
structure Success (α ι : Type) where
  value : α
  rest : ι
  deriving BEq, DecidableEq, Repr

namespace Success

variable {α β ι : Type}

def map (f : α → β) (s : Success α ι) : Success β ι := ⟨f s.value, s.rest⟩

def toPair (s : Success α ι) : α × ι := (s.value, s.rest)

def ofPair (pair : α × ι) : Success α ι := ⟨pair.1, pair.2⟩

end Success

/-- Why a run cannot go on.  None of these is an answer about the input. -/
inductive Fault
  /-- A split was asked for inside a symbol or beyond the end. -/
  | offBoundary
  /-- A remainder is longer than the input it should be a part of. -/
  | grown
  /-- Room was asked for that no memory has. -/
  | unreserved
  /-- A rule is referred to that nobody has defined. -/
  | undefinedRule (name : String)
  /-- Rules refer to each other more deeply than was allowed for. -/
  | tooDeep
  deriving DecidableEq, Repr

/-- How a run ends. -/
inductive Reply (ι ε α : Type)
  | success (value : α) (rest : ι)
  | failure (f : Failure ε)
  | stuck (fault : Fault)
  deriving DecidableEq, Repr

namespace Reply

variable {ι ε ε' α β : Type}

/-- Value and remainder of a success. -/
def success? : Reply ι ε α → Option (Success α ι)
  | .success value rest => some ⟨value, rest⟩
  | _ => none

/-- The value of a success. -/
def value? (r : Reply ι ε α) : Option α := r.success?.map Success.value

/-- The remainder of a success. -/
def rest? (r : Reply ι ε α) : Option ι := r.success?.map Success.rest

/-- The failure, of a run that failed. -/
def failure? : Reply ι ε α → Option (Failure ε)
  | .failure f => some f
  | _ => none

/-- Changes the value of a success. -/
def map (f : α → β) : Reply ι ε α → Reply ι ε β
  | .success value rest => .success (f value) rest
  | .failure e => .failure e
  | .stuck fault => .stuck fault

/-- Changes the failure of a run that failed. -/
def mapFailure (f : Failure ε → Failure ε') : Reply ι ε α → Reply ι ε' α
  | .success value rest => .success value rest
  | .failure e => .failure (f e)
  | .stuck fault => .stuck fault

end Reply

/-! ## Runs -/

/-- What a parser logs and what it replies. -/
structure Run (ι ε α : Type) where
  log : List Signal
  reply : Reply ι ε α
  deriving DecidableEq, Repr

namespace Run

variable {ι ε ε' α β : Type}

/-- A success that logs nothing. -/
def success (value : α) (rest : ι) : Run ι ε α := ⟨[], .success value rest⟩

/-- A failure that logs nothing. -/
def failure (f : Failure ε) : Run ι ε α := ⟨[], .failure f⟩

/-- A recoverable failure that logs nothing. -/
def recoverable (e : ε) : Run ι ε α := .failure (.recoverable e)

/-- A run that cannot go on. -/
def stuck (fault : Fault) : Run ι ε α := ⟨[], .stuck fault⟩

/-- A recoverable failure with an error of one level. -/
def reject [ParseError ε ι] (i : ι) (kind : ErrorKind) : Run ι ε α :=
  .recoverable (ParseError.ofKind i kind)

/-- Puts signals in front of a log. -/
def after (log : List Signal) (r : Run ι ε α) : Run ι ε α := ⟨log ++ r.log, r.reply⟩

/-- Puts an event in front of a log. -/
def noting (e : Event) (r : Run ι ε α) : Run ι ε α := r.after [.event e]

/-- Changes the value of a success. -/
def map (f : α → β) (r : Run ι ε α) : Run ι ε β := ⟨r.log, r.reply.map f⟩

/-- Changes the failure of a run that failed. -/
def mapFailure (f : Failure ε → Failure ε') (r : Run ι ε α) : Run ι ε' α :=
  ⟨r.log, r.reply.mapFailure f⟩

/-- Goes on after a success or a recoverable failure.  An incomplete or fatal failure, and a
run that is stuck, stay as they are. -/
def handle (r : Run ι ε α) (onSuccess : α → ι → Run ι ε β) (onMiss : ε → Run ι ε β) :
    Run ι ε β :=
  match r.reply with
  | .success value rest => (onSuccess value rest).after r.log
  | .failure (.recoverable e) => (onMiss e).after r.log
  | .failure (.fatal e) => ⟨r.log, .failure (.fatal e)⟩
  | .failure .incomplete => ⟨r.log, .failure .incomplete⟩
  | .stuck fault => ⟨r.log, .stuck fault⟩

@[simp]
theorem handle_success (log : List Signal) (value : α) (rest : ι)
    (onSuccess : α → ι → Run ι ε β) (onMiss : ε → Run ι ε β) :
    handle ⟨log, .success value rest⟩ onSuccess onMiss = (onSuccess value rest).after log := rfl

@[simp]
theorem handle_recoverable (log : List Signal) (e : ε) (onSuccess : α → ι → Run ι ε β)
    (onMiss : ε → Run ι ε β) :
    handle ⟨log, .failure (.recoverable e)⟩ onSuccess onMiss = (onMiss e).after log := rfl

@[simp]
theorem handle_fatal (log : List Signal) (e : ε) (onSuccess : α → ι → Run ι ε β)
    (onMiss : ε → Run ι ε β) :
    handle ⟨log, .failure (.fatal e)⟩ onSuccess onMiss = ⟨log, .failure (.fatal e)⟩ := rfl

@[simp]
theorem handle_incomplete (log : List Signal) (onSuccess : α → ι → Run ι ε β)
    (onMiss : ε → Run ι ε β) :
    handle ⟨log, .failure .incomplete⟩ onSuccess onMiss = ⟨log, .failure .incomplete⟩ := rfl

@[simp]
theorem handle_stuck (log : List Signal) (fault : Fault) (onSuccess : α → ι → Run ι ε β)
    (onMiss : ε → Run ι ε β) :
    handle ⟨log, .stuck fault⟩ onSuccess onMiss = ⟨log, .stuck fault⟩ := rfl

@[simp]
theorem after_nil (r : Run ι ε α) : r.after [] = r := rfl

theorem after_after (log log' : List Signal) (r : Run ι ε α) :
    (r.after log').after log = r.after (log ++ log') := by
  simp [after]

/-- Goes on after a success only. -/
def andThen (r : Run ι ε α) (onSuccess : α → ι → Run ι ε β) : Run ι ε β :=
  r.handle onSuccess .recoverable

/-- What becomes of a repetition whose last success has not shortened the input: it fails at
`place` if the remainder is as long as the input was before.  A longer remainder, behind which it
would go on, is a fault. -/
def stalled {σ : Type} [Input ι σ] [ParseError ε ι] (event : Event) (kind : ErrorKind)
    (place before rest : ι) : Run ι ε α :=
  if Input.length rest = Input.length before then .noting event (.reject place kind)
  else .stuck .grown

section

variable {σ : Type} [Input ι σ] [ParseError ε ι] {event : Event} {kind : ErrorKind}
  {place before rest : ι}

theorem stalled_of_eq (h : Input.length rest = Input.length before) :
    (stalled event kind place before rest : Run ι ε α) = .noting event (.reject place kind) :=
  if_pos h

theorem stalled_of_ne (h : Input.length rest ≠ Input.length before) :
    (stalled event kind place before rest : Run ι ε α) = .stuck .grown :=
  if_neg h

/-- A repetition does not succeed behind a success that has not shortened the input. -/
theorem stalled_ne_success (value : α) (last : ι) :
    (stalled event kind place before rest : Run ι ε α).reply ≠ .success value last := by
  unfold stalled
  split <;> nofun

theorem map_stalled (f : α → β) :
    (stalled event kind place before rest : Run ι ε α).map f =
      stalled event kind place before rest := by
  unfold stalled
  split <;> rfl

end

end Run

/-! ## Parsers -/

/-- A parser of values of type `α`. -/
abbrev Parser (ι ε α : Type) := ι → Run ι ε α

namespace Parser

variable {ι σ ε α : Type} [Input ι σ] [ParseError ε ι]

/-- Splits a prefix off as the value. -/
def cut (n : Nat) : Parser ι ε ι := fun i =>
  if Input.isBoundary i n then
    let parts := Input.splitAt i n
    .success parts.1 parts.2
  else .stuck .offBoundary

/-- The length of what lies between an input and a remainder of it. -/
def consumed? (i rest : ι) : Option Nat :=
  if Input.length rest ≤ Input.length i then some (Input.length i - Input.length rest) else none

end Parser

end ParseKit
