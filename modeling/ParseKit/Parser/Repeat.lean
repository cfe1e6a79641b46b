/-
  Repetition.

  A repeater applies one parser over and over and hands out a value at each
  request; a collector decides how long to go on requesting and what to make
  of the values.  Every repetition stops where the parser succeeds and the
  input stays as long as it was.  Behind a remainder that is longer than the
  input a repetition might go on for ever; this is a fault, so the length of
  the input bounds every repetition.
-/
import ParseKit.Parser.Basic

set_option autoImplicit false

namespace ParseKit

variable {ι σ ε α β γ : Type} [Input ι σ] [ParseError ε ι]

/-! ## Repeaters -/

/-- Why a repeater has ended. -/
inductive Ending (ε : Type)
  /-- The parser failed recoverably, which is the usual end. -/
  | exhausted
  /-- The repetition as a whole fails. -/
  | failed (f : Failure ε)
  /-- The repetition as a whole cannot go on. -/
  | stuck (fault : Fault)
  deriving DecidableEq, Repr

/-- The state of a repetition: where it stands, and how it ended if it has. -/
structure Repeater (ι ε : Type) where
  input : ι
  ending : Option (Ending ε)
  deriving DecidableEq, Repr

/-- The answer to one request: what was logged, the value if there was one, and the state
after it. -/
structure Pull (ι ε α : Type) where
  log : List Signal
  item? : Option α
  state : Repeater ι ε

namespace Repeater

/-- A repetition that is about to start. -/
def start (i : ι) : Repeater ι ε := ⟨i, none⟩

/-- Applies the parser once, unless the repetition has ended.  A success that leaves the input as
long as it was ends it with an error of the kind `guard`. -/
def next (p : Parser ι ε α) (guard : ErrorKind) (s : Repeater ι ε) : Pull ι ε α :=
  match s.ending with
  | some _ => ⟨[], none, s⟩
  | none =>
    let run := p s.input
    match run.reply with
    | .success value rest =>
      if Input.length rest < Input.length s.input then ⟨run.log, some value, ⟨rest, none⟩⟩
      else if Input.length rest = Input.length s.input then
        ⟨run.log ++ [.event (.repetitionStalled guard)], none,
          ⟨s.input, some (.failed (.recoverable (ParseError.ofKind s.input guard)))⟩⟩
      else ⟨run.log, none, ⟨s.input, some (.stuck .grown)⟩⟩
    | .failure (.recoverable _) =>
      ⟨run.log ++ [.event (.repetitionEnded (Input.length s.input))], none,
        ⟨s.input, some .exhausted⟩⟩
    | .failure f => ⟨run.log, none, ⟨s.input, some (.failed f)⟩⟩
    | .stuck fault => ⟨run.log, none, ⟨s.input, some (.stuck fault)⟩⟩

/-- Once it has ended, a repetition answers nothing and stays as it is. -/
theorem next_of_ended {p : Parser ι ε α} {guard : ErrorKind} {s : Repeater ι ε}
    {ending : Ending ε} (h : s.ending = some ending) : s.next p guard = ⟨[], none, s⟩ := by
  simp only [next, h]

/-- A request that brings a value shortens the input. -/
theorem next_shortens {p : Parser ι ε α} {guard : ErrorKind} {s : Repeater ι ε} {value : α}
    (h : (s.next p guard).item? = some value) :
    Input.length (s.next p guard).state.input < Input.length s.input := by
  unfold next at h ⊢
  split at h
  · cases h
  · dsimp only at h ⊢
    split at h
    · split at h
      · simp [*]
      · split at h <;> cases h
    all_goals cases h

/-- Some requests in a row: what was logged, the answers and the state after them. -/
def requests (p : Parser ι ε α) (guard : ErrorKind) :
    Nat → Repeater ι ε → List Signal × List (Option α) × Repeater ι ε
  | 0, s => ([], [], s)
  | n + 1, s =>
    let pull := s.next p guard
    let more := requests p guard n pull.state
    (pull.log ++ more.1, pull.item? :: more.2.1, more.2.2)

/-- The reply of a repetition that nobody requests anything of any more. -/
def conclude (value : β) (s : Repeater ι ε) : Run ι ε β :=
  match s.ending with
  | none => .success value s.input
  | some .exhausted => .success value s.input
  | some (.failed f) => .failure f
  | some (.stuck fault) => .stuck fault

end Repeater

/-! ## Collectors -/

/-- A strategy for requesting values, with what it makes of them. -/
structure Collector (α γ β : Type) where
  /-- What it holds before the first value. -/
  start : γ
  /-- Whether it requests another value. -/
  wants : γ → Bool
  /-- Takes a value in. -/
  push : γ → α → γ
  /-- How many more requests it makes once it has been told that there is no value left. -/
  extra : Nat
  /-- The result, given the number of values that the extra requests brought. -/
  finish : γ → Nat → β

namespace Collector

/-- Takes every value in and makes nothing further of the result. -/
def folding (start : β) (step : β → α → β) : Collector α β β :=
  ⟨start, fun _ => true, step, 0, fun result _ => result⟩

/-- Collects every value in order. -/
def list : Collector α (List α) (List α) :=
  ⟨[], fun _ => true, fun collected value => value :: collected, 0,
    fun collected _ => collected.reverse⟩

/-- Lets a collector that holds `collected` request values of a repetition. -/
def drive (c : Collector α γ β) (p : Parser ι ε α) (guard : ErrorKind) (collected : γ)
    (s : Repeater ι ε) : Run ι ε β :=
  if c.wants collected then
    let pull := s.next p guard
    match _ : pull.item? with
    | some value => (c.drive p guard (c.push collected value) pull.state).after pull.log
    | none =>
      let more := pull.state.requests p guard c.extra
      let result := c.finish collected (more.2.1.filter Option.isSome).length
      (more.2.2.conclude result).after (pull.log ++ more.1)
  else s.conclude (c.finish collected 0)
termination_by Input.length s.input
decreasing_by exact Repeater.next_shortens (by assumption)

end Collector

namespace Parser

/-! ## Unbounded repetition -/

/-- Repeats a parser as long as it succeeds, and collects the values. -/
def collectMany0 (c : Collector α γ β) (p : Parser ι ε α) : Parser ι ε β := fun i =>
  c.drive p .many0 c.start (.start i)

/-- Repeats a parser that has to succeed once at least.  The first value is there before the
collector makes a request, and it answers the first request. -/
def collectMany1 (c : Collector α γ β) (p : Parser ι ε α) : Parser ι ε β := fun i =>
  (p i).handle
    (fun first rest =>
      if Input.length rest < Input.length i then
        if c.wants c.start then c.drive p .many1 (c.push c.start first) (.start rest)
        else .success (c.finish c.start 0) rest
      else .stalled (.repetitionStalled .many1) .many1 i i rest)
    fun e => .recoverable (ParseError.wrap e i .many1)

/-- The values of a repetition. -/
def many0 (p : Parser ι ε α) : Parser ι ε (List α) := collectMany0 .list p

/-- The values of a repetition that has to succeed once at least. -/
def many1 (p : Parser ι ε α) : Parser ι ε (List α) := collectMany1 .list p

/-- Combines the values of a repetition from the left. -/
def foldMany0 (start : β) (step : β → α → β) (p : Parser ι ε α) : Parser ι ε β :=
  collectMany0 (.folding start step) p

/-! ## Counted repetition -/

/-- Repeats a parser a number of times; errors are put into the context of `origin`. -/
def countFrom (origin : ι) (p : Parser ι ε α) : Nat → Parser ι ε (List α)
  | 0, i => .success [] i
  | n + 1, i =>
    (p i).handle (fun value rest => (countFrom origin p n rest).map (value :: ·))
      fun e => .recoverable (ParseError.wrap e origin .count)

/-- Repeats a parser exactly so many times.  It need not take anything.  The room for the values is
left aside here: see `reserving`. -/
def count (n : Nat) (p : Parser ι ε α) : Parser ι ε (List α) := fun i => countFrom i p n i

/-- The number of bytes that can be reserved at once.  The value of an expression takes one byte at
least, so there is room for no more values than that; whether there is room for fewer depends on
their size and on the memory at hand, and is not looked at. -/
def maxReserved : Nat := 0x7fffffffffffffff

/-- Runs a parser once room for some number of values has been reserved. -/
def reserving (n : Nat) (p : Parser ι ε α) : Parser ι ε α := fun i =>
  if n ≤ maxReserved then p i else .stuck .unreserved

/-- The rest of a bounded repetition that began at `origin` and has `taken` values. -/
def boundedFrom (origin : ι) (min max : Nat) (p : Parser ι ε α) (taken : Nat) :
    Parser ι ε (List α) := fun i =>
  if taken < max then
    (p i).handle
      (fun value rest =>
        if _ : Input.length rest < Input.length i then
          (boundedFrom origin min max p (taken + 1) rest).map (value :: ·)
        else .stalled (.repetitionStalled .manyMN) .manyMN i i rest)
      fun e =>
        if taken < min then .recoverable (ParseError.wrap e origin .manyMN) else .success [] i
  else .success [] i
termination_by i => Input.length i
decreasing_by assumption

/-- Repeats a parser `max` times at most and `min` times at least.  Bounds in the wrong order
are an error before the parser is tried. -/
def manyMN (min max : Nat) (p : Parser ι ε α) : Parser ι ε (List α) := fun i =>
  if max < min then .reject i .manyMN else boundedFrom i min max p 0 i

/-! ## Repetition up to a terminator -/

/-- Repeats a parser until a terminator matches, which is tried first at every place. -/
def manyTill (p : Parser ι ε α) (terminator : Parser ι ε β) : Parser ι ε (List α × β) := fun i =>
  (terminator i).handle (fun last rest => .success ([], last) rest) fun _ =>
    (p i).handle
      (fun value rest =>
        if _ : Input.length rest < Input.length i then
          (manyTill p terminator rest).map fun found => (value :: found.1, found.2)
        else .stalled (.repetitionStalled .manyTill) .manyTill i i rest)
      fun e => .recoverable (ParseError.wrap e i .manyTill)
termination_by i => Input.length i
decreasing_by assumption

end Parser

end ParseKit
