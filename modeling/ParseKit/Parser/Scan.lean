/-
  Scanners: the parsers that look at symbols.

  Each comes in two modes.  In complete mode the end of the input is final;
  in streaming mode a scanner whose answer could change with more input asks
  for it instead.
-/
import ParseKit.Input.Compare
import ParseKit.Parser.Basic

set_option autoImplicit false

namespace ParseKit

/-- What the end of the input means. -/
inductive Mode
  /-- Nothing follows. -/
  | complete
  /-- More may follow. -/
  | streaming
  deriving DecidableEq, Repr

/-- The answer at the end of the input: `decided` if nothing follows. -/
def Mode.atEnd {ι ε α : Type} (mode : Mode) (decided : Run ι ε α) : Run ι ε α :=
  match mode with
  | .complete => decided
  | .streaming => .failure .incomplete

/-- Looks for the end of a run of accepted symbols that takes at most `max` of them: the
offset of the first symbol outside it, if there is one, and the number of symbols in it. -/
def Indexed.boundedRun {σ : Type} (max : Nat) (accepts : σ → Bool) (taken : Nat) :
    List (Nat × σ) → Option Nat × Nat
  | [] => (none, taken)
  | (offset, s) :: rest =>
    if taken == max || !accepts s then (some offset, taken)
    else boundedRun max accepts (taken + 1) rest

namespace Parser

variable {ι σ ε : Type} [Input ι σ] [ParseError ε ι]

/-- Takes a literal pattern. -/
def tag (mode : Mode) (rule : CaseRule) (pattern : List UInt8) : Parser ι ε ι := fun i =>
  match Input.compare rule i pattern with
  | .found length => cut length i
  | .tooShort => mode.atEnd (.reject i .tag)
  | .mismatch => .reject i .tag

/-- Takes a number of symbols. -/
def take (mode : Mode) (count : Nat) : Parser ι ε ι := fun i =>
  match Input.sliceIndex count i with
  | some offset => cut offset i
  | none => mode.atEnd (.reject i .eof)

/-- Takes the longest run of accepted symbols.  If a kind is given, the run must not be
empty and an empty one is an error of that kind. -/
def takeRun (mode : Mode) (accepts : σ → Bool) (nonempty : Option ErrorKind) : Parser ι ε ι :=
  fun i =>
    match Input.position (fun s => !accepts s) i, nonempty with
    | some 0, some kind => .reject i kind
    | some offset, _ => cut offset i
    | none, none => mode.atEnd (cut (Input.length i) i)
    | none, some kind =>
      mode.atEnd (if Input.isEmpty i then .reject i kind else cut (Input.length i) i)

/-- Takes the longest run of at most `max` accepted symbols; fewer than `min` are an error. -/
def takeBounded (mode : Mode) (min max : Nat) (accepts : σ → Bool) : Parser ι ε ι := fun i =>
  match Indexed.boundedRun max accepts 0 (Input.indexed i) with
  | (some offset, count) => if min ≤ count then cut offset i else .reject i .takeWhileMN
  | (none, count) =>
    let atLast := if min ≤ count then cut (Input.length i) i else .reject i .takeWhileMN
    if count < max then mode.atEnd atLast else atLast

/-- Takes one symbol if it is accepted; anything else is an error of the given kind. -/
def one (mode : Mode) (accepts : σ → Bool) (kind : ErrorKind) : Parser ι ε σ := fun i =>
  match Input.indexed i with
  | [] => mode.atEnd (.reject i kind)
  | (_, s) :: rest =>
    if accepts s then
      let offset := (rest.head?.map Prod.fst).getD (Input.length i)
      (cut offset i).andThen fun _ rem => .success s rem
    else .reject i kind

/-- Takes one symbol that stands for a character, as that character. -/
def char [Symbol σ] (mode : Mode) (c : Char) : Parser ι ε Char := fun i =>
  (one mode (fun s => Symbol.standsFor s c) .char i).map fun s => (Symbol.char? s).getD c

end Parser

end ParseKit
