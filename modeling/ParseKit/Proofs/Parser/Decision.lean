/-
  What primitives decide.

  A primitive looks at its input and decides: it takes something, it refuses
  the input with an error of some kind or, in streaming mode alone, it asks
  for more.  It logs nothing, and the error type has no part in the decision.
-/
import ParseKit.Expr.Eval
import ParseKit.Proofs.Parser.Run

set_option autoImplicit false

namespace ParseKit

variable {ι σ α β : Type}

/-- What is decided on an input. -/
inductive Decision (ι α : Type)
  | take (value : α) (rest : ι)
  | refuse (kind : ErrorKind)
  | ask
  | stuck (fault : Fault)

namespace Decision

/-- The run of a decision on an input, with errors of any type. -/
def run {ε : Type} [ParseError ε ι] (i : ι) : Decision ι α → Run ι ε α
  | .take value rest => .success value rest
  | .refuse kind => .reject i kind
  | .ask => .failure .incomplete
  | .stuck fault => .stuck fault

/-- The same decision about another value. -/
def map (f : α → β) : Decision ι α → Decision ι β
  | .take value rest => .take (f value) rest
  | .refuse kind => .refuse kind
  | .ask => .ask
  | .stuck fault => .stuck fault

theorem run_map {ε : Type} [ParseError ε ι] (f : α → β) (d : Decision ι α) (i : ι) :
    ((d.map f).run i : Run ι ε β) = (d.run i).map f := by
  cases d <;> rfl

theorem map_eq_ask {f : α → β} {d : Decision ι α} (h : d.map f = .ask) : d = .ask := by
  cases d <;> cases h
  rfl

end Decision

/-- A run that is decided in a mode, and decided alike with every error type. -/
def Decided (mode : Mode) (i : ι) (run : (ε : Type) → [ParseError ε ι] → Run ι ε α) : Prop :=
  ∃ d : Decision ι α, (d = .ask → mode = .streaming) ∧
    ∀ (ε : Type) [ParseError ε ι], run ε = d.run i

namespace Decided

variable {mode : Mode} {i : ι} {run run' : (ε : Type) → [ParseError ε ι] → Run ι ε α}

theorem success (value : α) (rest : ι) : Decided mode i fun _ _ => .success value rest :=
  ⟨.take value rest, nofun, fun _ _ => rfl⟩

theorem reject (kind : ErrorKind) :
    Decided mode i fun _ _ => (.reject i kind : Run ι _ α) :=
  ⟨.refuse kind, nofun, fun _ _ => rfl⟩

theorem map (f : α → β) (h : Decided mode i run) : Decided mode i fun ε _ => (run ε).map f := by
  obtain ⟨d, hask, hrun⟩ := h
  refine ⟨d.map f, fun hmap => hask (Decision.map_eq_ask hmap), fun ε _ => ?_⟩
  exact (congrArg (Run.map f) (hrun ε)).trans (d.run_map f i).symm

theorem ite {c : Prop} [Decidable c] (h : Decided mode i run) (h' : Decided mode i run') :
    Decided mode i fun ε _ => if c then run ε else run' ε := by
  by_cases hc : c
  · simpa only [hc, if_true] using h
  · simpa only [hc, if_false] using h'

/-- At the end of the input, the one mode decides and the other asks. -/
theorem atEnd (h : Decided mode i run) : Decided mode i fun ε _ => mode.atEnd (run ε) := by
  cases mode with
  | complete => exact h
  | streaming => exact ⟨.ask, fun _ => rfl, fun _ _ => rfl⟩

theorem cut [Input ι σ] (n : Nat) : Decided mode i fun _ _ => Parser.cut n i :=
  .ite (.success _ _) ⟨.stuck .offBoundary, nofun, fun _ _ => rfl⟩

end Decided

/-! ## Primitives -/

namespace Parser

variable [Input ι σ] (mode : Mode) (i : ι)

theorem decided_tag (rule : CaseRule) (pattern : List UInt8) :
    Decided mode i fun _ _ => tag mode rule pattern i := by
  unfold tag
  cases Input.compare rule i pattern with
  | found length => exact .cut length
  | tooShort => exact .atEnd (.reject .tag)
  | mismatch => exact .reject .tag

theorem decided_take (count : Nat) : Decided mode i fun _ _ => take mode count i := by
  unfold take
  cases Input.sliceIndex count i with
  | some offset => exact .cut offset
  | none => exact .atEnd (.reject .eof)

theorem decided_takeRun (accepts : σ → Bool) (nonempty : Option ErrorKind) :
    Decided mode i fun _ _ => takeRun mode accepts nonempty i := by
  have hcut : ∀ n, Decided mode i fun _ _ => cut n i := fun n => .cut n
  unfold takeRun
  rcases Input.position (fun s : σ => !accepts s) i with _ | _ | offset
  · cases nonempty with
    | none => exact .atEnd (hcut _)
    | some kind => exact .atEnd (.ite (.reject kind) (hcut _))
  · cases nonempty with
    | none => exact hcut 0
    | some kind => exact .reject kind
  · cases nonempty with
    | none => exact hcut (offset + 1)
    | some kind => exact hcut (offset + 1)

theorem decided_takeBounded (min max : Nat) (accepts : σ → Bool) :
    Decided mode i fun _ _ => takeBounded mode min max accepts i := by
  have hchosen : ∀ n count, Decided mode i fun _ _ =>
      if min ≤ count then cut n i else .reject i .takeWhileMN := by
    intro n count
    exact .ite (.cut n) (.reject .takeWhileMN)
  unfold takeBounded
  rcases Indexed.boundedRun max accepts 0 (Input.indexed i) with ⟨_ | offset, count⟩
  · exact .ite (.atEnd (hchosen _ count)) (hchosen _ count)
  · exact hchosen offset count

theorem decided_one (accepts : σ → Bool) (kind : ErrorKind) :
    Decided mode i fun _ _ => one mode accepts kind i := by
  unfold one
  rcases Input.indexed i with _ | ⟨⟨_, s⟩, rest⟩
  · exact .atEnd (.reject kind)
  · simp only [Run.andThen_success fun _ => s]
    exact .ite ((Decided.cut _).map fun _ => s) (.reject kind)

end Parser

/-- A scanner decides with no regard to the error type. -/
theorem Scan.decided [Input ι σ] [Symbol σ] (mode : Mode) (s : Scan) (i : ι) :
    Decided mode i fun _ _ => (s.parser mode i : Run ι _ (Value ι σ)) := by
  cases s with
  | tag rule pattern => exact (Parser.decided_tag mode i rule pattern).map Value.piece
  | take count => exact (Parser.decided_take mode i count).map Value.piece
  | run accepts nonempty => exact (Parser.decided_takeRun mode i _ nonempty).map Value.piece
  | bounded min max accepts => exact (Parser.decided_takeBounded mode i min max _).map Value.piece
  | one accepts kind => exact (Parser.decided_one mode i _ kind).map Value.symbol
  | char c => exact ((Parser.decided_one mode i _ .char).map _).map Value.char

end ParseKit
