/-
  Complete mode as streaming mode with an end marker.

  A symbol that every scanner of an expression refuses says where the input
  ends: no scanner takes it, and none asks what comes behind it.  With such
  a marker behind the input, streaming mode does what complete mode does
  without it.
-/
import ParseKit.Proofs.Streaming.Followed

set_option autoImplicit false

namespace ParseKit

open LawfulInput

variable {ι σ : Type} [Input ι σ] [LawfulInput ι σ] [Symbol σ]

/-- Whether an expression stops at a symbol: its scanners refuse it, and nothing else in it looks
at the input. -/
abbrev Expr.StopsAt (st : Storage σ) (z : σ) (e : Expr) : Prop :=
  e.Every (LooksBy fun _ s => s.Refuses st z)

namespace Correspondence

/-- A scanner at the end of the input beside the same scanner before a symbol it refuses. -/
theorem followed_marker {z : σ} {s : Scan} (hz : s.Refuses (storage ι) z) :
    (followed ι [z] False).ValueParsers (s.parser .complete) (s.parser .streaming) := by
  intro i i' h
  rw [Scan.parser_eq h.valid, Scan.parser_eq h.valid', h.symbols_eq, Scan.judge_marker hz,
    Judgement.run_complete, Judgement.run_final]
  exact followed_verdict h s fun _ => Scan.le_length_of_takes

/-- An expression in complete mode beside the same in streaming mode before an end marker. -/
theorem followed_stopped {e : Expr} {z : σ} (he : e.StopsAt (storage ι) z)
    (env env' : Expr.Env ι σ (Cause ι)) :
    (followed ι [z] False).ValueParsers (e.completed.eval env) (e.streamed.eval env') :=
  followed_eval he (fun _ _ hz => followed_marker hz) env env'

end Correspondence

/-- **Complete mode is streaming mode with an end marker.**  If an expression stops at a symbol,
then before that symbol streaming mode never asks for more input and never takes the symbol, and
it answers what complete mode answers without the symbol: the same value, or a failure of the same
state with the same levels, the symbol being behind the remainder and behind every position.  If
there is room for what the expression counts, neither mode gets stuck. -/
theorem Expr.StopsAt.marked {e : Expr} {z : σ} (he : e.StopsAt (storage ι) z)
    (env env' : Expr.Env ι σ (Cause ι)) {i i' : ι} (h : Followed [z] i i') :
    (e.streamed.eval env' i').reply ≠ .failure .incomplete ∧
      (∀ v r, (e.streamed.eval env' i').reply = .success v r → [z] <:+ Input.symbols r) ∧
      Reply.Answers (Value.Related SameView Eq) (Followed [z]) (Cause.Related (Followed [z]))
        (e.completed.eval env i).reply (e.streamed.eval env' i').reply ∧
      (e.Reservable → ∀ fault, (e.streamed.eval env' i').reply ≠ .stuck fault) := by
  have hanswers := Correspondence.answers_of_followed
    (Correspondence.followed_stopped he env env' h) False.elim
  refine ⟨hanswers.ne_incomplete.2, ?_, hanswers, fun hroom fault hstuck => ?_⟩
  · intro v r hreply
    rw [hreply] at hanswers
    generalize (e.completed.eval env i).reply = reply at hanswers
    cases hanswers with
    | success _ hrest => exact ⟨_, hrest.symbols_eq.symm⟩
  · have hlooks : e.streamed.Every (LooksBy fun _ s => s.Refuses (storage ι) z) :=
      he.mapMode fun {part} hpart => by
        cases part with
        | _ => exact hpart
    exact ends_of_looksBy hlooks (hroom.mapMode fun {part} hpart => by
      cases part with
      | _ => exact hpart) env' h.valid' fault hstuck

/-- Letters that a null byte ends: before it they are a run as they are at the end of the input,
and the pattern that should follow is missing in both places. -/
theorem Expr.marked_null :
    Followed [0] ([97, 98] : List UInt8) [97, 98, 0] ∧
    Reply.Answers (Value.Related SameView Eq) (Followed [0]) (Cause.Related (Followed [0]))
      (.failure (.recoverable (.root [] .tag)) :
        Reply (List UInt8) (Cause (List UInt8)) (Value (List UInt8) UInt8))
      (.failure (.recoverable (.root [0] .tag)) :
        Reply (List UInt8) (Cause (List UInt8)) (Value (List UInt8) UInt8)) := by
  have hfollowed : Followed [0] ([97, 98] : List UInt8) [97, 98, 0] := followed_slice_iff.2 rfl
  have hletters : StopsAt (storage (List UInt8)) 0 (.scan .streaming .alpha1) :=
    every_leaf rfl rfl
  have hsemicolon : StopsAt (storage (List UInt8)) 0 (.scan .streaming (.tag .exact [59])) := by
    refine every_leaf rfl ?_
    intro encode hencode b hb b' hb'
    cases hencode
    rw [List.mem_singleton.1 hb, List.mem_singleton.1 hb']
    rfl
  have hstops : StopsAt (storage (List UInt8)) 0
      (.pair (.scan .streaming .alpha1) (.scan .streaming (.tag .exact [59]))) :=
    .intro trivial (by simp [children, hletters, hsemicolon])
  exact ⟨hfollowed, (StopsAt.marked hstops (fun _ _ => .stuck .tooDeep)
    (fun _ _ => .stuck .tooDeep) hfollowed).2.2.1⟩

end ParseKit
