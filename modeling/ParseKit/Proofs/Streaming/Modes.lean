/-
  The two modes side by side.

  A scanner differs in its two modes only where streaming mode asks for more
  input, and it asks exactly while its question is undecided.  No combinator
  goes on after such a request, so an expression that is answered in
  streaming mode has met none, and is answered in the same way in complete
  mode.
-/
import ParseKit.Proofs.Correspondence.Expr
import ParseKit.Proofs.Input.Slice
import ParseKit.Proofs.Scan.Finality

set_option autoImplicit false

namespace ParseKit

open LawfulInput

/-! ## Scanners in both modes -/

/-- A run that does not ask for more input. -/
def Run.Answered {ι ε α : Type} (run : Run ι ε α) : Prop := run.reply ≠ .failure .incomplete

section

variable {ι ε α : Type}

theorem Run.answered_success (value : α) (rest : ι) :
    (Run.success value rest : Run ι ε α).Answered := by
  intro h
  cases h

theorem Run.answered_stuck (fault : Fault) : (Run.stuck fault : Run ι ε α).Answered := by
  intro h
  cases h

theorem Run.answered_reject [ParseError ε ι] (i : ι) (kind : ErrorKind) :
    (Run.reject i kind : Run ι ε α).Answered := by
  intro h
  cases h

theorem Run.Answered.map {β : Type} {run : Run ι ε α} (h : run.Answered) (f : α → β) :
    (run.map f).Answered := by
  rcases run with ⟨log, value | failure | fault⟩
  · exact answered_success (f value) _
  · intro hreply
    exact h (congrArg Reply.failure (Reply.failure.inj hreply))
  · exact answered_stuck fault

end

/-- On each input there is an answer that is given in both modes, or else in complete mode only,
as it is an answer about the end of the input. -/
def Parser.ModeMattersAtEnd {ι ε α : Type} (p : Mode → Parser ι ε α) : Prop :=
  ∀ i, ∃ decided : Run ι ε α, decided.Answered ∧
    ((∀ mode, p mode i = decided) ∨ ∀ mode, p mode i = mode.atEnd decided)

namespace Parser

section

variable {ι ε α β : Type} {p : Mode → Parser ι ε α}

theorem ModeMattersAtEnd.map (h : ModeMattersAtEnd p) (f : α → β) :
    ModeMattersAtEnd fun mode => Parser.map f (p mode) := by
  intro i
  obtain ⟨decided, hanswered, hmodes⟩ := h i
  refine ⟨decided.map f, hanswered.map f, ?_⟩
  rcases hmodes with hboth | hend
  · exact .inl fun mode => congrArg (Run.map f) (hboth mode)
  · refine .inr fun mode => (congrArg (Run.map f) (hend mode)).trans ?_
    exact mode.map_atEnd f decided

/-- Where streaming mode answers, complete mode gives the same answer. -/
theorem ModeMattersAtEnd.agree (h : ModeMattersAtEnd p) (i : ι) :
    p .streaming i = .failure .incomplete ∨ p .complete i = p .streaming i := by
  obtain ⟨decided, -, hboth | hend⟩ := h i
  · exact .inr ((hboth .complete).trans (hboth .streaming).symm)
  · exact .inl (hend .streaming)

/-- Complete mode always answers. -/
theorem ModeMattersAtEnd.answered (h : ModeMattersAtEnd p) (i : ι) : (p .complete i).Answered := by
  obtain ⟨decided, hanswered, hboth | hend⟩ := h i
  · rwa [hboth .complete]
  · rwa [hend .complete]

end

variable {ι σ ε : Type} [Input ι σ] [ParseError ε ι]

omit [ParseError ε ι] in
theorem answered_cut (n : Nat) (i : ι) : (cut n i : Run ι ε ι).Answered := by
  unfold cut
  split
  · exact Run.answered_success _ _
  · exact Run.answered_stuck .offBoundary

theorem modeMattersAtEnd_tag (rule : CaseRule) (pattern : List UInt8) :
    ModeMattersAtEnd fun mode => (tag mode rule pattern : Parser ι ε ι) := by
  intro i
  simp only [tag]
  cases Input.compare rule i pattern with
  | found length => exact ⟨_, answered_cut length i, .inl fun _ => rfl⟩
  | tooShort => exact ⟨_, Run.answered_reject i .tag, .inr fun _ => rfl⟩
  | mismatch => exact ⟨_, Run.answered_reject i .tag, .inl fun _ => rfl⟩

theorem modeMattersAtEnd_take (count : Nat) :
    ModeMattersAtEnd fun mode => (take mode count : Parser ι ε ι) := by
  intro i
  simp only [take]
  cases Input.sliceIndex count i with
  | some offset => exact ⟨_, answered_cut offset i, .inl fun _ => rfl⟩
  | none => exact ⟨_, Run.answered_reject i .eof, .inr fun _ => rfl⟩

theorem modeMattersAtEnd_takeRun (accepts : σ → Bool) (nonempty : Option ErrorKind) :
    ModeMattersAtEnd fun mode => (takeRun mode accepts nonempty : Parser ι ε ι) := by
  intro i
  have hcut := answered_cut (ε := ε) (Input.length i) i
  simp only [takeRun]
  cases Input.position (fun s => !accepts s) i with
  | some offset =>
    have hoffset := answered_cut (ε := ε) offset i
    cases offset with
    | zero =>
      cases nonempty with
      | none => exact ⟨_, hoffset, .inl fun _ => rfl⟩
      | some kind => exact ⟨_, Run.answered_reject i kind, .inl fun _ => rfl⟩
    | succ offset => exact ⟨_, hoffset, .inl fun _ => rfl⟩
  | none =>
    cases nonempty with
    | none => exact ⟨_, hcut, .inr fun _ => rfl⟩
    | some kind =>
      refine ⟨if Input.isEmpty i then .reject i kind else cut (Input.length i) i, ?_,
        .inr fun _ => rfl⟩
      split
      · exact Run.answered_reject i kind
      · exact hcut

theorem modeMattersAtEnd_takeBounded (min max : Nat) (accepts : σ → Bool) :
    ModeMattersAtEnd fun mode => (takeBounded mode min max accepts : Parser ι ε ι) := by
  intro i
  have hchosen : ∀ n count, (if min ≤ count then cut n i else .reject i .takeWhileMN :
      Run ι ε ι).Answered := by
    intro n count
    split
    · exact answered_cut n i
    · exact Run.answered_reject i .takeWhileMN
  simp only [takeBounded]
  rcases Indexed.boundedRun max accepts 0 (Input.indexed i) with ⟨_ | offset, count⟩
  · by_cases hcount : count < max
    · exact ⟨_, hchosen _ count, .inr fun _ => if_pos hcount⟩
    · exact ⟨_, hchosen _ count, .inl fun _ => if_neg hcount⟩
  · exact ⟨_, hchosen offset count, .inl fun _ => rfl⟩

theorem modeMattersAtEnd_one (accepts : σ → Bool) (kind : ErrorKind) :
    ModeMattersAtEnd fun mode => (one mode accepts kind : Parser ι ε σ) := by
  intro i
  simp only [one]
  cases Input.indexed i with
  | nil => exact ⟨_, Run.answered_reject i kind, .inr fun _ => rfl⟩
  | cons head rest =>
    by_cases hs : accepts head.2 = true
    · simp only [hs, if_true]
      refine ⟨_, ?_, .inl fun _ => rfl⟩
      unfold cut
      split
      · exact Run.answered_success _ _
      · exact Run.answered_stuck .offBoundary
    · simp only [hs]
      exact ⟨_, Run.answered_reject i kind, .inl fun _ => rfl⟩

end Parser

variable {ι σ ε : Type} [Input ι σ] [Symbol σ] [ParseError ε ι]

/-- Scanners differ in their modes at the end of the input only. -/
theorem Scan.modeMattersAtEnd (s : Scan) :
    Parser.ModeMattersAtEnd fun mode => (s.parser mode : Parser ι ε (Value ι σ)) := by
  cases s with
  | tag rule pattern => exact (Parser.modeMattersAtEnd_tag rule pattern).map _
  | take count => exact (Parser.modeMattersAtEnd_take count).map _
  | run accepts nonempty => exact (Parser.modeMattersAtEnd_takeRun _ nonempty).map _
  | bounded min max accepts => exact (Parser.modeMattersAtEnd_takeBounded min max _).map _
  | one accepts kind => exact (Parser.modeMattersAtEnd_one _ kind).map _
  | char c => exact ((Parser.modeMattersAtEnd_one _ .char).map _).map _

/-- In streaming mode a scanner asks for more input exactly while its question is undecided. -/
theorem Scan.incomplete_iff [LawfulInput ι σ] {i : ι} (hi : Valid i) (s : Scan) :
    (s.parser .streaming i : Run ι ε (Value ι σ)).reply = .failure .incomplete ↔
      s.Undecided (storage ι) (Input.symbols i) := by
  rw [← Scan.final_eq_false_iff, Scan.parser_eq hi, Judgement.run]
  cases (s.judge (storage ι) (Input.symbols i)).final with
  | true =>
    rw [if_pos rfl]
    cases (s.judge (storage ι) (Input.symbols i)).verdict with
    | takes count => simp [Verdict.run, Run.success]
    | refuses kind => simp [Verdict.run, Run.reject, Run.recoverable, Run.failure]
  | false => exact ⟨fun _ => rfl, fun _ => rfl⟩

/-! ## Expressions in both modes -/

/-- Two parses of the same input that do the same. -/
def Correspondence.same (ι σ ε : Type) [Input ι σ] [Symbol σ] [ParseError ε ι] (lax : Prop) :
    Correspondence ι σ ε ι σ ε where
  input := Eq
  follows _ _ := True
  piece := Eq
  symbol := Eq
  error _ := Eq
  lax := lax
  waits := False
  tolerates _ := True
  follows_refl _ := trivial
  follows_trans _ _ := trivial
  faithful := .equal
  error_mono _ h := h
  error_ofKind _ h := h ▸ rfl
  error_wrap _ h he := h ▸ he ▸ rfl
  consumed?_eq hi hr _ := Parser.consumed?_congr hi hr
  grown _ _ _ _ := trivial
  spanned {_ _ _ _ n} hi _ _ _ := Input.splitAt_congr hi n

namespace Correspondence

variable {lax : Prop}

theorem same_run {α : Type} {V : α → α → Prop} (hV : ∀ v, V v v) (i : ι) {run : Run ι ε α}
    (hrun : lax ∨ run.Answered) : (same ι σ ε lax).Runs V i run run := by
  rcases run with ⟨log, value | failure | fault⟩
  · exact .success (hV value) rfl trivial
  · cases failure with
    | incomplete => exact .undecided _ (hrun.resolve_right fun hanswered => hanswered rfl)
    | recoverable e => exact .recoverable rfl
    | fatal e => exact .fatal rfl
  · exact .stuck trivial

/-- Replies that correspond are the same answer, unless the first one asks for more input. -/
theorem eq_of_same {i : ι} {reply reply' : Reply ι ε (Value ι σ)}
    (h : (same ι σ ε lax).Replies (Value.Related Eq Eq) i reply reply')
    (hreply : lax → reply ≠ .failure .incomplete) :
    reply' = reply ∧ reply ≠ .failure .incomplete := by
  cases h with
  | success hv hr _ =>
    obtain rfl := hv.eq
    obtain rfl : _ = _ := hr
    simp
  | recoverable he =>
    obtain rfl : _ = _ := he
    simp
  | fatal he =>
    obtain rfl : _ = _ := he
    simp
  | incomplete hwaits => exact hwaits.elim
  | undecided _ hlax => exact (hreply hlax rfl).elim
  | stuck _ => simp

/-- The expression with streaming scanners beside the one with complete scanners. -/
theorem same_modes {e : Expr} (he : e.Every fun part => part.isComplete = false)
    (env : Expr.Env ι σ ε) :
    (same ι σ ε True).ValueParsers (e.streamed.eval env) (e.completed.eval env) := by
  refine eval_related (he.imp fun {part} hpart => ?_)
  cases part with
  | scan mode s =>
    rintro i _ rfl
    rcases (s.modeMattersAtEnd (ε := ε)).agree i with hstreaming | hagree
    · rw [hstreaming]
      exact .undecided _ trivial
    · rw [hagree]
      exact same_run Value.related_refl i (.inl trivial)
  | askForMore => exact .inl trivial
  | eof => exact fun h => h ▸ rfl
  | rest =>
    rintro i _ rfl
    exact same_run (fun _ => rfl) i (.inl trivial)
  | restLength => exact fun h => h ▸ rfl
  | mapError g e => exact fun h => h ▸ rfl
  | allConsuming e => exact fun h => h ▸ rfl
  | complete e => cases hpart
  | count n e => exact fun _ => trivial
  | ref name =>
    rintro i _ rfl
    exact same_run Value.related_refl i (.inl trivial)
  | _ => trivial

/-- The expression with complete scanners beside itself: no part of it asks for more input, as
no leaf does. -/
theorem same_completed {e : Expr} {env : Expr.Env ι σ ε}
    (he : e.Every fun part => part ≠ .askForMore ∧
      ∀ name, part = .ref name → ∀ i, (env name i).Answered) :
    (same ι σ ε False).ValueParsers (e.completed.eval env) (e.completed.eval env) := by
  refine eval_related (he.imp fun {part} hpart => ?_)
  cases part with
  | scan mode s =>
    rintro i _ rfl
    exact same_run Value.related_refl i (.inr (s.modeMattersAtEnd.answered i))
  | askForMore => exact (hpart.1 rfl).elim
  | eof => exact fun h => h ▸ rfl
  | rest =>
    rintro i _ rfl
    exact same_run (fun _ => rfl) i (.inr (Parser.answered_cut (ε := ε) _ i))
  | restLength => exact fun h => h ▸ rfl
  | mapError g e => exact fun h => h ▸ rfl
  | allConsuming e => exact fun h => h ▸ rfl
  | complete e => exact id
  | count n e => exact fun _ => trivial
  | ref name =>
    rintro i _ rfl
    exact same_run Value.related_refl i (.inr (hpart.2 name rfl i))
  | _ => trivial

end Correspondence

/-- **The modes agree wherever streaming mode answers.**  Unless a part of it takes the end of the
input as final, an expression replies in complete mode as in streaming mode to every input on
which it does not ask for more there.  In complete mode it never asks, if no leaf given from
outside does.  And a scanner asks in streaming mode exactly while its question is undecided. -/
theorem Expr.modes_agree [LawfulInput ι σ] (e : Expr) (env : Expr.Env ι σ ε) :
    ((e.Every fun part => part.isComplete = false) → ∀ i : ι,
      (e.streamed.eval env i).reply ≠ .failure .incomplete →
        (e.completed.eval env i).reply = (e.streamed.eval env i).reply) ∧
    ((e.Every fun part => part ≠ .askForMore ∧
        ∀ name, part = .ref name → ∀ i, (env name i).reply ≠ .failure .incomplete) → ∀ i : ι,
      (e.completed.eval env i).reply ≠ .failure .incomplete) ∧
    (∀ (s : Scan) (i : ι), Valid i →
      ((s.parser .streaming i : Run ι ε (Value ι σ)).reply = .failure .incomplete ↔
        s.Undecided (storage ι) (Input.symbols i))) := by
  refine ⟨fun he i hreply => ?_, fun he i => ?_, fun s i hi => Scan.incomplete_iff hi s⟩
  · exact (Correspondence.eq_of_same (Correspondence.same_modes he env rfl) fun _ => hreply).1
  · exact (Correspondence.eq_of_same (Correspondence.same_completed he rfl) False.elim).2

/-- Numbers up to ten and then another one: the end of the input is met in complete mode only. -/
theorem Expr.modes_agree_words :
    (((Expr.scan .streaming (.takeWhile (.range 0 10))).completed.eval
        (fun _ _ => .stuck .tooDeep) ([3, 4, 11] : List UInt32) :
          Run _ (Cause (List UInt32)) _).reply =
      .success (.piece [3, 4]) [11]) ∧
    ((Expr.scan .streaming (.takeWhile (.range 0 10))).completed.eval
        (fun _ _ => .stuck .tooDeep) ([3, 4] : List UInt32) :
          Run _ (Cause (List UInt32)) _).reply ≠ .failure .incomplete ∧
    (((Scan.takeWhile (.range 0 10)).parser .streaming ([3, 4] : List UInt32) :
          Run _ (Cause (List UInt32)) _).reply = .failure .incomplete ↔
      (Scan.takeWhile (.range 0 10)).Undecided (storage (List UInt32)) [3, 4]) := by
  have hagree := Expr.modes_agree (ε := Cause (List UInt32))
    (.scan .streaming (.takeWhile (.range 0 10))) fun _ _ => .stuck .tooDeep
  refine ⟨?_, ?_, ?_⟩
  · exact hagree.1 (every_leaf rfl rfl) [3, 4, 11] (by intro h; cases h)
  · exact hagree.2.1 (every_leaf rfl (by simp)) [3, 4]
  · exact hagree.2.2 (.takeWhile (.range 0 10)) [3, 4] trivial

end ParseKit
