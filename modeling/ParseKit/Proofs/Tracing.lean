/-
  Traces are well nested, and tracing changes nothing.

  The trace of a parse that has ended is an outline of the applications of
  traced parsers in it, whatever became of them: backtracked, looked ahead or
  repeated.  The same parse without tracing has the same reply, and its trace
  is what is left of the other one without spans and outcomes.
-/
import ParseKit.Input.Text
import ParseKit.Proofs.Confinement
import ParseKit.Proofs.Expr.Untraced
import ParseKit.Proofs.Input.Text
import ParseKit.Proofs.Surfacing
import ParseKit.Proofs.Trace.Untracing

set_option autoImplicit false

namespace ParseKit

open LawfulInput

variable {ι σ ε : Type} [Input ι σ] [Symbol σ] [ParseError ε ι]

/-! ## Expressions -/

/-- A span of some traced parsers stands for an application of one of them: the input has the
length, the parser logs what lies inside the span, and its reply has the outcome. -/
def Parser.Spans {α : Type} (traces : String → Parser ι ε α → Prop) (rule : String)
    (length : Nat) (inside : Outline) (outcome : Event) : Prop :=
  ∃ p i, traces rule p ∧ Input.length i = length ∧ (p i).log = inside.signals ∧
    Parser.outcome? i (p i).reply = some outcome

/-- An expression beside the same one with no part traced, if the parsers behind names are. -/
theorem Expr.untraced_eval {traces : String → Parser ι ε (Value ι σ) → Prop}
    {env env' : Env ι σ ε} {e : Expr}
    (he : e.Every fun part => ∀ rule inner, part = .traced rule inner →
      traces rule (inner.eval env))
    (henv : ∀ name, Parser.Untraced (Parser.Spans traces) (env name) (env' name)) :
    Parser.Untraced (Parser.Spans traces) (e.eval env) (e.untraced.eval env') := by
  induction e with
  | scan mode s => exact fun i => .quiet (s.log_parser mode i)
  | succeed literal => exact fun i => .success _ i
  | fail kind => exact fun i => .reject i kind
  | failFatally kind => exact fun i => .failure _
  | askForMore => exact fun i => .failure _
  | eof => exact fun i => Run.Untraced.map _ (.ite (fun _ => .success () i) fun _ => .reject i .eof)
  | rest => exact fun i => Run.Untraced.map _ (.quiet (Parser.log_cut _ i))
  | restLength => exact fun i => Run.Untraced.map _ (.success _ i)
  | ref name => exact henv name
  | map g e ih => exact (ih (he.part (.head _))).map g.apply
  | mapRes g e ih => exact (ih (he.part (.head _))).mapRes g.result?
  | mapError g e ih => exact fun i => (ih (he.part (.head _)) i).mapFailure _
  | context kind e ih => exact fun i => (ih (he.part (.head _)) i).mapFailure _
  | commit e ih => exact fun i => (ih (he.part (.head _)) i).mapFailure _
  | replace literal e ih => exact fun i => (ih (he.part (.head _)) i).map _
  | opt e ih => exact (ih (he.part (.head _))).opt.map _
  | verify check e ih => exact (ih (he.part (.head _))).verify check.holds
  | recognize e ih => exact (ih (he.part (.head _))).recognize.map _
  | peek e ih => exact (ih (he.part (.head _))).peek
  | not e ih => exact (ih (he.part (.head _))).not.map _
  | cond condition e ih => exact ((ih (he.part (.head _))).cond condition).map _
  | allConsuming e ih => exact (ih (he.part (.head _))).allConsuming
  | complete e ih => exact (ih (he.part (.head _))).complete
  | traced rule e ih =>
    exact (ih (he.part (.head _))).traced fun i o outcome hlog houtcome =>
      ⟨e.eval env, i, he.here rule e rfl, rfl, hlog, houtcome⟩
  | flatten shape e ih => exact (ih (he.part (.head _))).map _
  | choice e ih => exact (ih (he.part (.head _))).choice
  | many0 e ih => exact ((ih (he.part (.head _))).collectMany0 .list).map _
  | many1 e ih => exact ((ih (he.part (.head _))).collectMany1 .list).map _
  | collectMany0 container e ih => exact (ih (he.part (.head _))).collectMany0 container.collector
  | collectMany1 container e ih => exact (ih (he.part (.head _))).collectMany1 container.collector
  | foldMany0 folding e ih =>
    exact (ih (he.part (.head _))).collectMany0 (.folding folding.start folding.step)
  | count n e ih => exact (((ih (he.part (.head _))).count n).reserving n).map _
  | manyMN min max e ih => exact ((ih (he.part (.head _))).manyMN min max).map _
  | pair e f ihe ihf =>
    exact ((ihe (he.part (.head _))).pair (ihf (he.part (.tail _ (.head _))))).map _
  | preceded left e ihl ihe =>
    exact (ihl (he.part (.head _))).preceded (ihe (he.part (.tail _ (.head _))))
  | terminated e right ihe ihr =>
    exact (ihe (he.part (.head _))).terminated (ihr (he.part (.tail _ (.head _))))
  | either e f ihe ihf =>
    exact (ihe (he.part (.head _))).either (ihf (he.part (.tail _ (.head _))))
  | manyTill e terminator ihe iht =>
    exact Parser.Untraced.map Value.ofTill
      ((ihe (he.part (.head _))).manyTill (iht (he.part (.tail _ (.head _)))))
  | separatedList sep item ihs ihi =>
    exact ((ihs (he.part (.head _))).separatedList (ihi (he.part (.tail _ (.head _))))).map _
  | separatedNonemptyList sep item ihs ihi =>
    exact ((ihs (he.part (.head _))).separatedNonemptyList
      (ihi (he.part (.tail _ (.head _))))).map _
  | separatedPair e sep f ihe ihs ihf =>
    exact ((ihe (he.part (.head _))).separatedPair (ihs (he.part (.tail _ (.head _))))
      (ihf (he.part (.tail _ (.tail _ (.head _)))))).map _
  | delimited left e right ihl ihe ihr =>
    exact (ihl (he.part (.head _))).delimited (ihe (he.part (.tail _ (.head _))))
      (ihr (he.part (.tail _ (.tail _ (.head _)))))

/-! ## Grammars -/

namespace Grammar

/-- The traced parsers of an expression and of the rules it may refer to, at any depth. -/
def Traces (g : Grammar) (ι ε : Type) {σ : Type} [Input ι σ] [Symbol σ] [ParseError ε ι] (e : Expr)
    (rule : String) (p : Parser ι ε (Value ι σ)) : Prop :=
  ∃ root inner depth, (root = e ∨ ∃ name, (name, root) ∈ g.rules) ∧
    (Expr.traced rule inner).Within root ∧
      p = inner.eval (g.unfold (fun _ _ => .stuck .tooDeep) depth)

theorem untraced_unfold (g : Grammar) (e : Expr) (depth : Nat) (name : String) :
    Parser.Untraced (Parser.Spans (g.Traces ι ε e))
      (g.unfold (fun _ _ => .stuck .tooDeep) depth name : Parser ι ε (Value ι σ))
      (g.untraced.unfold (fun _ _ => .stuck .tooDeep) depth name) := by
  induction depth generalizing name with
  | zero => exact fun _ => .stuck .tooDeep
  | succ depth ih =>
    intro i
    unfold unfold
    rw [body?_untraced]
    cases hbody : g.body? name with
    | none => exact .stuck (.undefinedRule name)
    | some body =>
      refine Expr.untraced_eval (Expr.every_of_within fun part hpart rule inner hrule => ?_) ih i
      exact ⟨body, inner, depth, .inr ⟨name, mem_rules_of_body? hbody⟩, hrule ▸ hpart, rfl⟩

theorem untraced_parse (g : Grammar) (e : Expr) (i : ι) :
    Run.Untraced (Parser.Spans (g.Traces ι ε e)) (g.parse e i : Run ι ε (Value ι σ))
      (g.untraced.parse e.untraced i) := by
  unfold parse
  rw [depthBound_untraced]
  refine Expr.untraced_eval (Expr.every_of_within fun part hpart rule inner hrule => ?_)
    (g.untraced_unfold e _) i
  exact ⟨e, inner, _, .inl rfl, hrule ▸ hpart, rfl⟩

/-- A parse that has ended has an outcome. -/
theorem exists_outcome [LawfulInput ι σ] (g : Grammar) (e : Expr) {i : ι} (hi : Valid i)
    (hends : (g.parse e i : Run ι ε _).Ends) :
    ∃ outcome, Parser.outcome? i (g.parse e i : Run ι ε _).reply = some outcome := by
  cases houtcome : Parser.outcome? i (g.parse e i : Run ι ε _).reply with
  | some outcome => exact ⟨outcome, rfl⟩
  | none =>
    rcases Parser.eq_of_outcome?_eq_none houtcome with ⟨fault, hstuck⟩ | ⟨v, r, hsuccess⟩
    · exact (hends fault hstuck).elim
    · obtain ⟨n, -, hboundary, rfl⟩ := (g.parse_confined e hi).1 v r hsuccess
      rw [hsuccess, Parser.outcome?, consumed?_splitAt hi hboundary] at houtcome
      cases houtcome

/-- **Traces are well nested, and tracing changes nothing.**  The trace of a parse that has ended,
well or badly, is an outline: every span in it is an application of a traced parser, with the
length of its input, what the parser logged, one deeper, and last the parser's outcome.  Behind the
trace the depth is what it was before, and every record is numbered by the applications it lies in.
Traced itself, an expression puts one span around its records and one outcome, the only one at its
depth, behind them.  No span is lost on the way: those of names that the expression itself does not
trace are the spans that its leaves log, in the order of their applications and whatever becomes of
them.  Without its traced parsers, and with those of its rules left out, a parse has the same reply,
and what else was logged is left, in order. -/
theorem traces_nested [LawfulInput ι σ] (g : Grammar) (e : Expr) {i : ι} (hi : Valid i)
    (depth : Nat) :
    ((g.parse e i : Run ι ε _).Ends →
      (∃ o : Outline, o.Shows (Parser.Spans (g.Traces ι ε e)) ∧
        (g.parse e i : Run ι ε _).log = o.signals ∧
        Record.ofSignals depth (g.parse e i : Run ι ε _).log = o.records depth) ∧
      Signal.depthAfter depth (g.parse e i : Run ι ε _).log = depth ∧
      (∀ r ∈ Record.ofSignals depth (g.parse e i : Run ι ε _).log,
        depth ≤ r.depth ∧ (r.isOutcome = true → depth < r.depth)) ∧
      ∀ rule, ∃ outcome,
        Parser.outcome? i (g.parse e i : Run ι ε _).reply = some outcome ∧
        (g.parse (.traced rule e) i : Run ι ε _).reply = (g.parse e i).reply ∧
        Record.ofSignals depth (g.parse (.traced rule e) i : Run ι ε _).log =
          .span depth rule (Input.length i) ::
            (Record.ofSignals (depth + 1) (g.parse e i : Run ι ε _).log ++
              [.event (depth + 1) outcome])) ∧
    (∀ reserved : String → Bool,
      (e.Every fun part => ∀ rule inner, part = .traced rule inner → reserved rule = false) →
        Signal.reservedSpans reserved (g.parse e i : Run ι ε _).log =
          (e.applications (g.unfold (fun _ _ => .stuck .tooDeep)
            (g.depthBound (Input.length i))) i).flatMap
              fun a : Application ε => Signal.reservedSpans reserved a.log) ∧
    (g.untraced.parse e.untraced i : Run ι ε _).reply = (g.parse e i).reply ∧
    Record.ofSignals depth (g.untraced.parse e.untraced i : Run ι ε _).log =
      ((Record.ofSignals depth (g.parse e i : Run ι ε _).log).filterMap
        Record.remaining?).map (.event depth) := by
  have huntraced := g.untraced_parse (ε := ε) e i
  refine ⟨fun hends => ?_, fun reserved he => ((Expr.assembled_eval _ he).owes i).spans_eq, ?_⟩
  · obtain ⟨o, hshows, hlog⟩ := huntraced.nested hends
    have hrecords : Record.ofSignals depth (g.parse e i : Run ι ε _).log = o.records depth := by
      rw [hlog, o.ofSignals_signals]
    have hdepth : ∀ depth, Signal.depthAfter depth (g.parse e i : Run ι ε _).log = depth := by
      intro depth
      rw [hlog, o.depthAfter_signals]
    refine ⟨⟨o, hshows, hlog, hrecords⟩, hdepth depth,
      fun r hr => hshows.depth_le (hrecords ▸ hr), fun rule => ?_⟩
    obtain ⟨outcome, houtcome⟩ := g.exists_outcome e hi hends
    have htraced : (g.parse (.traced rule e) i : Run ι ε _) =
        ⟨.enter rule (Input.length i) :: ((g.parse e i).log ++ [.event outcome, .leave]),
          (g.parse e i).reply⟩ :=
      Parser.traced_of_outcome (p := g.parse e) rule houtcome
    refine ⟨outcome, houtcome, by rw [htraced], ?_⟩
    rw [htraced, Record.ofSignals, Record.ofSignals_append, hdepth]
    rfl
  · have hnever : (g.parse e i : Run ι ε _).reply ≠ .stuck .grown := by
      intro hgrown
      rcases (g.parse_confined e hi).2.1 .grown hgrown with h | ⟨name, h⟩ | ⟨h, -⟩ <;> cases h
    obtain ⟨hreply, hlog⟩ := huntraced.agrees.resolve_left hnever
    exact ⟨hreply, by rw [hlog, Record.ofSignals_untraced depth depth]⟩

/-- A digit and a letter where a second digit may stand: the attempt is traced, though its failure
is caught. -/
theorem traces_nested_digits :
    let digit : Expr := .traced "digit" (.scan .complete (.one (.inClass .digit) .digit))
    let digits : Expr := .pair digit (.opt digit)
    let run : Run Text (Cause Text) _ := parse ⟨[]⟩ (.traced "digits" digits) ⟨['1', 'x']⟩
    run.reply = .success (.tuple [.symbol '1', .absent]) ⟨['x']⟩ ∧
    Record.ofSignals 0 run.log =
      [.span 0 "digits" 2, .span 1 "digit" 2, .event 2 (.matched 1), .span 1 "digit" 1,
        .event 2 (.noMatch .digit), .event 1 .optionalMissed, .event 1 (.matched 1)] ∧
    Record.ofSignals 0 (parse ⟨[]⟩ digits.untraced ⟨['1', 'x']⟩ : Run Text (Cause Text) _).log =
      [.event 0 .optionalMissed] := by
  intro digit digits run
  obtain ⟨hnested, -, -, hleft⟩ :=
    traces_nested (ε := Cause Text) ⟨[]⟩ digits (i := ⟨['1', 'x']⟩) trivial 0
  obtain ⟨-, -, -, htraced⟩ := hnested fun fault h => by cases h
  obtain ⟨outcome, houtcome, hreply, hrecords⟩ := htraced "digits"
  cases houtcome
  exact ⟨hreply, hrecords, hleft⟩

end Grammar

end ParseKit
