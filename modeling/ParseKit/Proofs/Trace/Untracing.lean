/-
  A run with tracing beside one without.

  The log of a run that has ended is an outline: each span in it stands for
  an application of a traced parser and ends with its outcome.  Without
  tracing the reply is the same, and so is what else is logged.
  `Run.Untraced` says both of two runs; `Run.Untraced.handle` is the step that
  all combinators share, and a traced parser puts one span around the outline
  it finds (`Parser.Untraced.traced`).
-/
import ParseKit.Expr.Eval
import ParseKit.Proofs.Parser.Decision
import ParseKit.Proofs.Parser.Repeat
import ParseKit.Proofs.Trace.Outline

set_option autoImplicit false

namespace ParseKit

variable {ι σ ε α β γ : Type}

/-! ## Runs -/

/-- A run that has ended with a reply about its input. -/
def Run.Ends (run : Run ι ε α) : Prop := ∀ fault, run.reply ≠ .stuck fault

/-- A run with traced parsers in it, of the applications given, and one without.  Only a span whose
parser would have grown its input can make their replies differ. -/
structure Run.Untraced (application : String → Nat → Outline → Event → Prop)
    (run run' : Run ι ε α) : Prop where
  agrees : run.reply = .stuck .grown ∨
    run'.reply = run.reply ∧ run'.log = Signal.untraced run.log
  nested : run.Ends → ∃ o : Outline, o.Shows application ∧ run.log = o.signals

namespace Run.Untraced

variable {application : String → Nat → Outline → Event → Prop} {run run' : Run ι ε α}

/-- A run that logs nothing traces nothing. -/
theorem quiet (h : run.log = []) : Untraced application run run :=
  ⟨.inr ⟨rfl, by rw [h]; rfl⟩, fun _ => ⟨.done, .done, h⟩⟩

theorem success (value : α) (rest : ι) :
    Untraced application (.success value rest : Run ι ε α) (.success value rest) :=
  quiet rfl

theorem failure (f : Failure ε) :
    Untraced application (.failure f : Run ι ε α) (.failure f) :=
  quiet rfl

theorem recoverable (e : ε) :
    Untraced application (.recoverable e : Run ι ε α) (.recoverable e) :=
  quiet rfl

theorem reject [ParseError ε ι] (i : ι) (kind : ErrorKind) :
    Untraced application (.reject i kind : Run ι ε α) (.reject i kind) :=
  quiet rfl

theorem stuck (fault : Fault) :
    Untraced application (.stuck fault : Run ι ε α) (.stuck fault) :=
  quiet rfl

/-- An event that is no outcome is logged with tracing and without. -/
theorem noting {e : Event} (he : e.isOutcome = false) (h : Untraced application run run') :
    Untraced application (run.noting e) (run'.noting e) := by
  constructor
  · rcases h.agrees with hgrown | ⟨hreply, hlog⟩
    · exact .inl hgrown
    · refine .inr ⟨hreply, ?_⟩
      exact (congrArg (Signal.event e :: ·) hlog).trans (Signal.untraced_event he run.log).symm
  · intro hends
    obtain ⟨o, hshows, hlog⟩ := h.nested hends
    exact ⟨.event e o, .event he hshows, congrArg (Signal.event e :: ·) hlog⟩

theorem stalled {σ : Type} [Input ι σ] [ParseError ε ι] {event : Event}
    (hevent : event.isOutcome = false) (kind : ErrorKind) (place before rest : ι) :
    Untraced application (.stalled event kind place before rest : Run ι ε α)
      (.stalled event kind place before rest) := by
  unfold Run.stalled
  split
  · exact .noting hevent (.reject place kind)
  · exact .stuck .grown

/-- A change of replies that leaves a run stuck which is. -/
theorem mapReply {ε' : Type} {g : Reply ι ε α → Reply ι ε' β}
    (hg : ∀ fault, g (.stuck fault) = .stuck fault) (h : Untraced application run run') :
    Untraced application ⟨run.log, g run.reply⟩ ⟨run'.log, g run'.reply⟩ := by
  constructor
  · rcases h.agrees with hgrown | ⟨hreply, hlog⟩
    · exact .inl ((congrArg g hgrown).trans (hg .grown))
    · exact .inr ⟨congrArg g hreply, hlog⟩
  · intro hends
    exact h.nested fun fault hstuck => hends fault ((congrArg g hstuck).trans (hg fault))

theorem map (f : α → β) (h : Untraced application run run') :
    Untraced application (run.map f) (run'.map f) :=
  h.mapReply fun _ => rfl

theorem mapFailure {ε' : Type} (f : Failure ε → Failure ε') (h : Untraced application run run') :
    Untraced application (run.mapFailure f) (run'.mapFailure f) :=
  h.mapReply fun _ => rfl

/-- A run behind one that has ended: the outlines of both in a row. -/
theorem append {next next' : Run ι ε β} (h : Untraced application run run') (hends : run.Ends)
    (hnext : Untraced application next next') :
    Untraced application (next.after run.log) (next'.after run'.log) := by
  obtain ⟨-, hlog⟩ := h.agrees.resolve_left (hends .grown)
  constructor
  · rcases hnext.agrees with hgrown | ⟨hreply, hlog'⟩
    · exact .inl hgrown
    · refine .inr ⟨hreply, ?_⟩
      rw [Run.after, Run.after, hlog, hlog', Signal.untraced_append]
  · intro hnextends
    obtain ⟨o, hshows, hsignals⟩ := h.nested hends
    obtain ⟨o', hshows', hsignals'⟩ := hnext.nested hnextends
    refine ⟨o.append o', hshows.append hshows', ?_⟩
    rw [Run.after, hsignals, hsignals', Outline.signals_append]

/-- Both runs go on in the same way after a reply. -/
theorem handle {onSuccess onSuccess' : α → ι → Run ι ε β} {onMiss onMiss' : ε → Run ι ε β}
    (h : Untraced application run run')
    (hsuccess : ∀ value rest,
      Untraced application (onSuccess value rest) (onSuccess' value rest))
    (hmiss : ∀ e, Untraced application (onMiss e) (onMiss' e)) :
    Untraced application (run.handle onSuccess onMiss) (run'.handle onSuccess' onMiss') := by
  rcases run with ⟨log, reply⟩
  rcases run' with ⟨log', reply'⟩
  rcases h.agrees with hgrown | ⟨hreply, hlog⟩
  · obtain rfl : reply = .stuck .grown := hgrown
    exact ⟨.inl rfl, fun hends => (hends .grown rfl).elim⟩
  · obtain rfl : reply' = reply := hreply
    -- After a success and after a miss both go on, after any other reply neither does.
    rcases reply' with ⟨value, rest⟩ | ⟨_ | e | e⟩ | fault
    · exact h.append (fun _ => nofun) (hsuccess value rest)
    · exact ⟨.inr ⟨rfl, hlog⟩, fun _ => h.nested fun _ => nofun⟩
    · exact h.append (fun _ => nofun) (hmiss e)
    · exact ⟨.inr ⟨rfl, hlog⟩, fun _ => h.nested fun _ => nofun⟩
    · exact ⟨.inr ⟨rfl, hlog⟩, fun hends => (hends fault rfl).elim⟩

theorem andThen {onSuccess onSuccess' : α → ι → Run ι ε β} (h : Untraced application run run')
    (hsuccess : ∀ value rest,
      Untraced application (onSuccess value rest) (onSuccess' value rest)) :
    Untraced application (run.andThen onSuccess) (run'.andThen onSuccess') :=
  h.handle hsuccess recoverable

theorem ite {c : Prop} [Decidable c] {other other' : Run ι ε α}
    (h : c → Untraced application run run') (h' : ¬ c → Untraced application other other') :
    Untraced application (if c then run else other) (if c then run' else other') := by
  split
  · exact h ‹_›
  · exact h' ‹_›

theorem dite {c : Prop} [Decidable c] {run run' : c → Run ι ε α} {other other' : Run ι ε α}
    (h : ∀ hc, Untraced application (run hc) (run' hc))
    (h' : ¬ c → Untraced application other other') :
    Untraced application (if hc : c then run hc else other)
      (if hc : c then run' hc else other') := by
  split
  · exact h _
  · exact h' ‹_›

end Run.Untraced

/-! ## Parsers -/

/-- A parser with traced parsers in it and one without. -/
def Parser.Untraced (application : String → Nat → Outline → Event → Prop)
    (p p' : Parser ι ε α) : Prop :=
  ∀ i, Run.Untraced application (p i) (p' i)

section

variable [Input ι σ] [ParseError ε ι]

omit [ParseError ε ι] in
theorem Parser.log_cut (n : Nat) (i : ι) : (cut n i : Run ι ε ι).log = [] := by
  unfold cut
  split <;> rfl

/-- Scanners log nothing. -/
theorem Scan.log_parser [Symbol σ] (mode : Mode) (s : Scan) (i : ι) :
    (s.parser mode i : Run ι ε (Value ι σ)).log = [] := by
  obtain ⟨d, -, hrun⟩ := Scan.decided mode s i
  rw [show s.parser mode i = d.run i from hrun ε]
  cases d <;> rfl

namespace Parser

variable {p : Parser ι ε α} {i : ι}

theorem isOutcome_outcome? {reply : Reply ι ε α} {e : Event} (h : outcome? i reply = some e) :
    e.isOutcome = true := by
  rcases reply with ⟨value, rest⟩ | ⟨_ | e | e⟩ | fault
  · obtain ⟨n, -, rfl⟩ := Option.map_eq_some_iff.1 h
    rfl
  · cases h
    rfl
  · cases h
    rfl
  · cases h
    rfl
  · cases h

/-- There is nothing to say about a parser that is stuck or has left more than it was given. -/
theorem eq_of_outcome?_eq_none {reply : Reply ι ε α} (h : outcome? i reply = none) :
    (∃ fault, reply = .stuck fault) ∨ ∃ value rest, reply = .success value rest := by
  rcases reply with ⟨value, rest⟩ | ⟨_ | e | e⟩ | fault
  · exact .inr ⟨value, rest, rfl⟩
  · cases h
  · cases h
  · cases h
  · exact .inl ⟨fault, rfl⟩

/-- A traced parser with an outcome logs it last in its span, and replies as the parser does. -/
theorem traced_of_outcome (rule : String) {e : Event} (h : outcome? i (p i).reply = some e) :
    Parser.traced rule p i =
      ⟨.enter rule (Input.length i) :: ((p i).log ++ [.event e, .leave]), (p i).reply⟩ := by
  unfold Parser.traced
  dsimp only
  rw [h]
  rfl

theorem traced_of_stuck (rule : String) {fault : Fault} (h : (p i).reply = .stuck fault) :
    Parser.traced rule p i =
      ⟨.enter rule (Input.length i) :: ((p i).log ++ [.leave]), .stuck fault⟩ := by
  unfold Parser.traced
  dsimp only
  rw [h]
  rfl

theorem reply_traced_of_grown (rule : String) {value : α} {rest : ι}
    (h : (p i).reply = .success value rest) (hnone : outcome? i (p i).reply = none) :
    (Parser.traced rule p i).reply = .stuck .grown := by
  unfold Parser.traced
  dsimp only
  rw [hnone, h]

end Parser

namespace Parser.Untraced

variable {application : String → Nat → Outline → Event → Prop} {p p' : Parser ι ε α}
  {q q' : Parser ι ε β} {r r' : Parser ι ε γ}

omit [Input ι σ] [ParseError ε ι] in
theorem map (f : α → β) (hp : Untraced application p p') :
    Untraced application (Parser.map f p) (Parser.map f p') :=
  fun i => (hp i).map f

omit [Input ι σ] in
theorem mapRes (f : α → Option β) (hp : Untraced application p p') :
    Untraced application (Parser.mapRes f p) (Parser.mapRes f p') := by
  refine fun i => (hp i).andThen fun value rest => ?_
  cases f value with
  | some converted => exact .success converted rest
  | none => exact .reject i .mapRes

omit [Input ι σ] in
theorem verify (check : α → Bool) (hp : Untraced application p p') :
    Untraced application (Parser.verify check p) (Parser.verify check p') :=
  fun i => (hp i).andThen fun value rest =>
    .ite (fun _ => .success value rest) fun _ => .reject i .verify

omit [ParseError ε ι] in
theorem recognize (hp : Untraced application p p') :
    Untraced application (Parser.recognize p) (Parser.recognize p') := by
  refine fun i => (hp i).andThen fun _ rest => ?_
  cases consumed? i rest with
  | some n =>
    exact Run.Untraced.andThen (.quiet (log_cut n i)) fun piece _ => .success piece rest
  | none => exact .stuck .grown

omit [Input ι σ] in
theorem complete (hp : Untraced application p p') :
    Untraced application (Parser.complete p) (Parser.complete p') := by
  intro i
  rw [complete_eq, complete_eq]
  exact (hp i).mapReply fun _ => rfl

omit [Input ι σ] [ParseError ε ι] in
theorem opt (hp : Untraced application p p') :
    Untraced application (Parser.opt p) (Parser.opt p') :=
  fun i => (hp i).handle (fun _ rest => .success _ rest) fun _ => .noting rfl (.success none i)

omit [Input ι σ] [ParseError ε ι] in
theorem cond (condition : Bool) (hp : Untraced application p p') :
    Untraced application (Parser.cond condition p) (Parser.cond condition p') :=
  fun i => .ite (fun _ => (hp i).map some) fun _ => .success none i

omit [Input ι σ] [ParseError ε ι] in
theorem peek (hp : Untraced application p p') :
    Untraced application (Parser.peek p) (Parser.peek p') :=
  fun i => (hp i).andThen fun value _ => .success value i

omit [Input ι σ] in
theorem not (hp : Untraced application p p') :
    Untraced application (Parser.not p) (Parser.not p') :=
  fun i => (hp i).handle (fun _ _ => .reject i .not) fun _ => .success () i

theorem allConsuming (hp : Untraced application p p') :
    Untraced application (Parser.allConsuming p) (Parser.allConsuming p') :=
  fun i => (hp i).andThen fun value rest =>
    .ite (fun _ => .success value rest) fun _ => .reject rest .eof

/-- A traced parser puts a span around the outline of the parser, with its outcome last. -/
theorem traced {rule : String} (hp : Untraced application p p')
    (hrule : ∀ i o e, (p i).log = o.signals → outcome? i (p i).reply = some e →
      application rule (Input.length i) o e) :
    Untraced application (Parser.traced rule p) p' := by
  intro i
  have hspan := hrule i
  obtain ⟨hagrees, hnested⟩ := hp i
  cases houtcome : outcome? i (p i).reply with
  | some e =>
    have he := isOutcome_outcome? houtcome
    rw [traced_of_outcome rule houtcome]
    constructor
    · rcases hagrees with hgrown | ⟨hreply, hlog⟩
      · exact .inl hgrown
      · refine .inr ⟨hreply, ?_⟩
        rw [hlog, Signal.untraced_enter, Signal.untraced_append, Signal.untraced_outcome he]
        exact (List.append_nil _).symm
    · intro hends
      obtain ⟨o, hshows, hsignals⟩ := hnested hends
      refine ⟨.span rule (Input.length i) o e .done,
        .span (hspan o e hsignals houtcome) he hshows .done, ?_⟩
      rw [hsignals]
      rfl
  | none =>
    rcases eq_of_outcome?_eq_none houtcome with ⟨fault, hstuck⟩ | ⟨value, rest, hsuccess⟩
    · rw [traced_of_stuck rule hstuck]
      constructor
      · rw [hstuck] at hagrees
        rcases hagrees with hgrown | ⟨hreply, hlog⟩
        · exact .inl hgrown
        · refine .inr ⟨hreply, ?_⟩
          rw [hlog, Signal.untraced_enter, Signal.untraced_append]
          exact (List.append_nil _).symm
      · intro hends
        exact (hends fault rfl).elim
    · have hgrown := reply_traced_of_grown rule hsuccess houtcome
      exact ⟨.inl hgrown, fun hends => (hends .grown hgrown).elim⟩

/-! ## Sequences and choices -/

omit [Input ι σ] [ParseError ε ι] in
theorem pair (hp : Untraced application p p') (hq : Untraced application q q') :
    Untraced application (Parser.pair p q) (Parser.pair p' q') :=
  fun i => (hp i).andThen fun _ rest => (hq rest).map _

omit [Input ι σ] [ParseError ε ι] in
theorem separatedPair (hp : Untraced application p p') (hq : Untraced application q q')
    (hr : Untraced application r r') :
    Untraced application (Parser.separatedPair p q r) (Parser.separatedPair p' q' r') :=
  fun i => (hp i).andThen fun _ rest => (hq rest).andThen fun _ rest => (hr rest).map _

omit [Input ι σ] [ParseError ε ι] in
theorem delimited (hp : Untraced application p p') (hq : Untraced application q q')
    (hr : Untraced application r r') :
    Untraced application (Parser.delimited p q r) (Parser.delimited p' q' r') :=
  fun i => (hp i).andThen fun _ rest => (hq rest).andThen fun _ rest => (hr rest).map _

omit [Input ι σ] [ParseError ε ι] in
theorem preceded (hp : Untraced application p p') (hq : Untraced application q q') :
    Untraced application (Parser.preceded p q) (Parser.preceded p' q') :=
  fun i => (hp i).andThen fun _ rest => hq rest

omit [Input ι σ] [ParseError ε ι] in
theorem terminated (hp : Untraced application p p') (hq : Untraced application q q') :
    Untraced application (Parser.terminated p q) (Parser.terminated p' q') :=
  fun i => (hp i).andThen fun _ rest => (hq rest).map _

omit [ParseError ε ι] in
theorem either {other other' : Parser ι ε α} (hp : Untraced application p p')
    (hother : Untraced application other other') :
    Untraced application (Parser.either p other) (Parser.either p' other') :=
  fun i => (hp i).handle .success fun _ => (hother i).noting rfl

theorem choice (hp : Untraced application p p') :
    Untraced application (Parser.choice p) (Parser.choice p') :=
  fun i => (hp i).handle .success fun _ => .noting rfl (.recoverable _)

/-! ## Repetitions -/

theorem drive (c : Collector α γ β) (hp : Untraced application p p') (guard : ErrorKind)
    (collected : γ) (i : ι) :
    Run.Untraced application (c.drive p guard collected ⟨i, none⟩)
      (c.drive p' guard collected ⟨i, none⟩) := by
  -- As a plain loop, a collector goes on only behind a value that shortens the input.
  rw [Collector.drive_open, Collector.drive_open]
  refine .ite (fun _ => ?_) fun _ => .success _ i
  refine (hp i).handle (fun value rest => ?_) fun _ => .noting rfl (.success _ i)
  refine .ite (fun hlt => ?_) fun _ => .stalled rfl guard i i rest
  exact drive c hp guard (c.push collected value) rest
termination_by Input.length i
decreasing_by exact hlt

theorem collectMany0 (c : Collector α γ β) (hp : Untraced application p p') :
    Untraced application (Parser.collectMany0 c p) (Parser.collectMany0 c p') :=
  fun i => drive c hp .many0 c.start i

theorem collectMany1 (c : Collector α γ β) (hp : Untraced application p p') :
    Untraced application (Parser.collectMany1 c p) (Parser.collectMany1 c p') := by
  refine fun i => (hp i).handle (fun first rest => ?_) fun _ => .recoverable _
  refine .ite (fun _ => ?_) fun _ => .stalled rfl .many1 i i rest
  exact .ite (fun _ => drive c hp .many1 _ rest) fun _ => .success _ rest

omit [Input ι σ] in
theorem countFrom (hp : Untraced application p p') (origin : ι) (n : Nat) (i : ι) :
    Run.Untraced application (Parser.countFrom origin p n i) (Parser.countFrom origin p' n i) := by
  induction n generalizing i with
  | zero => exact .success [] i
  | succ n ih => exact (hp i).handle (fun _ rest => (ih rest).map _) fun _ => .recoverable _

omit [Input ι σ] in
theorem count (n : Nat) (hp : Untraced application p p') :
    Untraced application (Parser.count n p) (Parser.count n p') :=
  fun i => hp.countFrom i n i

omit [Input ι σ] [ParseError ε ι] in
theorem reserving (n : Nat) (hp : Untraced application p p') :
    Untraced application (Parser.reserving n p) (Parser.reserving n p') :=
  fun i => .ite (fun _ => hp i) fun _ => .stuck .unreserved

theorem boundedFrom (hp : Untraced application p p') (origin : ι) (min max taken : Nat) (i : ι) :
    Run.Untraced application (Parser.boundedFrom origin min max p taken i)
      (Parser.boundedFrom origin min max p' taken i) := by
  rw [Parser.boundedFrom, Parser.boundedFrom]
  refine .ite (fun _ => ?_) fun _ => .success [] i
  refine (hp i).handle (fun value rest => ?_) fun _ =>
    .ite (fun _ => .recoverable _) fun _ => .success [] i
  refine .dite (fun hlt => ?_) fun _ => .stalled rfl .manyMN i i rest
  exact (boundedFrom hp origin min max (taken + 1) rest).map _
termination_by Input.length i
decreasing_by exact hlt

theorem manyMN (min max : Nat) (hp : Untraced application p p') :
    Untraced application (Parser.manyMN min max p) (Parser.manyMN min max p') :=
  fun i => .ite (fun _ => .reject i .manyMN) fun _ => boundedFrom hp i min max 0 i

theorem manyTill (hp : Untraced application p p') (hq : Untraced application q q') (i : ι) :
    Run.Untraced application (Parser.manyTill p q i) (Parser.manyTill p' q' i) := by
  rw [Parser.manyTill, Parser.manyTill]
  refine (hq i).handle (fun _ rest => .success _ rest) fun _ => ?_
  refine (hp i).handle (fun value rest => ?_) fun _ => .recoverable _
  refine .dite (fun hlt => ?_) fun _ => .stalled rfl .manyTill i i rest
  exact (manyTill hp hq rest).map _
termination_by Input.length i
decreasing_by exact hlt

theorem separatedTail (hq : Untraced application q q') (hp : Untraced application p p') (i : ι) :
    Run.Untraced application (Parser.separatedTail q p i) (Parser.separatedTail q' p' i) := by
  rw [Parser.separatedTail, Parser.separatedTail]
  refine (hq i).handle (fun _ afterSep => ?_) fun _ => .success [] i
  refine .dite (fun hsep => ?_) fun _ => .stalled rfl .separatedList i i afterSep
  refine (hp afterSep).handle (fun value rest => ?_) fun _ => .noting rfl (.success [] i)
  refine .dite (fun hitem => ?_) fun _ => .stalled rfl .separatedList i afterSep rest
  exact (separatedTail hq hp rest).map _
termination_by Input.length i
decreasing_by omega

theorem separatedAfter (hq : Untraced application q q') (hp : Untraced application p p') (i : ι)
    (first : α) (rest : ι) :
    Run.Untraced application (Parser.separatedAfter q p i first rest)
      (Parser.separatedAfter q' p' i first rest) :=
  .ite (fun _ => (separatedTail hq hp rest).map _) fun _ => .stalled rfl .separatedList i i rest

theorem separatedList (hq : Untraced application q q') (hp : Untraced application p p') :
    Untraced application (Parser.separatedList q p) (Parser.separatedList q' p') :=
  fun i => (hp i).handle (separatedAfter hq hp i) fun _ => .success [] i

theorem separatedNonemptyList (hq : Untraced application q q') (hp : Untraced application p p') :
    Untraced application (Parser.separatedNonemptyList q p)
      (Parser.separatedNonemptyList q' p') :=
  fun i => (hp i).andThen (separatedAfter hq hp i)

end Parser.Untraced

end

end ParseKit
