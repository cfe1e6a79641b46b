/-
  Only recoverable failures are caught.

  A fatal failure of a leaf, or a request of a leaf for more input, is the
  last thing that happens in a parse: no combinator goes on after it, and it
  is the reply of the whole, changed by nothing but the changes of errors
  around the leaf.  Only `complete` takes a request for more input as an
  answer.
-/
import ParseKit.Input.Text
import ParseKit.Proofs.Expr.Assembled
import ParseKit.Proofs.Parser.Decision
import ParseKit.Proofs.Parser.Owing

set_option autoImplicit false

namespace ParseKit

variable {ι ε ε' α β : Type}

/-! ## Primitives -/

section

variable {σ : Type} [Input ι σ] [ParseError ε ι]

/-- A primitive decides. -/
theorem Primitive.decision [Symbol σ] {mode : Mode} {p : Parser ι ε α} (hp : Primitive mode p)
    (i : ι) :
    ∃ d : Decision ι α, (d = .ask → mode = .streaming) ∧ p i = d.run i := by
  have hdecided : ∀ {run : (ε : Type) → [ParseError ε ι] → Run ι ε α}, Decided mode i run →
      ∃ d : Decision ι α, (d = .ask → mode = .streaming) ∧ run ε = d.run i := by
    intro run ⟨d, hask, hrun⟩
    exact ⟨d, hask, hrun ε⟩
  cases hp with
  | tag => exact hdecided (Parser.decided_tag ..)
  | take => exact hdecided (Parser.decided_take ..)
  | takeRun => exact hdecided (Parser.decided_takeRun ..)
  | takeBounded => exact hdecided (Parser.decided_takeBounded ..)
  | one => exact hdecided (Parser.decided_one ..)
  | char => exact hdecided ((Parser.decided_one ..).map _)
  | succeed value => exact hdecided (.success value i)
  | fail kind => exact hdecided (.reject kind)
  | eof => exact hdecided (.ite (.success () i) (.reject .eof))
  | rest => exact hdecided (.cut _)
  | restLength => exact hdecided (.success _ i)

/-- No primitive fails fatally, and in complete mode none asks for more input. -/
theorem Primitive.lawful [Symbol σ] {mode : Mode} {p : Parser ι ε α} (hp : Primitive mode p)
    (i : ι) : (Application.of (.primitive mode) (p i)).Lawful := by
  obtain ⟨d, hask, hrun⟩ := hp.decision i
  rw [hrun]
  cases d with
  | take value rest => exact ⟨nofun, nofun⟩
  | refuse kind => exact ⟨nofun, nofun⟩
  | ask => exact ⟨nofun, fun _ => .inr (congrArg Origin.primitive (hask rfl))⟩
  | stuck fault => exact ⟨nofun, nofun⟩

/-! ## Assembled parsers -/

/-- Assembled parsers owe their runs to the applications of their leaves. -/
theorem Assembled.owes [Symbol σ] {reserved : String → Bool} {p : Parser ι ε α}
    {ps : Applications ι ε} (h : Assembled reserved p ps) (i : ι) : (p i).Owes reserved (ps i) := by
  -- Each combinator handles the replies of its parts, and handling adds what is owed behind them.
  induction h generalizing i with
  | primitive hp => exact .leaf (hp.lawful i)
  | client p => exact .leaf ⟨fun _ _ => rfl, fun _ => .inl rfl⟩
  | map f _ ih => exact (ih i).map f
  | mapRes f _ ih =>
    refine (ih i).andThen_own fun value rest => ?_
    split
    · exact .success _ rest
    · exact .reject i .mapRes
  | mapError f _ ih => exact (ih i).mapError f
  | replace value _ ih => exact (ih i).map fun _ => value
  | verify check _ ih =>
    refine (ih i).andThen_own fun value rest => ?_
    split
    · exact .success value rest
    · exact .reject i .verify
  | recognize _ ih =>
    refine (ih i).andThen_own fun value rest => ?_
    split
    · exact .andThen_own (Parser.owes_cut _ i) fun piece _ => .success piece rest
    · exact .stuck .grown
  | opt _ ih =>
    exact (ih i).handle_own (fun value rest => .success _ rest) fun _ => .noting _ (.success none i)
  | cond condition _ ih =>
    unfold Parser.cond
    exact .ite (fun _ => (ih i).map some) fun _ => .success none i
  | peek _ ih => exact (ih i).andThen_own fun value _ => .success value i
  | not _ ih => exact (ih i).handle_own (fun _ _ => .reject i .not) fun _ => .success () i
  | allConsuming _ ih =>
    refine (ih i).andThen_own fun value rest => ?_
    split
    · exact .success value rest
    · exact .reject rest .eof
  | complete _ ih => exact (ih i).complete
  | traced hrule _ ih => exact (ih i).traced hrule
  | pair _ _ ihp ihq => exact (ihp i).andThen fun _ rest => (ihq rest).map _
  | separatedPair _ _ _ ihp ihs ihq =>
    exact (ihp i).andThen fun _ rest => (ihs rest).andThen fun _ rest => (ihq rest).map _
  | delimited _ _ _ ihl ihp ihr =>
    exact (ihl i).andThen fun _ rest => (ihp rest).andThen fun _ rest => (ihr rest).map _
  | preceded _ _ ihl ihp => exact (ihl i).andThen fun _ rest => ihp rest
  | terminated _ _ ihp ihr => exact (ihp i).andThen fun _ rest => (ihr rest).map _
  | either _ _ ihp ihq => exact (ihp i).handle .success fun _ => (ihq i).noting _
  | choice _ ih => exact (ih i).handle_own .success fun _ => .noting _ (.recoverable _)
  | collectMany0 c _ ih => exact c.owes_drive ih .many0 c.start i
  | collectMany1 c _ ih =>
    refine (ih i).handle (fun first rest => ?_) fun _ => .recoverable _
    refine .ite (fun _ => ?_) fun _ => .stalled _ .many1 i i rest
    exact .ite (fun _ => c.owes_drive ih .many1 _ rest) fun _ => .success _ rest
  | count n _ ih => exact Parser.owes_countFrom ih i n i
  | reserving n _ ih => exact .ite (fun _ => ih i) fun _ => .stuck .unreserved
  | manyMN min max _ ih =>
    exact .ite (fun _ => .reject i .manyMN) fun _ =>
      Parser.owes_boundedFrom ih i (Nat.zero_add max) i
  | manyTill _ _ ihp iht => exact Parser.owes_manyTill ihp iht i
  | separatedList _ _ ihs ihi =>
    exact (ihi i).handle (Parser.owes_separatedAfter ihs ihi i) fun _ => .success [] i
  | separatedNonemptyList _ _ ihs ihi =>
    exact (ihi i).andThen (Parser.owes_separatedAfter ihs ihi i)
  | collecting c guard rounds _ ih =>
    exact Loop.owes_parser (Loop.owes_collecting c guard ih) rounds i
  | collectingOnce c rounds _ ih => exact Loop.owes_parser (Loop.owes_collectingOnce c ih) rounds i
  | bounded rounds _ _ ih => exact Loop.owes_parser (Loop.owes_bounded ih) rounds i
  | till rounds _ _ ihp iht => exact Loop.owes_parser (Loop.owes_till ihp iht) rounds i
  | list rounds _ _ ihs ihi =>
    exact Loop.owes_parser (Loop.owes_separated (fun i _ => .success _ i) ihs ihi) rounds i
  | nonemptyList rounds _ _ ihs ihi =>
    exact Loop.owes_parser (Loop.owes_separated (fun _ _ => .recoverable _) ihs ihi) rounds i

/-- **Nothing but a recoverable failure is caught.**  Among the applications of leaves that an
assembled parser makes on an input, one that fails fatally is the last one, and the parser fails
fatally with the error of the leaf, changed by the changes of errors around the leaf and nothing
else.  One that asks for more input is the last one and the parser asks for more input, unless the
end of the input is taken as final around the leaf; taking it as final around the parser makes a
recoverable failure at the input of it.  Where the parser fails fatally or asks for more input, its
last application has done so; it is one of a client, or of a primitive in streaming mode that asks
for more input.  A leaf may leave whatever remainder it likes: behind a longer one the loop of a
repetition goes on for as many rounds as it is given.  The applications are in the log: what it
shows of the spans with names left to clients is what they log in such spans, in order. -/
theorem Assembled.only_recoverable_caught [Symbol σ] {reserved : String → Bool}
    {p : Parser ι ε α} {ps : Applications ι ε} (h : Assembled reserved p ps) (i : ι) :
    (∀ before (a : Application ε) after (e : a.Error), ps i = before ++ a :: after →
      a.failure? = some (.fatal e) → after = [] ∧ (p i).reply = .failure (.fatal (a.change e))) ∧
    (∀ before a after, ps i = before ++ a :: after → a.failure? = some .incomplete →
      a.completed = false → after = [] ∧ (p i).reply = .failure .incomplete ∧
        (Parser.complete p i).reply = .failure (.recoverable (ParseError.ofKind i .eof))) ∧
    (∀ e, (p i).reply = .failure (.fatal e) →
      ∃ before a raw, ps i = before ++ [a] ∧ a.origin = .client ∧
        a.failure? = some (.fatal raw) ∧ a.change raw = e) ∧
    ((p i).reply = .failure .incomplete →
      ∃ before a, ps i = before ++ [a] ∧
        (a.origin = .client ∨ a.origin = .primitive .streaming) ∧
        a.failure? = some .incomplete ∧ a.completed = false) ∧
    Signal.reservedSpans reserved (p i).log =
      (ps i).flatMap fun a => Signal.reservedSpans reserved a.log := by
  obtain ⟨hspans, hstops, hlawful⟩ := h.owes i
  have hlast : ∀ {before : List (Application ε)} {a : Application ε}, ps i = before ++ [a] →
      a.Lawful := by
    intro before a hps
    exact hlawful a (hps ▸ List.mem_append_right before (List.mem_singleton_self a))
  refine ⟨?_, ?_, ?_, ?_, hspans⟩
  · intro before a after e hps hfatal
    have hstop : a.stop? = some (.fatal (a.change e)) :=
      Application.stop?_eq_fatal_iff.2 ⟨e, hfatal, rfl⟩
    rw [hps] at hstops
    obtain ⟨hafter, hreply⟩ := hstops.eq_of_stop hstop
    exact ⟨hafter, Reply.eq_of_stop? hreply⟩
  · intro before a after hps hincomplete hcompleted
    have hstop : a.stop? = some .incomplete :=
      Application.stop?_eq_incomplete_iff.2 ⟨hincomplete, hcompleted⟩
    rw [hps] at hstops
    obtain ⟨hafter, hreply⟩ := hstops.eq_of_stop hstop
    have hfailure := Reply.eq_of_stop? hreply
    refine ⟨hafter, hfailure, ?_⟩
    simp only [Parser.complete, hfailure]
    rfl
  · intro e hreply
    rw [hreply] at hstops
    obtain ⟨before, a, hps, hstop⟩ := hstops.exists_last
    obtain ⟨raw, hfatal, hchange⟩ := Application.stop?_eq_fatal_iff.1 hstop
    exact ⟨before, a, raw, hps, (hlast hps).1 raw hfatal, hfatal, hchange⟩
  · intro hreply
    rw [hreply] at hstops
    obtain ⟨before, a, hps, hstop⟩ := hstops.exists_last
    obtain ⟨hincomplete, hcompleted⟩ := Application.stop?_eq_incomplete_iff.1 hstop
    exact ⟨before, a, hps, (hlast hps).2 hincomplete, hincomplete, hcompleted⟩

end

/-- Twice a digit or else a rule, which fails fatally behind the first digit and behind a request
for more input that is taken as final: four applications, and the error of the last one is changed
around it.  The loop of a leaf that makes two symbols of one and fails fatally on two: it is applied
to them. -/
theorem Assembled.only_recoverable_caught_rule :
    let e : Expr := .count 2 (.either (.scan .streaming (.one (.inClass .digit) .digit))
      (.mapError (.rekind .user)
        (.either (.complete (.scan .streaming (.take 3))) (.ref "rule"))))
    let env : Expr.Env Text Char (Flat Text) := fun _ => Parser.failFatally .digit
    Assembled (fun _ => false) (e.eval env) (e.applications env) ∧
      ((e.applications env ⟨['1', 'x']⟩).map fun a => a.failure?.map Failure.isFatal) =
        [none, some false, some false, some true] ∧
      (e.eval env ⟨['1', 'x']⟩).reply = .failure (.fatal (⟨['x']⟩, .user)) ∧
    let grows : Parser Text (Flat Text) Unit := fun i =>
      if Input.length i = 1 then .success () ⟨['b', 'b']⟩ else Parser.failFatally .user i
    let looped := Loop.parser (.collecting .list .many0 grows) fun _ => 3
    ∃ applications, Assembled (fun _ => false) looped applications ∧
      ((applications ⟨['a']⟩).map fun a => a.failure?.map Failure.isFatal) = [none, some true] ∧
      (looped ⟨['a']⟩).reply = .failure (.fatal (⟨['b', 'b']⟩, .user)) := by
  intro e env
  have hassembled : Assembled (fun _ => false) (e.eval env) (e.applications env) :=
    Expr.assembled_eval env (Expr.every_of_forall (fun _ _ _ _ => rfl) e)
  let leaf : Application (Flat Text) :=
    (Application.of .client (env "rule" ⟨['x']⟩)).mapError (ErrorMap.rekind .user).apply
  obtain ⟨before, hlast⟩ : ∃ before, e.applications env ⟨['1', 'x']⟩ = before ++ [leaf] :=
    ⟨[_, _, _], rfl⟩
  obtain ⟨hfatal, -⟩ := hassembled.only_recoverable_caught ⟨['1', 'x']⟩
  refine ⟨hassembled, rfl, (hfatal before leaf [] (⟨['x']⟩, .digit) hlast rfl).2, ?_⟩
  intro grows looped
  have hlooped : Assembled (fun _ => false) looped _ :=
    .collecting .list .many0 (fun _ => 3) (.client grows)
  obtain ⟨hfatal, -⟩ := hlooped.only_recoverable_caught ⟨['a']⟩
  exact ⟨_, hlooped, rfl, (hfatal [_] (.of .client (grows ⟨['b', 'b']⟩)) [] _ rfl rfl).2⟩

end ParseKit
