/-
  Repetitions end.

  The loops of the repetitions end for parsers that leave no remainder longer
  than their input, whatever they do otherwise, and they return no more than
  the input is long.
-/
import ParseKit.Proofs.Parser.Rounds
import ParseKit.Proofs.SeparatedLists

set_option autoImplicit false

namespace ParseKit

variable {ι σ ε α β γ : Type} [Input ι σ] [ParseError ε ι]

/-! ## Repetitions end -/

namespace Parser

variable {p : Parser ι ε α} {sep : Parser ι ε β}

/-- An unbounded repetition asks for more input only where its parser does. -/
theorem exists_incomplete_of_many0 (hp : p.NeverGrows) {i : ι}
    (h : (many0 p i).reply = .failure .incomplete) :
    ∃ steps, Path p.Advances i steps ∧ (p (reached i steps)).reply = .failure .incomplete := by
  obtain ⟨steps, hrun⟩ := hp.exists_greedyRun i
  refine ⟨steps, (greedyRun_iff.1 hrun).1, ?_⟩
  rw [many0_greedy hp hrun] at h
  rcases hlast : (p (reached i steps)).reply with ⟨value, rest⟩ | ⟨_ | e | e⟩ | fault
  case failure.incomplete => rfl
  all_goals
    rw [hlast] at h
    cases h

open Loop in
/-- **Every repetition ends.**  If no remainder of the repeated parser is longer than its input,
nor one of the separator where there is one, the loop of each repetition ends on every input with
the reply of the repetition, whatever the parsers do otherwise: every round that goes on has
shortened the input, so there are no more items than the input is long and no more than one round
further.  Neither the bounds of a bounded repetition nor the terminator or the collector make a
difference to that; bounds in the wrong order are an error before the loop.  What is returned is no
longer than the input either, and an unbounded repetition asks for more input only if one of the
applications of its parser has. -/
theorem repetitions_end {δ : Type} (hp : p.NeverGrows) (hsep : sep.NeverGrows)
    (terminator : Parser ι ε δ) :
    (∀ (γ δ : Type) (c : Collector α γ δ), (collecting c .many0 p).Ends (collectMany0 c p)) ∧
    (∀ (γ δ : Type) (c : Collector α γ δ), (collectingOnce c p).Ends (collectMany1 c p)) ∧
    (collecting .list .many0 p).Ends (many0 p) ∧
    (collectingOnce .list p).Ends (many1 p) ∧
    (∀ (δ : Type) (start : δ) (step : δ → α → δ),
      (collecting (.folding start step) .many0 p).Ends (foldMany0 start step p)) ∧
    (∀ min max, min ≤ max → (bounded min max p).Ends (manyMN min max p)) ∧
    (∀ min max i, max < min → manyMN min max p i = .reject i .manyMN) ∧
    (till p terminator).Ends (manyTill p terminator) ∧
    (Loop.list sep p).Ends (separatedList sep p) ∧
    (nonemptyList sep p).Ends (separatedNonemptyList sep p) ∧
    ReturnsWithin List.length (many0 p) ∧
    ReturnsWithin List.length (many1 p) ∧
    (∀ min max, ReturnsWithin List.length (manyMN min max p)) ∧
    ReturnsWithin (fun found => found.1.length) (manyTill p terminator) ∧
    ReturnsWithin List.length (separatedList sep p) ∧
    ReturnsWithin List.length (separatedNonemptyList sep p) ∧
    ∀ i, (many0 p i).reply = .failure .incomplete →
      ∃ steps, Path p.Advances i steps ∧
        (p (reached i steps)).reply = .failure .incomplete := by
  have hitems : ∀ items values : List α, values = items → values.length ≤ items.length :=
    fun items values h => Nat.le_of_eq (congrArg List.length h)
  have hcollected : ∀ items values : List α,
      values = Collector.list.finish (items.foldl Collector.list.push Collector.list.start) 0 →
        values.length ≤ items.length := fun items values h =>
    hitems _ _ (h.trans (Collector.finish_foldl_list items []))
  have hkeeps := hp.keeps
  have hsepKeeps := hsep.keeps
  have hmany0 := ends_collecting hkeeps .list .many0
  have hmany1 := ends_collectingOnce hkeeps .list
  refine ⟨fun _ _ c => ends_collecting hkeeps c .many0, fun _ _ c => ends_collectingOnce hkeeps c,
    hmany0, hmany1, fun _ start step => ends_collecting hkeeps (.folding start step) .many0,
    fun min max h => ends_bounded hkeeps h, fun min max i h => if_pos h,
    ends_till hkeeps terminator, ends_list hsepKeeps hkeeps, ends_nonemptyList hsepKeeps hkeeps,
    hmany0.returnsWithin (makes_collecting hkeeps .list .many0) hcollected,
    hmany1.returnsWithin (makes_collectingOnce hkeeps .list) fun items values h => ?_,
    fun min max => ?_,
    (ends_till hkeeps terminator).returnsWithin (makes_till hkeeps terminator) fun items value h =>
      hitems items value.1 h,
    (ends_list hsepKeeps hkeeps).returnsWithin (makes_list hsepKeeps hkeeps) hitems,
    (ends_nonemptyList hsepKeeps hkeeps).returnsWithin (makes_nonemptyList hsepKeeps hkeeps) hitems,
    fun i => exists_incomplete_of_many0 hp⟩
  · obtain hvalues | ⟨hwants, -⟩ := h
    · exact hcollected items values hvalues
    · cases hwants
  · rcases Nat.lt_or_ge max min with hlt | hle
    · intro i values rest hreply
      rw [manyMN, if_pos hlt] at hreply
      cases hreply
    · exact (ends_bounded hkeeps hle).returnsWithin (makes_bounded hkeeps min max) hitems

/-- Runs of digits that may be empty: a list of them stalls behind a comma, and a repetition of
single digits that may go on asks for more input; the loops of both end. -/
theorem repetitions_end_digits :
    let digits : Parser Text (Cause Text) (Value Text Char) :=
      (Expr.scan .complete .digit0).eval fun _ _ => .stuck .tooDeep
    let digit : Parser Text (Cause Text) (Value Text Char) :=
      (Expr.scan .streaming (.one (.inClass .digit) .digit)).eval fun _ _ => .stuck .tooDeep
    let comma : Parser Text (Cause Text) (Value Text Char) :=
      (Expr.scan .complete (.char ',')).eval fun _ _ => .stuck .tooDeep
    digits.NeverGrows ∧ digit.NeverGrows ∧ comma.NeverGrows ∧
    (Loop.list comma digits).run ⟨['1', ',', 'x']⟩ 4 [] ⟨['1', ',', 'x']⟩ =
      some (separatedList comma digits ⟨['1', ',', 'x']⟩) ∧
    (Loop.bounded 1 1000000 digits).run ⟨['1', '2', 'x']⟩ 4 [] ⟨['1', '2', 'x']⟩ =
      some (manyMN 1 1000000 digits ⟨['1', '2', 'x']⟩) ∧
    (many0 digit ⟨['1']⟩).reply = .failure .incomplete ∧
    ∃ steps, Path digit.Advances ⟨['1']⟩ steps ∧
      (digit (reached ⟨['1']⟩ steps)).reply = .failure .incomplete := by
  intro digits digit comma
  have hdigits : digits.NeverGrows :=
    Expr.neverGrows_scan (fun _ => trivial) _ .complete .digit0
  have hdigit : digit.NeverGrows :=
    Expr.neverGrows_scan (fun _ => trivial) _ .streaming (.one (.inClass .digit) .digit)
  have hcomma : comma.NeverGrows :=
    Expr.neverGrows_scan (fun _ => trivial) _ .complete (.char ',')
  have hrun : digit.GreedyRun ⟨['1']⟩ [⟨.symbol '1', ⟨[]⟩⟩] :=
    .step rfl (by decide) (.halted fun _ _ h => by cases h)
  have hincomplete : (many0 digit ⟨['1']⟩).reply = .failure .incomplete :=
    many0_greedy hdigit hrun
  obtain ⟨-, -, -, -, -, hbounded, -, -, hlist, -⟩ := repetitions_end hdigits hcomma comma
  obtain ⟨-, -, -, -, -, -, -, -, -, -, -, -, -, -, -, -, hasks⟩ :=
    repetitions_end hdigit hcomma comma
  exact ⟨hdigits, hdigit, hcomma, hlist.ends trivial (by decide),
    (hbounded 1 1000000 (by decide)).ends trivial (by decide), hincomplete, hasks _ hincomplete⟩

end Parser

end ParseKit
