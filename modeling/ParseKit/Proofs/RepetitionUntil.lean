/-
  Repetition up to a terminator.

  At every place the terminator is tried first, and the repeated parser only
  where it is missed.  So the values are those of the path on which every
  place misses the terminator, and the end of the path decides.  The same
  path is the greedy run of the parser behind the negated terminator, which
  is how the repetition can be put together from other parsers.
-/
import ParseKit.Proofs.Repetition
import ParseKit.Proofs.Sequence

set_option autoImplicit false

namespace ParseKit

variable {ι σ ε α β : Type} [Input ι σ]

/-- How a repetition ends with `values` at a place where it makes no step, by the reply of the
terminator there; `otherwise` is how it ends where the terminator is missed. -/
def Reply.terminated (reply : Reply ι ε β) (values : List α) (otherwise : Reply ι ε (List α × β)) :
    Reply ι ε (List α × β) :=
  match reply with
  | .success last rest => .success (values, last) rest
  | .failure (.recoverable _) => otherwise
  | .failure f => .failure f
  | .stuck fault => .stuck fault

namespace Parser

variable {p : Parser ι ε α} {terminator : Parser ι ε β} {i : ι} {steps : List (Success α ι)}

/-- The successes of a parser that take something, where a terminator is missed. -/
def AdvancesUntil (p : Parser ι ε α) (terminator : Parser ι ε β) : Step ι α :=
  fun i value rest => terminator.Misses i ∧ p.Advances i value rest

theorem determined_advancesUntil (hp : p.NeverGrows) : (p.AdvancesUntil terminator).Determined where
  shortens h := hp.shortens h.2
  unique h h' := hp.determined_advances.unique h.2 h'.2

/-- Where the terminator is missed and no step can be made, the parser does not go on. -/
theorem halts_of_blocked_advancesUntil (h : (p.AdvancesUntil terminator).Blocked i)
    (hmiss : terminator.Misses i) : p.Halts i :=
  blocked_advances_iff.1 fun value rest hstep => h value rest ⟨hmiss, hstep⟩

variable [ParseError ε ι]

/-! ## The path to the end -/

theorem manyTill_of_step (hp : p.NeverGrows) {value : α} {rest : ι}
    (h : p.AdvancesUntil terminator i value rest) :
    (manyTill p terminator i).reply =
      (manyTill p terminator rest).reply.map fun found => (value :: found.1, found.2) := by
  obtain ⟨⟨e, hmiss⟩, hstep⟩ := h
  rw [manyTill, Run.reply_handle_of_miss hmiss, Run.reply_handle_of_success hstep.1,
    dif_pos (hp.shortens hstep)]
  rfl

theorem manyTill_of_path (hp : p.NeverGrows) (h : Path (p.AdvancesUntil terminator) i steps) :
    (manyTill p terminator i).reply =
      (manyTill p terminator (reached i steps)).reply.map
        fun found => (steps.map Success.value ++ found.1, found.2) := by
  induction h with
  | nil => exact (congrArg Run.reply (Run.map_id _)).symm
  | cons hfirst _ ih =>
    rw [manyTill_of_step hp hfirst, ih, Reply.map_map]
    rfl

/-- A terminator that matches ends the repetition. -/
theorem manyTill_of_success {last : β} {rest : ι}
    (h : (terminator i).reply = .success last rest) :
    (manyTill p terminator i).reply = .success ([], last) rest := by
  rw [manyTill, Run.reply_handle_of_success h]
  rfl

/-- Where no step can be made the reply of the terminator decides, and the reply of the parser if
that is a miss. -/
theorem manyTill_of_blocked (h : (p.AdvancesUntil terminator).Blocked i) :
    (manyTill p terminator i).reply =
      (terminator i).reply.terminated [] ((p i).reply.interrupted .manyTill i i) := by
  rcases hreply : (terminator i).reply with ⟨last, rest⟩ | ⟨_ | e | e⟩ | fault
  case success => exact manyTill_of_success hreply
  case failure.recoverable =>
    have hhalts := halts_of_blocked_advancesUntil h ⟨e, hreply⟩
    rw [manyTill, Run.reply_handle_of_miss hreply]
    rcases hrun : p i with ⟨log, ⟨value, rest⟩ | ⟨_ | e | e⟩ | fault⟩
    case success =>
      have hlength := hhalts value rest (by rw [hrun])
      rw [Run.handle_success, dif_neg (hlength ▸ Nat.lt_irrefl _), Run.stalled_of_eq hlength]
      rfl
    all_goals rfl
  all_goals
    rw [manyTill, Run.handle, hreply]
    rfl

/-- The end of its path decides how a repetition up to a terminator ends. -/
theorem manyTill_of_course (hp : p.NeverGrows) (h : Course (p.AdvancesUntil terminator) i steps) :
    (manyTill p terminator i).reply =
      (terminator (reached i steps)).reply.terminated (steps.map Success.value)
        ((p (reached i steps)).reply.interrupted .manyTill (reached i steps)
          (reached i steps)) := by
  rw [manyTill_of_path hp h.1, manyTill_of_blocked h.2]
  rcases (terminator (reached i steps)).reply with ⟨last, rest⟩ | ⟨_ | e | e⟩ | fault
  case success =>
    exact congrArg (fun values => Reply.success (values, last) rest) (List.append_nil _)
  case failure.recoverable => exact Reply.map_interrupted _ _ _ _ _
  all_goals rfl

theorem manyTill_success_iff (hp : p.NeverGrows) {values : List α} {last : β} {rest : ι} :
    (manyTill p terminator i).reply = .success (values, last) rest ↔
      ∃ steps, Path (p.AdvancesUntil terminator) i steps ∧ values = steps.map Success.value ∧
        (terminator (reached i steps)).reply = .success last rest := by
  constructor
  · intro h
    obtain ⟨steps, hcourse⟩ := (determined_advancesUntil hp).exists_course i
    rw [manyTill_of_course hp hcourse] at h
    rcases hreply : (terminator (reached i steps)).reply with ⟨last', rest'⟩ | ⟨_ | e | e⟩ | fault
    case success =>
      rw [hreply] at h
      cases h
      exact ⟨steps, hcourse.1, rfl, hreply⟩
    case failure.recoverable =>
      rw [hreply] at h
      exact (Reply.interrupted_ne_success h).elim
    all_goals
      rw [hreply] at h
      cases h
  · rintro ⟨steps, hpath, rfl, hreply⟩
    rw [manyTill_of_path hp hpath, manyTill_of_success hreply]
    exact congrArg (fun values => Reply.success (values, last) rest) (List.append_nil _)

/-! ## The parser behind the negated terminator -/

/-- A parser up to a terminator, put together from a repetition and a negated terminator. -/
def repeatedUntil (p : Parser ι ε α) (terminator : Parser ι ε β) : Parser ι ε (List α × β) :=
  pair (many0 (preceded (not terminator) p)) terminator

/-- Behind a negated terminator that is missed the parser itself is left. -/
theorem preceded_not_of_misses (h : terminator.Misses i) :
    (preceded (not terminator) p i).reply = (p i).reply := by
  obtain ⟨e, he⟩ := h
  exact preceded_of_success (Run.reply_handle_of_miss he)

/-- A negated terminator is missed where the terminator matches. -/
theorem preceded_not_of_success {last : β} {rest : ι}
    (h : (terminator i).reply = .success last rest) :
    (preceded (not terminator) p i).reply =
      .failure (.recoverable (ParseError.ofKind i .not)) :=
  preceded_of_failure (Run.reply_handle_of_success h)

theorem preceded_not_success_iff {value : α} {rest : ι} :
    (preceded (not terminator) p i).reply = .success value rest ↔
      terminator.Misses i ∧ (p i).reply = .success value rest := by
  constructor
  · intro h
    rcases hreply : (terminator i).reply with ⟨last, rest'⟩ | ⟨_ | e | e⟩ | fault
    case success => exact nomatch (preceded_not_of_success hreply).symm.trans h
    case failure.recoverable =>
      have hmiss : terminator.Misses i := ⟨e, hreply⟩
      exact ⟨hmiss, (preceded_not_of_misses hmiss).symm.trans h⟩
    all_goals
      rw [preceded, Run.andThen, not, Run.handle, Run.handle, hreply] at h
      cases h
  · rintro ⟨hmiss, h⟩
    exact (preceded_not_of_misses hmiss).trans h

theorem NeverGrows.preceded_not (hp : p.NeverGrows) (terminator : Parser ι ε β) :
    (preceded (not terminator) p).NeverGrows := fun i value rest h =>
  hp i value rest (preceded_not_success_iff.1 h).2

/-- The greedy run behind the negated terminator is the path up to the terminator. -/
theorem greedyRun_preceded_not_iff :
    (preceded (not terminator) p).GreedyRun i steps ↔
      Course (p.AdvancesUntil terminator) i steps := by
  have hsteps : (preceded (not terminator) p).Advances = p.AdvancesUntil terminator := by
    funext i value rest
    exact propext ((and_congr_left fun _ => preceded_not_success_iff).trans and_assoc)
  rw [greedyRun_iff, hsteps]

/-- Put together from other parsers the repetition has the same reply, or both have failed
recoverably. -/
theorem manyTill_eq_repeatedUntil (hp : p.NeverGrows) (terminator : Parser ι ε β) (i : ι) :
    (manyTill p terminator i).reply = (repeatedUntil p terminator i).reply ∨
      (manyTill p terminator).Misses i ∧ (repeatedUntil p terminator).Misses i := by
  have hdetermined : (p.AdvancesUntil terminator).Determined := determined_advancesUntil hp
  obtain ⟨steps, hcourse⟩ := hdetermined.exists_course i
  have hmany0 := many0_greedy (hp.preceded_not terminator) (greedyRun_preceded_not_iff.2 hcourse)
  have htill := manyTill_of_course hp hcourse
  unfold Misses repeatedUntil pair
  -- Both apply the terminator at the end of the path.  If it is missed there and the parser is too,
  -- the repetition keeps the error of the parser and the composition that of the terminator.
  rcases hreply : (terminator (reached i steps)).reply with ⟨last, rest⟩ | ⟨_ | e | e⟩ | fault
  case success =>
    rw [preceded_not_of_success hreply] at hmany0
    rw [htill, Run.reply_andThen_of_success hmany0, hreply, Run.map, hreply]
    exact .inl rfl
  case failure.recoverable =>
    rw [preceded_not_of_misses ⟨e, hreply⟩] at hmany0
    rw [htill, hreply]
    rcases hlast : (p (reached i steps)).reply with ⟨value, rest⟩ | ⟨_ | e' | e'⟩ | fault
    all_goals rw [hlast] at hmany0
    case success =>
      exact .inr ⟨⟨_, rfl⟩, _, Run.reply_andThen_of_failure hmany0⟩
    case failure.recoverable =>
      rw [Run.reply_andThen_of_success hmany0, Run.map, hreply]
      exact .inr ⟨⟨_, rfl⟩, e, rfl⟩
    case stuck => exact .inl (Run.reply_andThen_of_stuck hmany0).symm
    all_goals exact .inl (Run.reply_andThen_of_failure hmany0).symm
  all_goals
    rw [htill, hreply]
    rw [preceded, Run.andThen, not, Run.handle, Run.handle, hreply] at hmany0
  case stuck => exact .inl (Run.reply_andThen_of_stuck hmany0).symm
  all_goals exact .inl (Run.reply_andThen_of_failure hmany0).symm

/-- **A repetition up to a terminator stops where the terminator first matches.**  From every input
there is one path of values along which each place misses the terminator and the repeated parser
takes something, up to a place where it cannot go on.  The repetition succeeds just when the
terminator matches at the end of the path, with the values of the path and what the terminator
leaves.  If the terminator fails there otherwise than recoverably, that failure is returned; if it
is missed, the parser's own failure is, put into context at that place if it is recoverable, and a
success that takes nothing is an error there.

Put together from an unbounded repetition behind the negated terminator and the terminator itself,
the same values are taken: the replies are equal unless both are recoverable failures. -/
theorem repetition_until (hp : p.NeverGrows) (terminator : Parser ι ε β) (i : ι) :
    (∃! steps, Course (p.AdvancesUntil terminator) i steps) ∧
    (∀ values last rest, (manyTill p terminator i).reply = .success (values, last) rest ↔
      ∃ steps, Path (p.AdvancesUntil terminator) i steps ∧ values = steps.map Success.value ∧
        (terminator (reached i steps)).reply = .success last rest) ∧
    (∀ steps, Course (p.AdvancesUntil terminator) i steps →
      (∀ f, (terminator (reached i steps)).reply = .failure f → f.isRecoverable = false →
        (manyTill p terminator i).reply = .failure f) ∧
      (terminator.Misses (reached i steps) →
        (manyTill p terminator i).reply =
          (p (reached i steps)).reply.interrupted .manyTill (reached i steps)
            (reached i steps))) ∧
    ((manyTill p terminator i).reply = (repeatedUntil p terminator i).reply ∨
      (manyTill p terminator).Misses i ∧ (repeatedUntil p terminator).Misses i) := by
  refine ⟨(determined_advancesUntil hp).existsUnique_course i,
    fun _ _ _ => manyTill_success_iff hp, fun steps hcourse => ⟨fun f hreply hstate => ?_, ?_⟩,
    manyTill_eq_repeatedUntil hp terminator i⟩
  · rw [manyTill_of_course hp hcourse, hreply]
    cases f with
    | recoverable e => cases hstate
    | incomplete => rfl
    | fatal e => rfl
  · rintro ⟨e, hreply⟩
    rw [manyTill_of_course hp hcourse, hreply]
    rfl

/-- Digits up to a point: the point ends them, and a letter before it is an error there. -/
theorem repetition_until_digits :
    let digit : Parser Text (Cause Text) (Value Text Char) :=
      (Expr.scan .complete (.one (.inClass .digit) .digit)).eval fun _ _ => .stuck .tooDeep
    let point : Parser Text (Cause Text) (Value Text Char) :=
      (Expr.scan .complete (.char '.')).eval fun _ _ => .stuck .tooDeep
    digit.NeverGrows ∧
    (manyTill digit point ⟨['1', '2', '.', '3']⟩).reply =
      .success ([.symbol '1', .symbol '2'], .char '.') ⟨['3']⟩ ∧
    (repeatedUntil digit point ⟨['1', '2', '.', '3']⟩).reply =
      .success ([.symbol '1', .symbol '2'], .char '.') ⟨['3']⟩ ∧
    (manyTill digit point ⟨['1', 'x', '.']⟩).reply =
      .failure (.recoverable (.context ⟨['x', '.']⟩ .manyTill (.root ⟨['x', '.']⟩ .digit))) := by
  intro digit point
  have hgrows : digit.NeverGrows :=
    Expr.neverGrows_scan (fun _ => trivial) _ .complete _
  have hpath : Path (digit.AdvancesUntil point) ⟨['1', '2', '.', '3']⟩
      [⟨.symbol '1', ⟨['2', '.', '3']⟩⟩, ⟨.symbol '2', ⟨['.', '3']⟩⟩] :=
    .cons ⟨⟨_, rfl⟩, rfl, by decide⟩ (.cons ⟨⟨_, rfl⟩, rfl, by decide⟩ .nil)
  have hcourse : Course (digit.AdvancesUntil point) ⟨['1', 'x', '.']⟩
      [⟨.symbol '1', ⟨['x', '.']⟩⟩] :=
    ⟨.cons ⟨⟨_, rfl⟩, rfl, by decide⟩ .nil, fun _ _ hstep => nomatch hstep.2.1⟩
  obtain ⟨-, hsuccess, -, hsame⟩ := repetition_until hgrows point ⟨['1', '2', '.', '3']⟩
  have htill := (hsuccess _ _ _).2 ⟨_, hpath, rfl, rfl⟩
  refine ⟨hgrows, htill, ?_,
    ((repetition_until hgrows point ⟨['1', 'x', '.']⟩).2.2.1 _ hcourse).2 ⟨_, rfl⟩⟩
  rcases hsame with hsame | ⟨⟨_, hmiss⟩, -⟩
  · exact hsame.symm.trans htill
  · exact nomatch htill.symm.trans hmiss

end Parser

end ParseKit
