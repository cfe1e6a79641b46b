/-
  Bounded repetition.

  A repetition with bounds follows the greedy run of its parser up to the
  upper bound.  If the run ends before, the reply at its end decides, and the
  lower bound tells whether a recoverable failure there is an end or an
  error.  So bounds that the input cannot reach give the unbounded
  repetition, and equal bounds give the exact one if every success of the
  parser consumes.
-/
import ParseKit.Proofs.Requests

set_option autoImplicit false

namespace ParseKit

variable {ι σ ε α β : Type} [Input ι σ] [ParseError ε ι]

/-! ## Applications of the repeated parser -/

/-- How often a repetition applies its parser to an input. -/
def Parser.applied (repetition : Parser ι ε α → Parser ι ε β) (p : Parser ι ε α) (i : ι) : Nat :=
  (repetition p.marking i).log.count .leave

/-- What a bounded repetition logs behind the last application of its parser. -/
def Reply.stalling (guard : ErrorKind) : Reply ι ε α → List Signal
  | .success _ _ => [.event (.repetitionStalled guard)]
  | _ => []

omit [ParseError ε ι] in
theorem Reply.count_stalling (guard : ErrorKind) (reply : Reply ι ε α) :
    (reply.stalling guard).count .leave = 0 := by
  rcases reply with ⟨value, rest⟩ | ⟨_ | e | e⟩ | fault <;> rfl

namespace Parser

variable {p : Parser ι ε α} {origin i : ι} {min max taken : Nat} {steps : List (Success α ι)}

/-! ## One step of a bounded repetition -/

theorem boundedFrom_of_le (h : max ≤ taken) :
    boundedFrom origin min max p taken i = .success [] i := by
  rw [boundedFrom, if_neg (Nat.not_lt.2 h)]

/-- A success that takes something is followed by the rest of the repetition. -/
theorem boundedFrom_of_success (h : taken < max) {value : α} {rest : ι}
    (hreply : (p i).reply = .success value rest) (hlt : Input.length rest < Input.length i) :
    boundedFrom origin min max p taken i =
      ((boundedFrom origin min max p (taken + 1) rest).map (value :: ·)).after (p i).log := by
  rw [boundedFrom, if_pos h, Run.handle, hreply]
  simp only [hlt, dif_pos]

/-- Where the parser does not go on, its reply decides. -/
theorem boundedFrom_of_halts (h : taken < max) (hhalts : p.Halts i) :
    boundedFrom origin min max p taken i =
      ⟨(p i).log ++ (p i).reply.stalling .manyMN,
        if min ≤ taken then (p i).reply.concluded .manyMN i []
        else (p i).reply.interrupted .manyMN origin i⟩ := by
  rw [boundedFrom, if_pos h]
  rcases hrun : p i with ⟨log, ⟨value, rest⟩ | ⟨_ | e | e⟩ | fault⟩
  case success =>
    have hlength : Input.length rest = Input.length i := hhalts value rest (by rw [hrun])
    rw [Run.handle_success, dif_neg (Nat.not_lt.2 (Nat.le_of_eq hlength.symm)),
      Run.stalled_of_eq hlength]
    exact congrArg (Run.mk _) (ite_self _).symm
  case failure.recoverable =>
    by_cases hmin : min ≤ taken
    · rw [Run.handle_recoverable, if_neg (Nat.not_lt.2 hmin), if_pos hmin]
      rfl
    · rw [Run.handle_recoverable, if_pos (Nat.not_le.1 hmin), if_neg hmin]
      rfl
  all_goals simp [Reply.stalling, Reply.concluded, Reply.interrupted]

/-! ## The run of a bounded repetition -/

/-- A repetition ends where the upper bound is reached. -/
theorem boundedFrom_of_bound_le (hp : p.NeverGrows) (h : Path p.Advances i steps)
    (hmax : max ≤ taken + steps.length) :
    boundedFrom origin min max p taken i =
      ⟨((places i steps).take (max - taken)).flatMap fun j => (p j).log,
        .success ((steps.take (max - taken)).map Success.value)
          (reached i (steps.take (max - taken)))⟩ := by
  induction h generalizing taken with
  | nil =>
    rw [List.length_nil, Nat.add_zero] at hmax
    rw [boundedFrom_of_le hmax, Nat.sub_eq_zero_of_le hmax]
    rfl
  | cons hfirst _ ih =>
    rcases Nat.lt_or_ge taken max with hlt | hge
    · obtain ⟨k, hk⟩ : ∃ k, max - taken = k + 1 := Nat.exists_eq_succ_of_ne_zero (by omega)
      have hk' : max - (taken + 1) = k := by omega
      rw [List.length_cons] at hmax
      rw [boundedFrom_of_success hlt hfirst.1 (hp.shortens hfirst), ih (by omega), hk, hk']
      simp [Run.map, Run.after, Reply.map, places, reached]
    · rw [boundedFrom_of_le hge, Nat.sub_eq_zero_of_le hge]
      rfl

/-- A repetition whose upper bound is not reached follows the greedy run to its end. -/
theorem boundedFrom_of_lt_bound (hp : p.NeverGrows) (h : p.GreedyRun i steps)
    (hmax : taken + steps.length < max) :
    boundedFrom origin min max p taken i =
      ⟨((places i steps).flatMap fun j => (p j).log) ++
          (p (reached i steps)).reply.stalling .manyMN,
        if min ≤ taken + steps.length then
          (p (reached i steps)).reply.concluded .manyMN (reached i steps)
            (steps.map Success.value)
        else (p (reached i steps)).reply.interrupted .manyMN origin (reached i steps)⟩ := by
  induction h generalizing taken with
  | halted hhalts =>
    rw [List.length_nil, Nat.add_zero] at hmax ⊢
    rw [boundedFrom_of_halts hmax hhalts]
    simp [places, reached]
  | step hreply hne _ ih =>
    rw [List.length_cons] at hmax
    rw [boundedFrom_of_success (by omega) hreply (hp.lt_of_ne hreply hne), ih (by omega)]
    simp only [List.length_cons, Nat.add_assoc, Nat.add_comm 1, reached, Run.map, Run.after]
    congr 1
    · simp [places]
    · split
      · exact Reply.map_concluded _ _ _ _ _
      · exact Reply.map_interrupted _ _ _ _ _

theorem manyMN_of_bound_le (hp : p.NeverGrows) (h : p.GreedyRun i steps) (hmin : min ≤ max)
    (hmax : max ≤ steps.length) :
    (manyMN min max p i).reply =
        .success ((steps.take max).map Success.value) (reached i (steps.take max)) ∧
      applied (manyMN min max) p i = max := by
  have hpath := (greedyRun_iff.1 h).1
  have hpath' : Path p.marking.Advances i steps := hpath
  have hbound : max ≤ 0 + steps.length := by omega
  unfold applied manyMN
  rw [if_neg (Nat.not_lt.2 hmin), if_neg (Nat.not_lt.2 hmin),
    boundedFrom_of_bound_le hp hpath hbound,
    boundedFrom_of_bound_le (p := p.marking) hp hpath' hbound]
  refine ⟨rfl, ?_⟩
  rw [count_flatMap_marking, List.length_take, places, List.length_cons, List.length_map]
  omega

theorem manyMN_of_lt_bound (hp : p.NeverGrows) (h : p.GreedyRun i steps) (hmin : min ≤ max)
    (hmax : steps.length < max) :
    (manyMN min max p i).reply =
        (if min ≤ steps.length then
          (p (reached i steps)).reply.concluded .manyMN (reached i steps)
            (steps.map Success.value)
        else (p (reached i steps)).reply.interrupted .manyMN i (reached i steps)) ∧
      applied (manyMN min max) p i = steps.length + 1 := by
  have hbound : 0 + steps.length < max := by omega
  unfold applied manyMN
  rw [if_neg (Nat.not_lt.2 hmin), if_neg (Nat.not_lt.2 hmin), boundedFrom_of_lt_bound hp h hbound,
    boundedFrom_of_lt_bound (p := p.marking) hp h.marking hbound]
  refine ⟨by rw [Nat.zero_add], ?_⟩
  rw [List.count_append, count_flatMap_marking, Reply.count_stalling, places, List.length_cons,
    List.length_map]

/-! ## Exact repetition -/

/-- Successes of the parser are collected, and the repetition goes on behind them. -/
theorem countFrom_of_path (origin : ι) (h : Path p.Succeeds i steps) (n : Nat) :
    countFrom origin p (steps.length + n) i =
      ((countFrom origin p n (reached i steps)).map (steps.map Success.value ++ ·)).after
        (((places i steps).take steps.length).flatMap fun j => (p j).log) := by
  induction h with
  | nil =>
    rw [List.length_nil, Nat.zero_add]
    exact (Run.map_id _).symm
  | @cons i value rest steps hfirst _ ih =>
    have hreply : (p i).reply = .success value rest := hfirst
    rw [List.length_cons, Nat.add_right_comm, countFrom, Run.handle, hreply]
    simp only [ih, Run.map_after, Run.map_map, Run.after_after]
    rfl

/-- The first reply that is no success ends an exact repetition. -/
theorem countFrom_of_fails (origin : ι) (h : (p i).reply.success? = none) (n : Nat) :
    countFrom origin p (n + 1) i = ⟨(p i).log, (p i).reply.interrupted .count origin i⟩ := by
  rw [countFrom]
  rcases hrun : p i with ⟨log, ⟨value, rest⟩ | ⟨_ | e | e⟩ | fault⟩
  case success =>
    rw [hrun] at h
    cases h
  case failure.recoverable => exact congrArg (Run.mk · _) (List.append_nil log)
  all_goals rfl

/-- As many successes as an exact repetition asks for make it succeed. -/
theorem count_of_path (h : Path p.Succeeds i steps) :
    (count steps.length p i).reply = .success (steps.map Success.value) (reached i steps) ∧
      applied (count steps.length) p i = steps.length := by
  have h' : Path p.marking.Succeeds i steps := h
  have hrun := countFrom_of_path i h 0
  have hrun' := countFrom_of_path (p := p.marking) i h' 0
  rw [Nat.add_zero] at hrun hrun'
  unfold applied count
  rw [hrun, hrun']
  constructor
  · exact congrArg (Reply.success · _) (List.append_nil _)
  · simp [countFrom, Run.map, Run.after, Run.success, count_flatMap_marking, places]

/-- A failure before makes an exact repetition fail. -/
theorem count_of_fails (h : Path p.Succeeds i steps)
    (hfails : (p (reached i steps)).reply.success? = none) {n : Nat} (hn : steps.length < n) :
    (count n p i).reply = (p (reached i steps)).reply.interrupted .count i (reached i steps) ∧
      applied (count n) p i = steps.length + 1 := by
  have h' : Path p.marking.Succeeds i steps := h
  obtain ⟨k, rfl⟩ : ∃ k, n = steps.length + (k + 1) := Nat.exists_eq_add_of_lt hn
  unfold applied count
  rw [countFrom_of_path i h, countFrom_of_path (p := p.marking) i h', countFrom_of_fails i hfails,
    countFrom_of_fails (p := p.marking) i hfails]
  constructor
  · exact Reply.map_interrupted _ _ _ _ _
  · rw [Run.after, List.count_append, count_flatMap_marking, List.length_take, places,
      List.length_cons, List.length_map, Nat.min_eq_left (Nat.le_succ _)]
    rfl

/-! ## Bounds -/

/-- A repetition that succeeds keeps its bounds, and stops short of the upper one only where its
parser fails. -/
theorem within_bounds_of_success (hp : p.NeverGrows) {values : List α} {rest : ι}
    (h : (manyMN min max p i).reply = .success values rest) :
    min ≤ values.length ∧ values.length ≤ max ∧ (values.length = max ∨ p.Misses rest) := by
  obtain ⟨steps, hrun⟩ := hp.exists_greedyRun i
  rcases Nat.lt_or_ge max min with hlt | hmin
  · rw [manyMN, if_pos hlt] at h
    cases h
  rcases Nat.lt_or_ge steps.length max with hlt | hmax
  · rw [(manyMN_of_lt_bound hp hrun hmin hlt).1] at h
    split at h
    · rename_i henough
      obtain ⟨rfl, hmiss⟩ := Reply.concluded_eq_success h
      rw [Reply.concluded_eq_of_misses hmiss] at h
      cases h
      rw [List.length_map]
      exact ⟨henough, Nat.le_of_lt hlt, .inr hmiss⟩
    · exact (Reply.interrupted_ne_success h).elim
  · rw [(manyMN_of_bound_le hp hrun hmin hmax).1] at h
    cases h
    rw [List.length_map, List.length_take, Nat.min_eq_left hmax]
    exact ⟨hmin, Nat.le_refl max, .inl rfl⟩

/-- **Bounded repetition is the bounded greedy run.**  Bounds in the wrong order are an error, and
the parser is not applied.  Otherwise the repetition follows the greedy run of its parser.  If the
run is as long as the upper bound, the repetition takes so many values and does not apply the parser
again.  If not, the parser is applied once more at the end of the run: a recoverable failure there
ends the repetition if the lower bound has been reached and is put into context if not, a success
without taking anything is an error at that place, and any other failure stays as it is.  So a
repetition that succeeds keeps its bounds, and stops short of the upper one only where its parser
fails.

With a lower bound of zero and an upper one beyond the length of the input, this is the unbounded
repetition, but for the kind of the error where nothing is taken.  With equal bounds, it is the
exact repetition if every success consumes, but for the kind of the context.  An exact repetition
follows the successes of its parser, which need not take anything, and applies it so many times or
up to the first failure. -/
theorem bounded_repetition (hp : p.NeverGrows) (i : ι) :
    (∀ min max, max < min →
      manyMN min max p i = .reject i .manyMN ∧ applied (manyMN min max) p i = 0) ∧
    (∃ steps, p.GreedyRun i steps ∧ ∀ min max, min ≤ max →
      (max ≤ steps.length →
        (manyMN min max p i).reply =
            .success ((steps.take max).map Success.value) (reached i (steps.take max)) ∧
          applied (manyMN min max) p i = max) ∧
      (steps.length < max →
        (manyMN min max p i).reply =
            (if min ≤ steps.length then
              (p (reached i steps)).reply.concluded .manyMN (reached i steps)
                (steps.map Success.value)
            else (p (reached i steps)).reply.interrupted .manyMN i (reached i steps)) ∧
          applied (manyMN min max) p i = steps.length + 1)) ∧
    (∀ min max values rest, (manyMN min max p i).reply = .success values rest →
      min ≤ values.length ∧ values.length ≤ max ∧ (values.length = max ∨ p.Misses rest)) ∧
    (∀ max, Input.length i < max →
      (manyMN 0 max p i).reply = (many0 p i).reply ∨
      ∃ q value rest, (p q).reply = .success value rest ∧ Input.length rest = Input.length q ∧
        (manyMN 0 max p i).reply = .failure (.recoverable (ParseError.ofKind q .manyMN)) ∧
        (many0 p i).reply = .failure (.recoverable (ParseError.ofKind q .many0))) ∧
    (p.Consuming → ∀ n,
      (manyMN n n p i).reply = (count n p i).reply ∨
      ∃ q e, (p q).reply = .failure (.recoverable e) ∧
        (manyMN n n p i).reply = .failure (.recoverable (ParseError.wrap e i .manyMN)) ∧
        (count n p i).reply = .failure (.recoverable (ParseError.wrap e i .count))) ∧
    (∀ n, ∃ steps, Path p.Succeeds i steps ∧
      (steps.length = n ∧
          (count n p i).reply = .success (steps.map Success.value) (reached i steps) ∧
          applied (count n) p i = n ∨
        steps.length < n ∧ (p (reached i steps)).reply.success? = none ∧
          (count n p i).reply =
            (p (reached i steps)).reply.interrupted .count i (reached i steps) ∧
          applied (count n) p i = steps.length + 1)) := by
  obtain ⟨steps, hrun⟩ := hp.exists_greedyRun i
  refine ⟨?_, ⟨steps, hrun, fun min max hmin => ⟨manyMN_of_bound_le hp hrun hmin,
    manyMN_of_lt_bound hp hrun hmin⟩⟩, fun _ _ _ _ => within_bounds_of_success hp, ?_, ?_, ?_⟩
  · intro min max hlt
    unfold applied manyMN
    rw [if_pos hlt, if_pos hlt]
    exact ⟨rfl, rfl⟩
  · intro max hmax
    have hlt : steps.length < max := Nat.lt_of_le_of_lt (hp.length_le hrun) hmax
    rw [(manyMN_of_lt_bound hp hrun (Nat.zero_le max) hlt).1, if_pos (Nat.zero_le _),
      many0_greedy hp hrun]
    rcases hlast : (p (reached i steps)).reply with ⟨value, rest⟩ | ⟨_ | e | e⟩ | fault
    case success =>
      exact .inr ⟨_, value, rest, hlast, hrun.halts_reached value rest hlast, rfl, rfl⟩
    all_goals exact .inl rfl
  · intro hconsuming n
    have hpath : Path p.Succeeds i steps := (greedyRun_iff.1 hrun).1.imp fun _ _ _ h => h.1
    have hfails := hconsuming.fails_of_halts hrun.halts_reached
    rcases Nat.lt_or_ge steps.length n with hlt | hn
    · rw [(manyMN_of_lt_bound hp hrun (Nat.le_refl n) hlt).1, if_neg (Nat.not_le.2 hlt),
        (count_of_fails hpath hfails hlt).1]
      rcases hlast : (p (reached i steps)).reply with ⟨value, rest⟩ | ⟨_ | e | e⟩ | fault
      case success =>
        rw [hlast] at hfails
        cases hfails
      case failure.recoverable => exact .inr ⟨_, e, hlast, rfl, rfl⟩
      all_goals exact .inl rfl
    · have hcount := (count_of_path (hpath.take n)).1
      rw [List.length_take, Nat.min_eq_left hn] at hcount
      exact .inl ((manyMN_of_bound_le hp hrun (Nat.le_refl n) hn).1.trans hcount.symm)
  · intro n
    obtain ⟨steps, hpath, rfl | ⟨hlt, hfails⟩⟩ := exists_successes p n i
    · exact ⟨steps, hpath, .inl ⟨rfl, count_of_path hpath⟩⟩
    · exact ⟨steps, hpath, .inr ⟨hlt, hfails, count_of_fails hpath hfails hlt⟩⟩

/-- Two digits before a letter: one is taken if no more are wanted, two if more are allowed, and
three are too many to ask for. -/
theorem bounded_repetition_digits :
    let digit : Parser Text (Cause Text) (Value Text Char) :=
      (Expr.scan .complete (.one (.inClass .digit) .digit)).eval fun _ _ => .stuck .tooDeep
    let input : Text := ⟨['1', '2', 'a']⟩
    digit.NeverGrows ∧ digit.Consuming ∧
    manyMN 3 2 digit input = .reject input .manyMN ∧ applied (manyMN 3 2) digit input = 0 ∧
    (manyMN 1 1 digit input).reply = .success [.symbol '1'] ⟨['2', 'a']⟩ ∧
    applied (manyMN 1 1) digit input = 1 ∧
    (manyMN 0 4 digit input).reply = .success [.symbol '1', .symbol '2'] ⟨['a']⟩ ∧
    (many0 digit input).reply = .success [.symbol '1', .symbol '2'] ⟨['a']⟩ ∧
    (manyMN 3 3 digit input).reply =
      .failure (.recoverable (.context input .manyMN (.root ⟨['a']⟩ .digit))) ∧
    (count 3 digit input).reply =
      .failure (.recoverable (.context input .count (.root ⟨['a']⟩ .digit))) ∧
    applied (manyMN 3 3) digit input = 3 := by
  intro digit input
  have hgrows : digit.NeverGrows :=
    Expr.neverGrows_scan (fun _ => trivial) _ .complete _
  have hconsuming : digit.Consuming :=
    Expr.consuming_scan (fun _ => trivial) _ (s := .one (.inClass .digit) .digit) trivial .complete
  obtain ⟨hreversed, ⟨steps, hrun, hruns⟩, -, hmany0, hcount, -⟩ := bounded_repetition hgrows input
  obtain rfl := (Expr.greedyRun_digits fun _ _ => .stuck .tooDeep).unique hrun
  have hone := (hruns 1 1 (by decide)).1 (by decide)
  have hfour := (hruns 0 4 (by decide)).2 (by decide)
  have hthree := (hruns 3 3 (by decide)).2 (by decide)
  refine ⟨hgrows, hconsuming, (hreversed 3 2 (by decide)).1, (hreversed 3 2 (by decide)).2,
    hone.1, hone.2, hfour.1, ?_, hthree.1, ?_, hthree.2⟩
  · rcases hmany0 4 (by decide) with hsame | ⟨_, _, _, -, -, hguard, -⟩
    · exact hsame.symm.trans hfour.1
    · exact nomatch hfour.1.symm.trans hguard
  · rcases hcount hconsuming 3 with hsame | ⟨q, e, -, hwrapped, hcounted⟩
    · exact nomatch hthree.1.symm.trans (hsame.trans rfl)
    · cases hthree.1.symm.trans hwrapped
      exact hcounted

end Parser

end ParseKit
