/-
  Repetitions under any strategy.

  Who collects the values of a repetition decides from the answers received
  so far whether to make another request, and may go on after being told that
  there is no value left.  Whatever the strategy, the answers are the values
  of the greedy run in order, and the parser is applied once for each of the
  first requests and never again after the end.
-/
import Mathlib.Data.List.Count
import ParseKit.Proofs.Repetition

set_option autoImplicit false

namespace ParseKit

variable {ι σ ε α β γ : Type} [Input ι σ] [ParseError ε ι]

/-! ## Strategies -/

/-- A way of collecting values: whether it makes one more request after some answers, and what
it makes of the answers in the end. -/
structure Strategy (α β : Type) where
  again : List (Option α) → Bool
  result : List (Option α) → β

/-- What has been logged and answered after each number of requests, and the state after them. -/
abbrev Service (ι ε α : Type) := Nat → List Signal × List (Option α) × Repeater ι ε

/-- A strategy makes `k` requests and no more, and concludes with `run`. -/
structure Strategy.Collects (st : Strategy α β) (service : Service ι ε α) (k : Nat)
    (run : Run ι ε β) : Prop where
  goes_on : ∀ j < k, st.again (service j).2.1 = true
  stops : st.again (service k).2.1 = false
  run_eq : run = ((service k).2.2.conclude (st.result (service k).2.1)).after (service k).1

namespace Parser

/-- Requests to a repetition that starts at `i`. -/
def requests (p : Parser ι ε α) (guard : ErrorKind) (i : ι) : Service ι ε α := fun k =>
  (Repeater.start i).requests p guard k

/-- Requests to a repetition that has to succeed once and has done so at `i`, with the value
`first` and the remainder `rest`.  The first request is answered with that value and applies
nothing. -/
def requestsBehind (p : Parser ι ε α) (i : ι) (first : α) (rest : ι) : Service ι ε α
  | 0 => ((p i).log, [], .start rest)
  | k + 1 =>
    let more := p.requests .many1 rest k
    ((p i).log ++ more.1, some first :: more.2.1, more.2.2)

end Parser

/-! ## Collectors are strategies -/

namespace Collector

/-- Whether a collector that holds `collected` makes one more request after some answers. -/
def again (c : Collector α γ β) (collected : γ) : List (Option α) → Bool
  | [] => c.wants collected
  | some value :: answers => again c (c.push collected value) answers
  | none :: answers => answers.length < c.extra

/-- What a collector that holds `collected` makes of some answers. -/
def result (c : Collector α γ β) (collected : γ) : List (Option α) → β
  | [] => c.finish collected 0
  | some value :: answers => result c (c.push collected value) answers
  | none :: answers => c.finish collected (answers.filter Option.isSome).length

/-- The strategy of a collector that holds `collected`. -/
def strategyFrom (c : Collector α γ β) (collected : γ) : Strategy α β :=
  ⟨c.again collected, c.result collected⟩

/-- The strategy of a collector. -/
def strategy (c : Collector α γ β) : Strategy α β := c.strategyFrom c.start

/-- A collector does what its strategy says. -/
theorem drive_collects (c : Collector α γ β) (p : Parser ι ε α) (guard : ErrorKind) (collected : γ)
    (s : Repeater ι ε) :
    ∃ k, (c.strategyFrom collected).Collects (fun k => s.requests p guard k) k
      (c.drive p guard collected s) := by
  induction hn : Input.length s.input using Nat.strongRecOn generalizing s collected with
  | ind n ih =>
    cases hwants : c.wants collected with
    | false =>
      exact ⟨0, fun j hj => (Nat.not_lt_zero j hj).elim, hwants, drive_of_not_wants hwants⟩
    | true =>
      cases hitem : (s.next p guard).item? with
      | some value =>
        obtain ⟨k, hgoes, hstops, hrun⟩ := ih _ (hn ▸ Repeater.next_shortens hitem)
          (c.push collected value) (s.next p guard).state rfl
        refine ⟨k + 1, ?_, ?_, ?_⟩
        · intro j hj
          cases j with
          | zero => exact hwants
          | succ j =>
            have hj := hgoes j (by omega)
            simpa [strategyFrom, again, Repeater.requests, hitem] using hj
        · simpa [strategyFrom, again, Repeater.requests, hitem] using hstops
        · rw [drive_of_item hwants hitem, hrun, Run.after_after]
          simp [strategyFrom, result, Repeater.requests, hitem]
      | none =>
        -- After the last value as many requests are made as the collector says, all in vain.
        obtain ⟨ending, hending⟩ := Repeater.exists_ending_of_item?_eq_none hitem
        have hmore : ∀ n, (s.next p guard).state.requests p guard n = _ :=
          Repeater.requests_of_ended hending
        refine ⟨c.extra + 1, ?_, ?_, ?_⟩
        · intro j hj
          cases j with
          | zero => exact hwants
          | succ j =>
            have hj : j < c.extra := by omega
            simpa [strategyFrom, again, Repeater.requests, hitem, hmore] using hj
        · simp [strategyFrom, again, Repeater.requests, hitem, hmore]
        · rw [drive_of_none hwants hitem]
          simp [strategyFrom, result, Repeater.requests, hitem, hmore]

theorem collectMany0_collects (c : Collector α γ β) (p : Parser ι ε α) (i : ι) :
    ∃ k, c.strategy.Collects (p.requests .many0 i) k (Parser.collectMany0 c p i) :=
  c.drive_collects p .many0 c.start (.start i)

/-- The first value answers the first request, if the collector makes one. -/
theorem collectMany1_collects (c : Collector α γ β) {p : Parser ι ε α} {i rest : ι} {first : α}
    (hreply : (p i).reply = .success first rest) (hlt : Input.length rest < Input.length i) :
    ∃ k, c.strategy.Collects (p.requestsBehind i first rest) k (Parser.collectMany1 c p i) := by
  unfold Parser.collectMany1 Run.handle
  rw [hreply]
  simp only [hlt, if_true]
  cases hwants : c.wants c.start with
  | false =>
    refine ⟨0, fun j hj => (Nat.not_lt_zero j hj).elim, hwants, ?_⟩
    rw [if_neg Bool.false_ne_true]
    rfl
  | true =>
    obtain ⟨k, hgoes, hstops, hrun⟩ :=
      c.drive_collects p .many1 (c.push c.start first) (.start rest)
    refine ⟨k + 1, ?_, hstops, ?_⟩
    · intro j hj
      cases j with
      | zero => exact hwants
      | succ j => exact hgoes j (by omega)
    · rw [if_pos rfl, hrun, Run.after_after]
      rfl

end Collector

/-! ## The greedy run answers requests -/

/-- The failure that a repetition replies with, if it has come to one. -/
def Repeater.failure? (s : Repeater ι ε) : Option (Failure ε) :=
  match s.ending with
  | some (.failed f) => some f
  | _ => none

namespace Parser

variable {p : Parser ι ε α} {i : ι} {steps : List (Success α ι)}

/-- A parser that replies as `p` does, and logs one mark whenever it is applied. -/
def marking (p : Parser ι ε α) : Parser ι ε α := fun i => ⟨[.leave], (p i).reply⟩

omit [ParseError ε ι] in
theorem GreedyRun.marking (h : p.GreedyRun i steps) : p.marking.GreedyRun i steps := by
  induction h with
  | halted hhalts => exact .halted hhalts
  | step hreply hne _ ih => exact .step hreply hne ih

omit [Input ι σ] [ParseError ε ι] in
/-- There is one mark for each place. -/
theorem count_flatMap_marking (l : List ι) :
    (l.flatMap fun j => (p.marking j).log).count .leave = l.length := by
  induction l with
  | nil => rfl
  | cons j l ih =>
    rw [List.flatMap_cons, List.count_append, ih, List.length_cons, Nat.add_comm]
    rfl

omit [ParseError ε ι] in
/-- The marks of a parser show how often some requests apply it. -/
theorem count_requestLog_marking (guard : ErrorKind) (k : Nat) :
    (p.marking.requestLog guard i steps k).count .leave = min k (steps.length + 1) := by
  have hclosing : ∀ reply : Reply ι ε α,
      (reply.closing guard (reached i steps)).count .leave = 0 := by
    intro reply
    rcases reply with ⟨value, rest⟩ | ⟨_ | e | e⟩ | fault <;> rfl
  rw [requestLog, List.count_append, count_flatMap_marking, List.length_take, places,
    List.length_cons, List.length_map]
  split
  · rfl
  · rw [hclosing]
    rfl

/-- A failure has been met once the run has been followed to its end, unless it ends as usual. -/
theorem failure?_requestState_eq_none_iff (guard : ErrorKind) (k : Nat) :
    (p.requestState guard i steps k).failure? = none ↔
      k ≤ steps.length ∨ p.Misses (reached i steps) ∨
        ∃ fault, (p (reached i steps)).reply = .stuck fault := by
  unfold requestState Repeater.failure? Misses
  by_cases hk : k ≤ steps.length
  · simp [hk]
  · rcases (p (reached i steps)).reply with ⟨value, rest⟩ | ⟨_ | e | e⟩ | fault <;>
      simp [hk, Reply.ending]

/-- The conclusion of a repetition after `k` requests. -/
theorem conclude_requestState (guard : ErrorKind) (k : Nat) (result : β) :
    ((p.requestState guard i steps k).conclude result).reply =
      if k ≤ steps.length then .success result (reached i (steps.take k))
      else (p (reached i steps)).reply.concluded guard (reached i steps) result := by
  unfold requestState
  by_cases hk : k ≤ steps.length
  · rw [if_pos hk, if_pos hk]
    rfl
  · rw [if_neg hk, if_neg hk, List.take_of_length_le (by omega), Repeater.conclude_ending]

/-- Behind its first value a repetition answers as if it had begun with it. -/
theorem requestsBehind_greedy (hp : p.NeverGrows) {first : α} {rest : ι}
    (h : p.GreedyRun i (⟨first, rest⟩ :: steps)) (k : Nat) :
    p.requestsBehind i first rest k =
      (p.requestLog .many1 i (⟨first, rest⟩ :: steps) (max k 1),
        answers (⟨first, rest⟩ :: steps) k,
        p.requestState .many1 i (⟨first, rest⟩ :: steps) (max k 1)) := by
  cases h with
  | step hreply hne hrun =>
    cases k with
    | zero => simp [requestsBehind, requestLog, answers, requestState, places, reached,
        Repeater.start]
    | succ k =>
      rw [requestsBehind, requests, Repeater.requests_greedy hp hrun]
      simp [requestLog, answers, requestState, places, reached]

/-- **A repetition answers any strategy of requests in order.**  Whatever decides how many requests
are made, `k` of them are answered with the first values of the greedy run and with nothing from
then on.  They apply the parser once each up to the place where the run ends, and never again
behind it; the repetition stands behind the last value it has given away, has met a failure only
if it was asked for more values than there are and its parser did not just miss, and stays as it
is after the end.  So what is collected is the result at that place if the requests stop before the
end of the run, and otherwise what the end of the run makes of it.  If the first step is made before
the requests, the answers are the same, and the remainder lies behind that step at least.
Collectors are such strategies. -/
theorem requests_in_order (hp : p.NeverGrows) (h : p.GreedyRun i steps) :
    (∀ guard k,
      p.requests guard i k =
        (p.requestLog guard i steps k, answers steps k, p.requestState guard i steps k) ∧
      (p.marking.requests guard i k).1.count .leave = min k (steps.length + 1) ∧
      ((p.requestState guard i steps k).failure? = none ↔
        k ≤ steps.length ∨ p.Misses (reached i steps) ∨
          ∃ fault, (p (reached i steps)).reply = .stuck fault) ∧
      (steps.length < k → ∀ more,
        (p.requestState guard i steps k).requests p guard more =
          ([], List.replicate more none, p.requestState guard i steps k))) ∧
    (∀ (β : Type) (st : Strategy α β) k run, st.Collects (p.requests .many0 i) k run →
      run.reply =
        if k ≤ steps.length then
          .success (st.result (answers steps k)) (reached i (steps.take k))
        else (p (reached i steps)).reply.concluded .many0 (reached i steps)
          (st.result (answers steps k))) ∧
    (∀ (γ β : Type) (c : Collector α γ β),
      ∃ k, c.strategy.Collects (p.requests .many0 i) k (collectMany0 c p i)) ∧
    (∀ first rest more, steps = ⟨first, rest⟩ :: more →
      (∀ k,
        p.requestsBehind i first rest k =
          (p.requestLog .many1 i steps (max k 1), answers steps k,
            p.requestState .many1 i steps (max k 1)) ∧
        (p.marking.requestsBehind i first rest k).1.count .leave =
          min (max k 1) (steps.length + 1)) ∧
      (∀ (β : Type) (st : Strategy α β) k run,
        st.Collects (p.requestsBehind i first rest) k run →
          run.reply =
            if k ≤ steps.length then
              .success (st.result (answers steps k)) (reached i (steps.take (max k 1)))
            else (p (reached i steps)).reply.concluded .many1 (reached i steps)
              (st.result (answers steps k))) ∧
      (∀ (γ β : Type) (c : Collector α γ β),
        ∃ k, c.strategy.Collects (p.requestsBehind i first rest) k (collectMany1 c p i))) := by
  have hrequests := fun guard k => Repeater.requests_greedy hp h guard k
  refine ⟨fun guard k => ⟨hrequests guard k, ?_, failure?_requestState_eq_none_iff guard k, ?_⟩,
    ?_, fun _ _ c => c.collectMany0_collects p i, ?_⟩
  · rw [requests, Repeater.requests_greedy (p := p.marking) hp h.marking]
    exact count_requestLog_marking guard k
  · intro hk more
    exact Repeater.requests_of_ended (if_neg (by omega)) more
  · intro β st k run hcollects
    rw [hcollects.run_eq, requests, hrequests]
    exact conclude_requestState .many0 k _
  · rintro first rest more rfl
    have hbehind := fun k => requestsBehind_greedy hp h k
    refine ⟨fun k => ⟨hbehind k, ?_⟩, ?_, ?_⟩
    · rw [requestsBehind_greedy (p := p.marking) hp h.marking]
      exact count_requestLog_marking .many1 (max k 1)
    · intro β st k run hcollects
      have hk : max k 1 ≤ more.length + 1 ↔ k ≤ more.length + 1 := by omega
      rw [hcollects.run_eq, hbehind]
      refine (conclude_requestState .many1 (max k 1) _).trans ?_
      simp only [List.length_cons, hk]
    · intro γ β c
      cases h with
      | step hreply hne _ => exact c.collectMany1_collects hreply (hp.lt_of_ne hreply hne)

/-- Four requests for digits: two are answered, the third finds the end, the fourth does nothing. -/
theorem requests_in_order_digits :
    let digit : Parser Text (Cause Text) (Value Text Char) :=
      (Expr.scan .complete (.one (.inClass .digit) .digit)).eval fun _ _ => .stuck .tooDeep
    digit.NeverGrows ∧
    digit.GreedyRun ⟨['1', '2', 'a']⟩ [⟨.symbol '1', ⟨['2', 'a']⟩⟩, ⟨.symbol '2', ⟨['a']⟩⟩] ∧
    (digit.requests .many0 ⟨['1', '2', 'a']⟩ 4).2 =
      ([some (.symbol '1'), some (.symbol '2'), none, none], ⟨⟨['a']⟩, some .exhausted⟩) ∧
    (digit.marking.requests .many0 ⟨['1', '2', 'a']⟩ 4).1.count .leave = 3 ∧
    (digit.requestsBehind ⟨['1', '2', 'a']⟩ (.symbol '1') ⟨['2', 'a']⟩ 1).2 =
      ([some (.symbol '1')], ⟨⟨['2', 'a']⟩, none⟩) := by
  intro digit
  have hgrows : digit.NeverGrows :=
    Expr.neverGrows_eval (fun _ => trivial) _ (Expr.every_leaf rfl (by decide))
  have hrun := Expr.greedyRun_digits fun _ _ => .stuck .tooDeep
  have hserved := requests_in_order hgrows hrun
  refine ⟨hgrows, hrun, ?_, (hserved.1 .many0 4).2.1, ?_⟩
  · exact congrArg Prod.snd (hserved.1 .many0 4).1
  · exact congrArg Prod.snd ((hserved.2.2.2 _ _ _ rfl).1 1).1

end Parser

end ParseKit
