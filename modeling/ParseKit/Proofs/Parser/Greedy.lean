/-
  The greedy run of a parser.

  A repetition applies its parser to the remainder of one success after the
  other, as long as each of them takes something.  `Parser.GreedyRun` lists
  these successes.  There is exactly one such list, and it says how a
  repetition answers any number of requests (`Repeater.requests_greedy`) and
  what comes of one whose collector takes every value there is
  (`Collector.drive_greedy`).
-/
import Mathlib.Logic.ExistsUnique
import ParseKit.Proofs.Parser.Repeat

set_option autoImplicit false

namespace ParseKit

variable {ι σ ε α β γ : Type} [Input ι σ]

/-! ## The run -/

namespace Parser

/-- No remainder that a parser leaves is longer than its input. -/
def NeverGrows (p : Parser ι ε α) : Prop :=
  ∀ i value rest, (p i).reply = .success value rest → Input.length rest ≤ Input.length i

/-- On inputs in `S` a parser leaves remainders in `S`, none of them longer than its input. -/
def Keeps (S : ι → Prop) (p : Parser ι ε α) : Prop :=
  ∀ i, S i → ∀ value rest, (p i).reply = .success value rest →
    S rest ∧ Input.length rest ≤ Input.length i

theorem NeverGrows.keeps {p : Parser ι ε α} (hp : p.NeverGrows) : p.Keeps fun _ => True :=
  fun i _ value rest h => ⟨trivial, hp i value rest h⟩

/-- A parser does not go on at an input: it does not succeed there, or it takes nothing. -/
def Halts (p : Parser ι ε α) (i : ι) : Prop :=
  ∀ value rest, (p i).reply = .success value rest → Input.length rest = Input.length i

theorem halts_of_failure {p : Parser ι ε α} {i : ι} {f : Failure ε}
    (h : (p i).reply = .failure f) : p.Halts i := by
  intro value rest hreply
  rw [h] at hreply
  cases hreply

/-- The successes of a parser on an input, on the remainder of that success, and so on, up to the
first place where it does not go on. -/
inductive GreedyRun (p : Parser ι ε α) : ι → List (Success α ι) → Prop
  | halted {i : ι} : p.Halts i → GreedyRun p i []
  | step {i : ι} {value : α} {rest : ι} {steps : List (Success α ι)} :
    (p i).reply = .success value rest → Input.length rest ≠ Input.length i →
      GreedyRun p rest steps → GreedyRun p i (⟨value, rest⟩ :: steps)

/-- Where some successes in a row end. -/
def reached : ι → List (Success α ι) → ι
  | i, [] => i
  | _, s :: steps => reached s.rest steps

/-- The inputs between some successes in a row, with the first and the last one. -/
def places (i : ι) (steps : List (Success α ι)) : List ι := i :: steps.map Success.rest

variable {p : Parser ι ε α} {i : ι} {steps steps' : List (Success α ι)}

theorem NeverGrows.lt_of_ne (hp : p.NeverGrows) {value : α} {rest : ι}
    (h : (p i).reply = .success value rest) (hne : Input.length rest ≠ Input.length i) :
    Input.length rest < Input.length i :=
  Nat.lt_of_le_of_ne (hp i value rest h) hne

theorem NeverGrows.exists_greedyRun (hp : p.NeverGrows) (i : ι) :
    ∃ steps, p.GreedyRun i steps := by
  -- Every step of the run shortens the input.
  induction hn : Input.length i using Nat.strongRecOn generalizing i with
  | ind n ih =>
    by_cases hgoes : ∃ value rest,
        (p i).reply = .success value rest ∧ Input.length rest ≠ Input.length i
    · obtain ⟨value, rest, hreply, hne⟩ := hgoes
      obtain ⟨steps, hsteps⟩ := ih _ (hn ▸ hp.lt_of_ne hreply hne) rest rfl
      exact ⟨_, .step hreply hne hsteps⟩
    · refine ⟨[], .halted fun value rest hreply => ?_⟩
      exact Decidable.byContradiction fun hne => hgoes ⟨value, rest, hreply, hne⟩

theorem GreedyRun.unique (h : p.GreedyRun i steps) (h' : p.GreedyRun i steps') :
    steps' = steps := by
  induction h generalizing steps' with
  | halted hhalts =>
    cases h' with
    | halted _ => rfl
    | step hreply hne _ => exact (hne (hhalts _ _ hreply)).elim
  | step hreply hne _ ih =>
    cases h' with
    | halted hhalts => exact (hne (hhalts _ _ hreply)).elim
    | step hreply' _ hrun' =>
      rw [hreply] at hreply'
      cases hreply'
      rw [ih hrun']

/-- There is exactly one greedy run of a parser from an input. -/
theorem NeverGrows.existsUnique_greedyRun (hp : p.NeverGrows) (i : ι) :
    ∃! steps, p.GreedyRun i steps :=
  let ⟨steps, h⟩ := hp.exists_greedyRun i
  ⟨steps, h, fun _ h' => h.unique h'⟩

/-- Where the greedy run ends, the parser does not go on. -/
theorem GreedyRun.halts_reached (h : p.GreedyRun i steps) : p.Halts (reached i steps) := by
  induction h with
  | halted hhalts => exact hhalts
  | step _ _ _ ih => exact ih

theorem GreedyRun.eq_nil_iff (h : p.GreedyRun i steps) : steps = [] ↔ p.Halts i := by
  constructor
  · rintro rfl
    exact h.halts_reached
  · intro hhalts
    cases h with
    | halted _ => rfl
    | step hreply hne _ => exact (hne (hhalts _ _ hreply)).elim

end Parser

/-! ## The end of a repetition -/

variable [ParseError ε ι]

namespace Reply

/-- How the reply of its parser at `last` ends a repetition. -/
def ending (guard : ErrorKind) (last : ι) : Reply ι ε α → Ending ε
  | .success _ _ => .failed (.recoverable (ParseError.ofKind last guard))
  | .failure (.recoverable _) => .exhausted
  | .failure f => .failed f
  | .stuck fault => .stuck fault

/-- What the reply of its parser at `last` makes of a repetition with a result so far: the result
if the parser failed recoverably, an error of the kind `guard` if it succeeded without taking
anything, and any other reply as it is. -/
def concluded (guard : ErrorKind) (last : ι) (result : β) : Reply ι ε α → Reply ι ε β
  | .success _ _ => .failure (.recoverable (ParseError.ofKind last guard))
  | .failure (.recoverable _) => .success result last
  | .failure f => .failure f
  | .stuck fault => .stuck fault

/-- What the reply of its parser at `last` makes of a repetition from `origin` that must not end
there: a recoverable failure is put into context, a success without taking anything is an error of
the kind `kind`, and any other reply stays as it is. -/
def interrupted (kind : ErrorKind) (origin last : ι) : Reply ι ε α → Reply ι ε β
  | .success _ _ => .failure (.recoverable (ParseError.ofKind last kind))
  | .failure (.recoverable e) => .failure (.recoverable (ParseError.wrap e origin kind))
  | .failure f => .failure f
  | .stuck fault => .stuck fault

/-- What a repetition logs behind the last application of its parser. -/
def closing (guard : ErrorKind) (last : ι) : Reply ι ε α → List Signal
  | .success _ _ => [.event (.repetitionStalled guard)]
  | .failure (.recoverable _) => [.event (.repetitionEnded (Input.length last))]
  | _ => []

theorem map_concluded (f : β → γ) (guard : ErrorKind) (last : ι) (result : β)
    (reply : Reply ι ε α) :
    (reply.concluded guard last result).map f = reply.concluded guard last (f result) := by
  rcases reply with ⟨value, rest⟩ | ⟨_ | e | e⟩ | fault <;> rfl

theorem map_interrupted (f : β → γ) (kind : ErrorKind) (origin last : ι) (reply : Reply ι ε α) :
    (reply.interrupted kind origin last).map f = reply.interrupted kind origin last := by
  rcases reply with ⟨value, rest⟩ | ⟨_ | e | e⟩ | fault <;> rfl

end Reply

/-- A repetition that the reply at `last` has ended is concluded by that reply. -/
theorem Repeater.conclude_ending (guard : ErrorKind) (last : ι) (result : β)
    (reply : Reply ι ε α) :
    Repeater.conclude result ⟨last, some (reply.ending guard last)⟩ =
      ⟨[], reply.concluded guard last result⟩ := by
  rcases reply with ⟨value, rest⟩ | ⟨_ | e | e⟩ | fault <;> rfl

/-- A repetition ends where its parser does not go on. -/
theorem Repeater.next_of_halts {p : Parser ι ε α} {i : ι} (guard : ErrorKind) (h : p.Halts i) :
    (⟨i, none⟩ : Repeater ι ε).next p guard =
      ⟨(p i).log ++ (p i).reply.closing guard i, none, ⟨i, some ((p i).reply.ending guard i)⟩⟩ := by
  rcases hrun : p i with ⟨log, ⟨value, rest⟩ | ⟨_ | e | e⟩ | fault⟩
  · have hreply : (p i).reply = .success value rest := by rw [hrun]
    rw [next_of_stalled guard hreply (h value rest hreply), hrun]
    rfl
  all_goals simp [next, hrun, Reply.closing, Reply.ending]

/-! ## Requests -/

/-- The answers to the first `k` requests of a repetition: the values of the run in order, and
nothing from then on. -/
def Parser.answers (steps : List (Success α ι)) (k : Nat) : List (Option α) :=
  (steps.take k).map (fun s => some s.value) ++ List.replicate (k - steps.length) none

/-- What a repetition has logged after `k` requests: what the parser logs at the first `k` places
of the run, and how the run ended if that has been found out. -/
def Parser.requestLog (p : Parser ι ε α) (guard : ErrorKind) (i : ι) (steps : List (Success α ι))
    (k : Nat) : List Signal :=
  ((places i steps).take k).flatMap (fun j => (p j).log) ++
    if k ≤ steps.length then []
    else (p (reached i steps)).reply.closing guard (reached i steps)

/-- Where a repetition stands after `k` requests: behind the last value it has given away, and it
has ended once it has been asked for more values than there are. -/
def Parser.requestState (p : Parser ι ε α) (guard : ErrorKind) (i : ι)
    (steps : List (Success α ι)) (k : Nat) : Repeater ι ε :=
  ⟨reached i (steps.take k),
    if k ≤ steps.length then none
    else some ((p (reached i steps)).reply.ending guard (reached i steps))⟩

/-- The greedy run says how a repetition answers any number of requests. -/
theorem Repeater.requests_greedy {p : Parser ι ε α} (hp : p.NeverGrows) {i : ι}
    {steps : List (Success α ι)} (h : p.GreedyRun i steps) (guard : ErrorKind) (k : Nat) :
    (Repeater.start i).requests p guard k =
      (p.requestLog guard i steps k, Parser.answers steps k, p.requestState guard i steps k) := by
  unfold start
  induction k generalizing i steps with
  | zero => simp [requests, Parser.requestLog, Parser.answers, Parser.requestState, Parser.reached]
  | succ k ih =>
    cases h with
    | halted hhalts =>
      rw [requests, next_of_halts guard hhalts]
      dsimp only
      rw [requests_of_ended rfl]
      simp [Parser.requestLog, Parser.answers, Parser.requestState, Parser.reached, Parser.places,
        List.replicate_succ]
    | step hreply hne hrun =>
      rw [requests, next_of_success guard hreply (hp.lt_of_ne hreply hne)]
      dsimp only
      rw [ih hrun]
      simp [Parser.requestLog, Parser.answers, Parser.requestState, Parser.reached, Parser.places]

/-! ## Repetitions that take every value -/

/-- A collector that always wants a value takes those of the greedy run. -/
theorem Collector.drive_greedy {p : Parser ι ε α} (hp : p.NeverGrows) {i : ι}
    {steps : List (Success α ι)} (h : p.GreedyRun i steps) {c : Collector α γ β}
    (hc : ∀ collected, c.wants collected = true) (guard : ErrorKind) (collected : γ) :
    (c.drive p guard collected (.start i)).reply =
      (p (Parser.reached i steps)).reply.concluded guard (Parser.reached i steps)
        (c.finish ((steps.map Success.value).foldl c.push collected) 0) := by
  unfold Repeater.start
  induction h generalizing collected with
  | halted hhalts =>
    rw [drive_of_none (hc _) (by rw [Repeater.next_of_halts guard hhalts]),
      Repeater.next_of_halts guard hhalts, Repeater.conclude_ending]
    rfl
  | step hreply hne hrun ih =>
    have hnext := Repeater.next_of_success guard hreply (hp.lt_of_ne hreply hne)
    rw [drive_of_item (hc _) (by rw [hnext]), hnext]
    exact ih _

end ParseKit
