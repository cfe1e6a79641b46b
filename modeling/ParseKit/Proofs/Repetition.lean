/-
  Unbounded repetition.

  A repetition gives the values of the greedy run of its parser, in order and
  each once, and what it replies depends on the reply with which the run
  ends.  A repetition that has to succeed once applies its parser before the
  loop; the two parts together are again the greedy run.
-/
import ParseKit.Expr.Eval
import ParseKit.Input.Text
import ParseKit.Proofs.Choice
import ParseKit.Proofs.Confinement
import ParseKit.Proofs.Input.Text
import ParseKit.Proofs.Parser.Path
import ParseKit.Proofs.Recursion

set_option autoImplicit false

namespace ParseKit

variable {ι σ ε α β γ δ : Type} [Input ι σ] [ParseError ε ι]

/-! ## What the end of the run makes of the result -/

namespace Reply

/-- What the reply of its parser at the start makes of a repetition that has to succeed once and
does not: a failure is put into context, and a success without taking anything is an error. -/
def refused (i : ι) : Reply ι ε α → Reply ι ε β
  | .success _ _ => .failure (.recoverable (ParseError.ofKind i .many1))
  | .failure (.recoverable e) => .failure (.recoverable (ParseError.wrap e i .many1))
  | .failure f => .failure f
  | .stuck fault => .stuck fault

/-- A repetition succeeds only where its parser has failed recoverably. -/
theorem concluded_eq_success {guard : ErrorKind} {last : ι} {result value : β} {rest : ι}
    {reply : Reply ι ε α} (h : reply.concluded guard last result = .success value rest) :
    rest = last ∧ ∃ e, reply = .failure (.recoverable e) := by
  rcases reply with ⟨_, _⟩ | ⟨_ | e | e⟩ | fault
  case failure.recoverable =>
    cases h
    exact ⟨rfl, e, rfl⟩
  all_goals cases h

theorem concluded_eq_of_misses {guard : ErrorKind} {last : ι} {result : β} {reply : Reply ι ε α}
    (h : ∃ e, reply = .failure (.recoverable e)) :
    reply.concluded guard last result = .success result last := by
  obtain ⟨e, rfl⟩ := h
  rfl

theorem interrupted_ne_success {kind : ErrorKind} {origin last : ι} {value : β} {rest : ι}
    {reply : Reply ι ε α} : reply.interrupted kind origin last ≠ .success value rest := by
  intro h
  rcases reply with ⟨_, _⟩ | ⟨_ | e | e⟩ | fault <;> cases h

theorem refused_ne_success {i : ι} {value : β} {rest : ι} {reply : Reply ι ε α} :
    reply.refused i ≠ .success value rest := by
  intro h
  rcases reply with ⟨_, _⟩ | ⟨_ | e | e⟩ | fault <;> cases h

end Reply

/-! ## Collecting into a list -/

namespace Collector

/-- Values taken in one after the other are collected in order. -/
theorem finish_foldl_list (values collected : List α) :
    Collector.list.finish (values.foldl Collector.list.push collected) 0 =
      collected.reverse ++ values := by
  induction values generalizing collected with
  | nil => exact (List.append_nil _).symm
  | cons value values ih =>
    rw [List.foldl_cons, ih]
    exact List.reverse_cons ▸ List.append_assoc ..

/-- Collectors that differ in what they make of the values have runs that differ in the value. -/
theorem drive_map {c : Collector α γ β} {c' : Collector α γ δ} {p : Parser ι ε α} (f : β → δ)
    (hwants : c'.wants = c.wants) (hpush : c'.push = c.push)
    (hfinish : ∀ collected, c'.finish collected 0 = f (c.finish collected 0)) (guard : ErrorKind)
    (collected : γ) (i : ι) :
    c'.drive p guard collected ⟨i, none⟩ = (c.drive p guard collected ⟨i, none⟩).map f := by
  induction hn : Input.length i using Nat.strongRecOn generalizing i collected with
  | ind n ih =>
    rw [drive_open, drive_open, hwants, hpush, hfinish]
    by_cases hwant : c.wants collected = true
    · rw [if_pos hwant, if_pos hwant]
      rcases p i with ⟨log, ⟨value, rest⟩ | ⟨_ | e | e⟩ | fault⟩
      case success =>
        by_cases hlt : Input.length rest < Input.length i
        · simp only [Run.handle_success, hlt, if_true, ih _ (hn ▸ hlt) _ rest rfl, Run.map_after]
        · simp only [Run.handle_success, hlt, if_false, Run.map_after, Run.map_stalled]
      all_goals rfl
    · rw [if_neg hwant, if_neg hwant]
      rfl

end Collector

/-! ## Repetitions -/

namespace Parser

variable {p : Parser ι ε α} {i : ι} {steps : List (Success α ι)}

theorem many0_greedy (hp : p.NeverGrows) (h : p.GreedyRun i steps) :
    (many0 p i).reply = (p (reached i steps)).reply.concluded .many0 (reached i steps)
      (steps.map Success.value) := by
  have hdrive := Collector.drive_greedy hp h (c := .list) (fun _ => rfl) .many0 []
  rw [Collector.finish_foldl_list] at hdrive
  exact hdrive

theorem foldMany0_greedy (hp : p.NeverGrows) (h : p.GreedyRun i steps) (start : β)
    (step : β → α → β) :
    (foldMany0 start step p i).reply =
      (p (reached i steps)).reply.concluded .many0 (reached i steps)
        ((steps.map Success.value).foldl step start) :=
  Collector.drive_greedy hp h (c := .folding start step) (fun _ => rfl) .many0 start

/-- Behind its first value a repetition that has to succeed once goes on as any other. -/
theorem many1_greedy_of_ne_nil (hp : p.NeverGrows) (h : p.GreedyRun i steps) (hne : steps ≠ []) :
    (many1 p i).reply = (p (reached i steps)).reply.concluded .many1 (reached i steps)
      (steps.map Success.value) := by
  cases h with
  | halted _ => exact (hne rfl).elim
  | @step _ value rest more hreply htakes hrun =>
    have hlt := hp.lt_of_ne hreply htakes
    have hdrive := Collector.drive_greedy hp hrun (c := .list) (fun _ => rfl) .many1 [value]
    rw [Collector.finish_foldl_list] at hdrive
    unfold many1 collectMany1 Run.handle
    rw [hreply]
    simp only [hlt, if_true]
    exact hdrive

/-- A repetition that has to succeed once fails where its parser does not go on at once. -/
theorem many1_of_halts (h : p.Halts i) : (many1 p i).reply = (p i).reply.refused i := by
  unfold many1 collectMany1
  rcases hrun : p i with ⟨log, ⟨value, rest⟩ | ⟨_ | e | e⟩ | fault⟩
  case success =>
    have hlength : Input.length rest = Input.length i := h value rest (by rw [hrun])
    rw [Run.handle_success, if_neg (Nat.not_lt.2 (Nat.le_of_eq hlength.symm)),
      Run.stalled_of_eq hlength]
    rfl
  all_goals rfl

/-- Collecting into a list is what a repetition does on its own account. -/
theorem collectMany0_list [Symbol σ] (p : Parser ι ε (Value ι σ)) (i : ι) :
    collectMany0 Container.list.collector p i = Parser.map .list (many0 p) i :=
  Collector.drive_map (c := .list) Value.list rfl rfl (fun _ => rfl) .many0 [] i

/-- **Unbounded repetitions are the greedy run of their parser.**  A parser whose remainders are
never longer than its input has exactly one greedy run from an input.  A repetition gives the
values of that run and leaves what its last step has left if the parser fails recoverably there;
if the parser succeeds there without taking anything, the values are discarded and the error is
the repetition's own; any other failure there stays as it is.  A fold combines the same values
from the left, and collecting into a list changes nothing.  A repetition that has to succeed
once does the same with an error kind of its own, but where the run has no step it puts a
recoverable failure into context.  After a success of a repetition its parser fails recoverably
on the remainder. -/
theorem repetition_greedy (hp : p.NeverGrows) (i : ι) :
    (∃! steps, p.GreedyRun i steps) ∧
    (∀ steps, p.GreedyRun i steps →
      (many0 p i).reply = (p (reached i steps)).reply.concluded .many0 (reached i steps)
        (steps.map Success.value) ∧
      (∀ (β : Type) (start : β) (step : β → α → β),
        (foldMany0 start step p i).reply =
          (p (reached i steps)).reply.concluded .many0 (reached i steps)
            ((steps.map Success.value).foldl step start)) ∧
      (steps ≠ [] →
        (many1 p i).reply = (p (reached i steps)).reply.concluded .many1 (reached i steps)
          (steps.map Success.value)) ∧
      (steps = [] → (many1 p i).reply = (p i).reply.refused i)) ∧
    (∀ values rest, (many0 p i).reply = .success values rest → p.Misses rest) ∧
    (∀ values rest, (many1 p i).reply = .success values rest → p.Misses rest) ∧
    (∀ (β : Type) (start : β) (step : β → α → β) value rest,
      (foldMany0 start step p i).reply = .success value rest → p.Misses rest) ∧
    (∀ [Symbol σ] (q : Parser ι ε (Value ι σ)),
      collectMany0 Container.list.collector q i = Parser.map .list (many0 q) i) := by
  obtain ⟨steps, hrun⟩ := hp.exists_greedyRun i
  refine ⟨hp.existsUnique_greedyRun i,
    fun steps hrun => ⟨many0_greedy hp hrun, fun _ => foldMany0_greedy hp hrun,
      many1_greedy_of_ne_nil hp hrun, fun hnil => many1_of_halts (hrun.eq_nil_iff.1 hnil)⟩,
    ?_, ?_, ?_, fun q => collectMany0_list q i⟩
  · intro values rest hsuccess
    rw [many0_greedy hp hrun] at hsuccess
    obtain ⟨rfl, hmiss⟩ := Reply.concluded_eq_success hsuccess
    exact hmiss
  · intro values rest hsuccess
    by_cases hnil : steps = []
    · rw [many1_of_halts (hrun.eq_nil_iff.1 hnil)] at hsuccess
      exact (Reply.refused_ne_success hsuccess).elim
    · rw [many1_greedy_of_ne_nil hp hrun hnil] at hsuccess
      obtain ⟨rfl, hmiss⟩ := Reply.concluded_eq_success hsuccess
      exact hmiss
  · intro β start step value rest hsuccess
    rw [foldMany0_greedy hp hrun] at hsuccess
    obtain ⟨rfl, hmiss⟩ := Reply.concluded_eq_success hsuccess
    exact hmiss

end Parser

/-- Without references, an expression leaves no remainder longer than its input. -/
theorem Expr.neverGrows_eval [LawfulInput ι σ] [Symbol σ] (hvalid : ∀ i : ι, LawfulInput.Valid i)
    (env : Env ι σ ε) {e : Expr} (h : e.Every fun part => part.isRef = false) :
    Parser.NeverGrows (e.eval env) := fun i _ _ hreply =>
  (Correspondence.isRemainder_of_success
    (Correspondence.confined_eval_of_closed (fun _ => True) env (.inr trivial) h) (hvalid i)
    hreply).length_le

theorem Expr.neverGrows_scan [LawfulInput ι σ] [Symbol σ]
    (hvalid : ∀ i : ι, LawfulInput.Valid i) (env : Env ι σ ε) (mode : Mode) (s : Scan) :
    Parser.NeverGrows ((Expr.scan mode s).eval env) :=
  neverGrows_eval hvalid env (every_leaf rfl rfl)

/-- A scanner that does not succeed with nothing consumes on every success. -/
theorem Expr.consuming_scan [LawfulInput ι σ] [Symbol σ]
    (hvalid : ∀ i : ι, LawfulInput.Valid i) (env : Env ι σ ε) {s : Scan} (hs : s.Nonempty)
    (mode : Mode) : Parser.Consuming ((Expr.scan mode s).eval env) := fun i value rest h =>
  hs.consumes ⟨[]⟩ mode i (hvalid i) value rest h

/-- Two digits are two steps of the run of a parser of one digit. -/
theorem Expr.greedyRun_digits (env : Env Text Char (Cause Text)) :
    Parser.GreedyRun ((Expr.scan .complete (.one (.inClass .digit) .digit)).eval env)
      ⟨['1', '2', 'a']⟩ [⟨.symbol '1', ⟨['2', 'a']⟩⟩, ⟨.symbol '2', ⟨['a']⟩⟩] :=
  .step rfl (by decide) (.step rfl (by decide) (.halted fun _ _ h => by cases h))

/-- Two digits are collected up to a letter, and the letter is none to begin with. -/
theorem Parser.repetition_greedy_digits :
    let digit : Parser Text (Cause Text) (Value Text Char) :=
      (Expr.scan .complete (.one (.inClass .digit) .digit)).eval fun _ _ => .stuck .tooDeep
    digit.NeverGrows ∧
    digit.GreedyRun ⟨['1', '2', 'a']⟩ [⟨.symbol '1', ⟨['2', 'a']⟩⟩, ⟨.symbol '2', ⟨['a']⟩⟩] ∧
    (many0 digit ⟨['1', '2', 'a']⟩).reply = .success [.symbol '1', .symbol '2'] ⟨['a']⟩ ∧
    (many1 digit ⟨['a']⟩).reply =
      .failure (.recoverable (.context ⟨['a']⟩ .many1 (.root ⟨['a']⟩ .digit))) ∧
    digit.Misses ⟨['a']⟩ := by
  intro digit
  have hgrows : digit.NeverGrows :=
    Expr.neverGrows_eval (fun _ => trivial) _ (Expr.every_leaf rfl (by decide))
  have hrun := Expr.greedyRun_digits fun _ _ => .stuck .tooDeep
  have hnone : digit.GreedyRun ⟨['a']⟩ [] := .halted fun _ _ h => by cases h
  have hmany0 := ((repetition_greedy hgrows ⟨['1', '2', 'a']⟩).2.1 _ hrun).1
  have hmany1 := ((repetition_greedy hgrows ⟨['a']⟩).2.1 [] hnone).2.2.2 rfl
  exact ⟨hgrows, hrun, hmany0, hmany1,
    (repetition_greedy hgrows ⟨['1', '2', 'a']⟩).2.2.1 _ _ hmany0⟩

end ParseKit
