/-
  Paths of steps.

  A loop over an input makes one step after the other, each on the remainder
  of the one before it.  What a step is differs from loop to loop; if every
  step shortens the input and no two differ, there is exactly one path from
  each input to a place where no step is left, and it is no longer than the
  input.  The greedy run of a parser is such a path.
-/
import ParseKit.Proofs.Choice
import ParseKit.Proofs.Parser.Greedy

set_option autoImplicit false

namespace ParseKit

variable {ι σ ε α β : Type}

/-! ## Steps and paths -/

/-- The steps of a loop: from an input, with the value taken in, to a remainder. -/
abbrev Step (ι α : Type) := ι → α → ι → Prop

/-- Steps in a row, each from where the one before it has led. -/
inductive Path (step : Step ι α) : ι → List (Success α ι) → Prop
  | nil {i : ι} : Path step i []
  | cons {i : ι} {value : α} {rest : ι} {steps : List (Success α ι)} :
    step i value rest → Path step rest steps → Path step i (⟨value, rest⟩ :: steps)

namespace Step

/-- No step leads on from an input. -/
def Blocked (step : Step ι α) (i : ι) : Prop := ∀ value rest, ¬ step i value rest

/-- Steps that shorten the input, one at most from each. -/
structure Determined [Input ι σ] (step : Step ι α) : Prop where
  shortens : ∀ {i value rest}, step i value rest → Input.length rest < Input.length i
  unique : ∀ {i value rest value' rest'}, step i value rest → step i value' rest' →
    value' = value ∧ rest' = rest

end Step

/-- A path that no step leads on from. -/
def Course (step : Step ι α) (i : ι) (steps : List (Success α ι)) : Prop :=
  Path step i steps ∧ step.Blocked (Parser.reached i steps)

namespace Path

variable {step step' : Step ι α} {i : ι} {steps steps' : List (Success α ι)}

theorem imp (h : Path step i steps)
    (hstep : ∀ j value rest, step j value rest → step' j value rest) : Path step' i steps := by
  induction h with
  | nil => exact .nil
  | cons hfirst _ ih => exact .cons (hstep _ _ _ hfirst) ih

theorem take (h : Path step i steps) (n : Nat) : Path step i (steps.take n) := by
  induction h generalizing n with
  | nil =>
    rw [List.take_nil]
    exact .nil
  | cons hfirst _ ih =>
    cases n with
    | zero => exact .nil
    | succ n => exact .cons hfirst (ih n)

/-- A path has no more steps than the input loses on the way. -/
theorem length_add_le [Input ι σ] (hstep : step.Determined) (h : Path step i steps) :
    steps.length + Input.length (Parser.reached i steps) ≤ Input.length i := by
  induction h with
  | nil => exact Nat.le_of_eq (Nat.zero_add _)
  | cons hfirst _ ih =>
    have hlt := hstep.shortens hfirst
    simp only [List.length_cons, Parser.reached]
    omega

end Path

namespace Step.Determined

variable [Input ι σ] {step : Step ι α} {i : ι} {steps steps' : List (Success α ι)}

theorem exists_course (hstep : step.Determined) (i : ι) : ∃ steps, Course step i steps := by
  -- Every step leaves a shorter input.
  induction hn : Input.length i using Nat.strongRecOn generalizing i with
  | ind n ih =>
    by_cases hgoes : ∃ value rest, step i value rest
    · obtain ⟨value, rest, hfirst⟩ := hgoes
      obtain ⟨steps, hpath, hblocked⟩ := ih _ (hn ▸ hstep.shortens hfirst) rest rfl
      exact ⟨_, .cons hfirst hpath, hblocked⟩
    · exact ⟨[], .nil, fun value rest hfirst => hgoes ⟨value, rest, hfirst⟩⟩

theorem course_unique (hstep : step.Determined) (h : Course step i steps)
    (h' : Course step i steps') : steps' = steps := by
  obtain ⟨hpath, hblocked⟩ := h
  obtain ⟨hpath', hblocked'⟩ := h'
  induction hpath generalizing steps' with
  | nil =>
    cases hpath' with
    | nil => rfl
    | cons hfirst _ => exact (hblocked _ _ hfirst).elim
  | cons hfirst _ ih =>
    cases hpath' with
    | nil => exact (hblocked' _ _ hfirst).elim
    | cons hfirst' hmore' =>
      obtain ⟨rfl, rfl⟩ := hstep.unique hfirst hfirst'
      rw [ih hblocked hmore' hblocked']

/-- There is exactly one path from an input to a place where no step is left. -/
theorem existsUnique_course (hstep : step.Determined) (i : ι) : ∃! steps, Course step i steps :=
  let ⟨steps, h⟩ := hstep.exists_course i
  ⟨steps, h, fun _ h' => hstep.course_unique h h'⟩

end Step.Determined

/-! ## Steps of one parser -/

namespace Parser

variable {p : Parser ι ε α} {i : ι} {steps : List (Success α ι)}

/-- The successes of a parser. -/
def Succeeds (p : Parser ι ε α) : Step ι α := fun i value rest =>
  (p i).reply = .success value rest

/-- The next successes of a parser, so many of them unless it fails before. -/
theorem exists_successes (p : Parser ι ε α) (n : Nat) (i : ι) :
    ∃ steps, Path p.Succeeds i steps ∧ (steps.length = n ∨
      steps.length < n ∧ (p (reached i steps)).reply.success? = none) := by
  induction n generalizing i with
  | zero => exact ⟨[], .nil, .inl rfl⟩
  | succ n ih =>
    rcases hreply : (p i).reply with ⟨value, rest⟩ | f | fault
    · obtain ⟨steps, hpath, hend⟩ := ih rest
      refine ⟨⟨value, rest⟩ :: steps, .cons hreply hpath, ?_⟩
      rw [List.length_cons]
      exact hend.imp (congrArg (· + 1)) fun h => ⟨Nat.succ_lt_succ h.1, h.2⟩
    · exact ⟨[], .nil, .inr ⟨Nat.succ_pos n, by rw [reached, hreply]; rfl⟩⟩
    · exact ⟨[], .nil, .inr ⟨Nat.succ_pos n, by rw [reached, hreply]; rfl⟩⟩

variable [Input ι σ]

/-- The successes of a parser that take something. -/
def Advances (p : Parser ι ε α) : Step ι α := fun i value rest =>
  (p i).reply = .success value rest ∧ Input.length rest ≠ Input.length i

/-- Every success of a parser shortens the input. -/
def Consuming (p : Parser ι ε α) : Prop :=
  ∀ i value rest, (p i).reply = .success value rest → Input.length rest < Input.length i

theorem Consuming.neverGrows (hp : p.Consuming) : p.NeverGrows :=
  fun i value rest h => Nat.le_of_lt (hp i value rest h)

theorem Consuming.advances (hp : p.Consuming) {value : α} {rest : ι}
    (h : (p i).reply = .success value rest) : p.Advances i value rest :=
  ⟨h, Nat.ne_of_lt (hp i value rest h)⟩

/-- A parser that consumes on every success fails where it does not go on. -/
theorem Consuming.fails_of_halts (hp : p.Consuming) (h : p.Halts i) :
    (p i).reply.success? = none := by
  rcases hreply : (p i).reply with ⟨value, rest⟩ | f | fault
  · exact ((hp.advances hreply).2 (h value rest hreply)).elim
  · rfl
  · rfl

theorem NeverGrows.shortens (hp : p.NeverGrows) {value : α} {rest : ι}
    (h : p.Advances i value rest) : Input.length rest < Input.length i :=
  hp.lt_of_ne h.1 h.2

theorem NeverGrows.determined_advances (hp : p.NeverGrows) : p.Advances.Determined where
  shortens := hp.shortens
  unique h h' := by
    have heq := h'.1.symm.trans h.1
    cases heq
    exact ⟨rfl, rfl⟩

theorem blocked_advances_iff : p.Advances.Blocked i ↔ p.Halts i := by
  constructor
  · intro h value rest hreply
    exact Decidable.byContradiction fun hne => h value rest ⟨hreply, hne⟩
  · intro h value rest hstep
    exact hstep.2 (h value rest hstep.1)

/-- The greedy run of a parser is its path of successes that take something. -/
theorem greedyRun_iff : p.GreedyRun i steps ↔ Course p.Advances i steps := by
  constructor
  · intro h
    refine ⟨?_, blocked_advances_iff.2 h.halts_reached⟩
    induction h with
    | halted _ => exact .nil
    | step hreply hne _ ih => exact .cons ⟨hreply, hne⟩ ih
  · rintro ⟨hpath, hblocked⟩
    induction hpath with
    | nil => exact .halted (blocked_advances_iff.1 hblocked)
    | cons hfirst _ ih => exact .step hfirst.1 hfirst.2 (ih hblocked)

/-- A greedy run has no more steps than the input is long. -/
theorem NeverGrows.length_le (hp : p.NeverGrows) (h : p.GreedyRun i steps) :
    steps.length ≤ Input.length i :=
  Nat.le_of_add_right_le (Path.length_add_le hp.determined_advances (greedyRun_iff.1 h).1)

end Parser

end ParseKit
