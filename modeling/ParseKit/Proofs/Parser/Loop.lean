/-
  Loops round by round.

  A round of a loop brings one more item, with which the loop goes on, or the
  result.  Whether there is a last round is a matter of what the rounds do, so
  a loop is run for a number of rounds at most.  If every round that brings an
  item shortens the input, the input bounds the rounds and the items, and the
  loop has a run of its own that no bound cuts off (`Loop.Shortens.ends`).
  All this may hold of some inputs only, such as those that can come up in a
  parse, if no round leads out of them.
-/
import ParseKit.Proofs.Parser.Run

set_option autoImplicit false

namespace ParseKit

variable {ι σ ε α β : Type}

/-! ## Rounds -/

/-- What a round of a loop brings: one more item, or the result. -/
inductive Round (α β : Type)
  | item (value : α)
  | result (value : β)

/-- Goes on with the item of a round; a result is the end. -/
def Run.proceed (round : Run ι ε (Round α β)) (more : α → ι → Run ι ε β) : Run ι ε β :=
  round.andThen fun outcome rest =>
    match outcome with
    | .item value => more value rest
    | .result value => .success value rest

theorem Run.handle_proceed {δ : Type} (r : Run ι ε δ) (onSuccess : δ → ι → Run ι ε (Round α β))
    (onMiss : ε → Run ι ε (Round α β)) (more : α → ι → Run ι ε β) :
    (r.handle onSuccess onMiss).proceed more =
      r.handle (fun value rest => (onSuccess value rest).proceed more)
        fun e => (onMiss e).proceed more :=
  handle_andThen r onSuccess onMiss _

theorem Run.proceed_of_item {round : Run ι ε (Round α β)} {value : α} {rest : ι}
    {more : α → ι → Run ι ε β} (h : round.reply = .success (.item value) rest) :
    round.proceed more = (more value rest).after round.log := by
  rcases round with ⟨log, reply⟩
  cases h
  exact success_andThen ..

/-- A loop by its rounds, each given the input the loop began at, the items so far, and where the
loop stands. -/
abbrev Loop (ι ε α β : Type) := ι → List α → Parser ι ε (Round α β)

namespace Loop

/-- Runs a loop for `n` rounds at most; nothing comes of it if it would need more. -/
def run (loop : Loop ι ε α β) (origin : ι) : Nat → List α → ι → Option (Run ι ε β)
  | 0, _, _ => none
  | n + 1, items, i =>
    let round := loop origin items i
    match round.reply with
    | .success (.item value) rest =>
      (run loop origin n (items ++ [value]) rest).map (Run.after round.log)
    | .success (.result value) rest => some ⟨round.log, .success value rest⟩
    | .failure f => some ⟨round.log, .failure f⟩
    | .stuck fault => some ⟨round.log, .stuck fault⟩

/-- The run of a loop that is given `n` rounds; it is stuck where they are not enough. -/
def within (loop : Loop ι ε α β) (origin : ι) : Nat → List α → Parser ι ε β
  | 0, _, _ => .stuck .grown
  | n + 1, items, i =>
    (loop origin items i).proceed fun value rest => within loop origin n (items ++ [value]) rest

/-- A loop as a parser, given a number of rounds for each input. -/
def parser (loop : Loop ι ε α β) (rounds : ι → Nat) : Parser ι ε β := fun i =>
  loop.within i (rounds i) [] i

/-- The items that a loop from `origin` has when it comes to an input. -/
inductive Reaches (loop : Loop ι ε α β) (origin : ι) : List α → ι → Prop
  | start : Reaches loop origin [] origin
  | round {items : List α} {i : ι} {value : α} {rest : ι} : Reaches loop origin items i →
    (loop origin items i).reply = .success (.item value) rest →
      Reaches loop origin (items ++ [value]) rest

/-- On inputs in `S`, runs, given by the items so far and where the loop stands, are what its rounds
make of them. -/
def Unrolls (S : ι → Prop) (loop : Loop ι ε α β) (origin : ι) (runs : List α → Parser ι ε β) :
    Prop :=
  ∀ items i, S i → runs items i =
    (loop origin items i).proceed fun value rest => runs (items ++ [value]) rest

variable [Input ι σ]

/-- What a parser returns is no larger than its input is long. -/
def ReturnsWithin (size : β → Nat) (p : Parser ι ε β) : Prop :=
  ∀ i value rest, (p i).reply = .success value rest → size value ≤ Input.length i

/-- On inputs in `S`, every round that brings an item shortens the input, to one in `S`. -/
def Shortens (S : ι → Prop) (loop : Loop ι ε α β) : Prop :=
  ∀ origin items i value rest, S i →
    (loop origin items i).reply = .success (.item value) rest →
      S rest ∧ Input.length rest < Input.length i

/-- On inputs in `S`, every round brings an item and shortens the input, to one in `S`, or it brings
a result, which is one that `result` allows for the items so far. -/
def Makes (S : ι → Prop) (loop : Loop ι ε α β) (result : List α → β → Prop) : Prop :=
  ∀ origin items i outcome rest, S i → (loop origin items i).reply = .success outcome rest →
    (∃ value, outcome = .item value ∧ S rest ∧ Input.length rest < Input.length i) ∨
      ∃ value, outcome = .result value ∧ result items value

/-- A loop ends on every input in `S` with the run of a parser: every round that brings an item
shortens the input, the input is never shorter than the items are many, and more rounds than the
input is long are enough. -/
structure EndsOn (S : ι → Prop) (loop : Loop ι ε α β) (p : Parser ι ε β) : Prop where
  shortens : loop.Shortens S
  collects : ∀ {origin items i}, S origin → loop.Reaches origin items i →
    S i ∧ items.length + Input.length i ≤ Input.length origin
  ends : ∀ {i n}, S i → Input.length i < n → loop.run i n [] i = some (p i)

/-- A loop ends on every input. -/
abbrev Ends (loop : Loop ι ε α β) (p : Parser ι ε β) : Prop := loop.EndsOn (fun _ => True) p

variable {S : ι → Prop} {loop : Loop ι ε α β} {origin i rest : ι} {items : List α}

theorem Makes.shortens {result : List α → β → Prop} (h : loop.Makes S result) :
    loop.Shortens S := by
  intro origin items i value rest hi hround
  obtain ⟨_, -, hrest, hlt⟩ | ⟨_, hresult, -⟩ := h _ _ _ _ _ hi hround
  · exact ⟨hrest, hlt⟩
  · cases hresult

/-- An item for each round that has been made, and the input shorter by so much at least. -/
theorem Shortens.length_add_le (hshort : loop.Shortens S) (horigin : S origin)
    (h : loop.Reaches origin items i) :
    S i ∧ items.length + Input.length i ≤ Input.length origin := by
  induction h with
  | start => exact ⟨horigin, Nat.le_of_eq (Nat.zero_add _)⟩
  | round _ hround ih =>
    obtain ⟨hi, hle⟩ := ih
    obtain ⟨hrest, hlt⟩ := hshort _ _ _ _ _ hi hround
    refine ⟨hrest, ?_⟩
    rw [List.length_append, List.length_singleton]
    omega

omit [Input ι σ] in
/-- A round that brings an item leaves the rest to the rounds behind it. -/
theorem run_of_item {n : Nat} {value : α}
    (h : (loop origin items i).reply = .success (.item value) rest) :
    loop.run origin (n + 1) items i =
      (loop.run origin n (items ++ [value]) rest).map (Run.after (loop origin items i).log) := by
  simp only [run, h]

omit [Input ι σ] in
/-- A round that brings no item is the last one. -/
theorem run_of_not_item {n : Nat}
    (h : ∀ value rest, (loop origin items i).reply ≠ .success (.item value) rest)
    (more : α → ι → Run ι ε β) :
    loop.run origin (n + 1) items i = some ((loop origin items i).proceed more) := by
  rw [run, Run.proceed]
  rcases hround : loop origin items i with ⟨log, ⟨value | value, rest⟩ | ⟨_ | e | e⟩ | fault⟩
  case success.item => exact absurd (by rw [hround]) (h value rest)
  all_goals simp [Run.andThen, Run.success, Run.recoverable, Run.failure, Run.after]

/-- Rounds that shorten the input are enough if there are more of them than the input is long. -/
theorem Shortens.run_eq (hshort : loop.Shortens S) {runs : List α → Parser ι ε β}
    (hunrolls : loop.Unrolls S origin runs) {n : Nat} (hi : S i) (h : Input.length i < n) :
    loop.run origin n items i = some (runs items i) := by
  -- A round that goes on takes one from the rounds that are left and one at least from the input.
  induction n generalizing items i with
  | zero => exact absurd h (Nat.not_lt_zero _)
  | succ n ih =>
    rw [hunrolls items i hi]
    by_cases hitem : ∃ value rest, (loop origin items i).reply = .success (.item value) rest
    · obtain ⟨value, rest, hround⟩ := hitem
      obtain ⟨hrest, hlt⟩ := hshort origin items i value rest hi hround
      rw [run_of_item hround, ih hrest (by omega), Run.proceed_of_item hround]
      rfl
    · exact run_of_not_item (fun value rest hround => hitem ⟨value, rest, hround⟩) _

/-- A loop whose rounds shorten the input ends with the parser that they unroll. -/
theorem Shortens.ends (hshort : loop.Shortens S) {p : Parser ι ε β}
    (runs : ι → List α → Parser ι ε β) (hunrolls : ∀ origin, loop.Unrolls S origin (runs origin))
    (hstart : ∀ i, runs i [] i = p i) : loop.EndsOn S p where
  shortens := hshort
  collects := hshort.length_add_le
  ends hi h := by rw [hshort.run_eq (hunrolls _) hi h, hstart]

omit [Input ι σ] in
/-- A loop that ends in as many rounds as it is given ends with its run. -/
theorem within_of_run {n : Nat} {r : Run ι ε β} (h : loop.run origin n items i = some r) :
    loop.within origin n items i = r := by
  induction n generalizing items i r with
  | zero => cases h
  | succ n ih =>
    rw [within]
    by_cases hitem : ∃ value rest, (loop origin items i).reply = .success (.item value) rest
    · obtain ⟨value, rest, hround⟩ := hitem
      rw [run_of_item hround] at h
      obtain ⟨r', hrun, rfl⟩ := Option.map_eq_some_iff.1 h
      rw [Run.proceed_of_item hround, ih hrun]
    · rw [run_of_not_item fun value rest hround => hitem ⟨value, rest, hround⟩] at h
      exact Option.some.inj h

/-- Where a loop ends with a parser, it is that parser once it is given rounds enough. -/
theorem EndsOn.parser_eq {p : Parser ι ε β} (h : loop.EndsOn S p) {rounds : ι → Nat} (hi : S i)
    (hrounds : Input.length i < rounds i) : loop.parser rounds i = p i :=
  within_of_run (h.ends hi hrounds)

/-- What a loop returns is the result of a round, at a place it has come to. -/
theorem exists_reaches_of_run {n : Nat} {r : Run ι ε β} {value : β}
    (hrun : loop.run origin n items i = some r) (hreply : r.reply = .success value rest)
    (hreaches : loop.Reaches origin items i) :
    ∃ items i, loop.Reaches origin items i ∧
      (loop origin items i).reply = .success (.result value) rest := by
  induction n generalizing items i r with
  | zero => cases hrun
  | succ n ih =>
    rcases hround : (loop origin items i).reply with ⟨value' | value', rest'⟩ | f | fault
    case success.item =>
      rw [run_of_item hround] at hrun
      obtain ⟨r', hrun', rfl⟩ := Option.map_eq_some_iff.1 hrun
      exact ih hrun' hreply (hreaches.round hround)
    all_goals
      simp only [run, hround, Option.some.injEq] at hrun
      subst hrun
      cases hreply
    exact ⟨items, i, hreaches, hround⟩

/-- A parser that a loop ends with returns no more than the items of the loop. -/
theorem EndsOn.returnsWithin {p : Parser ι ε β} (h : loop.Ends p) {result : List α → β → Prop}
    (hmakes : loop.Makes (fun _ => True) result) {size : β → Nat}
    (hsize : ∀ items value, result items value → size value ≤ items.length) :
    ReturnsWithin size p := by
  intro i value rest hreply
  obtain ⟨items, place, hreaches, hround⟩ :=
    exists_reaches_of_run (h.ends trivial (Nat.lt_succ_self (Input.length i))) hreply .start
  obtain ⟨_, hitem, -⟩ | ⟨_, hvalue, hresult⟩ := hmakes _ _ _ _ _ trivial hround
  · cases hitem
  · cases hvalue
    exact Nat.le_trans (hsize _ _ hresult) (Nat.le_of_add_right_le (h.collects trivial hreaches).2)

end Loop

end ParseKit
