/-
  The rounds of repetitions.

  Each loop of a repetition goes on behind a success unless the input is as
  long as before.  Nothing else stops a parser that succeeds everywhere, so
  the loops end where the parsers leave no remainder longer than their input:
  there a round that goes on has shortened it.  The loops below are run round
  by round without any other bound; each ends with the repetition it is the
  loop of.
-/
import ParseKit.Parser.Separated
import ParseKit.Proofs.Parser.Greedy
import ParseKit.Proofs.Parser.Loop

set_option autoImplicit false

namespace ParseKit

variable {ι σ ε α β γ : Type} [Input ι σ] [ParseError ε ι]

namespace Loop

/-! ## Rounds that apply a parser -/

/-- An item, unless the input is as long as it was before; in that case there is an error at
`place`. -/
def taking (event : Event) (kind : ErrorKind) (place before : ι) (value : α) (rest : ι) :
    Run ι ε (Round α β) :=
  if Input.length rest = Input.length before then Run.noting event (.reject place kind)
  else .success (.item value) rest

section

variable {S : ι → Prop} {p : Parser ι ε α} {event : Event} {kind : ErrorKind} {place i rest : ι}
  {outcome : Round α β} {onMiss : ε → Run ι ε (Round α β)}

/-- A round that applies a parser brings an item and shortens the input, or it succeeds where the
parser is missed. -/
theorem success_of_taking (hp : p.Keeps S) (hi : S i)
    (h : ((p i).handle (taking event kind place i) onMiss).reply = .success outcome rest) :
    (∃ value, outcome = .item value ∧ S rest ∧ Input.length rest < Input.length i) ∨
      ∃ e, (onMiss e).reply = .success outcome rest := by
  obtain ⟨value, mid, hreply, hround⟩ | ⟨e, -, hround⟩ := Run.exists_of_handle_success h
  · obtain ⟨hmid, hle⟩ := hp i hi value mid hreply
    by_cases hlength : Input.length mid = Input.length i
    · rw [taking, if_pos hlength] at hround
      cases hround
    · rw [taking, if_neg hlength] at hround
      cases hround
      exact .inl ⟨value, rfl, hmid, Nat.lt_of_le_of_ne hle hlength⟩
  · exact .inr ⟨e, hround⟩

/-- Where a parser does not grow its input, a round goes on as a repetition does behind it. -/
theorem taking_proceed (hp : p.Keeps S) (hi : S i) (more : α → ι → Run ι ε β) :
    ((p i).handle (taking event kind place i) onMiss).proceed more =
      (p i).handle
        (fun value rest =>
          if Input.length rest < Input.length i then more value rest
          else .stalled event kind place i rest)
        fun e => (onMiss e).proceed more := by
  rw [Run.handle_proceed]
  refine Run.handle_congr (fun value rest hreply => ?_) fun _ => rfl
  by_cases hlength : Input.length rest = Input.length i
  · rw [taking, if_pos hlength, if_neg (Nat.not_lt.2 (Nat.le_of_eq hlength.symm)),
      Run.stalled_of_eq hlength]
    rfl
  · have hle := (hp i hi value rest hreply).2
    rw [taking, if_neg hlength, if_pos (Nat.lt_of_le_of_ne hle hlength)]
    rfl

/-- A stall stays as it is whatever the values are changed into. -/
theorem map_unless_stalled {ends : Prop} [Decidable ends] (f : β → γ) (r : Run ι ε β) :
    (if _ : ends then r else Run.stalled event kind place i rest).map f =
      if ends then r.map f else Run.stalled event kind place i rest := by
  split
  · rfl
  · exact Run.map_stalled f

end

/-! ## The loops -/

/-- The loop of a collector: it applies the parser as long as the collector wants a value. -/
def collecting (c : Collector α γ β) (guard : ErrorKind) (p : Parser ι ε α) : Loop ι ε α β :=
  fun _ items i =>
    if c.wants (items.foldl c.push c.start) then
      (p i).handle (taking (.repetitionStalled guard) guard i i) fun _ =>
        Run.noting (.repetitionEnded (Input.length i))
          (.success (.result (c.finish (items.foldl c.push c.start) 0)) i)
    else .success (.result (c.finish (items.foldl c.push c.start) 0)) i

/-- The loop of a collector behind a first value, which it may not even want. -/
def collectingOnce (c : Collector α γ β) (p : Parser ι ε α) : Loop ι ε α β
  | _, [], i =>
    (p i).handle (taking (.repetitionStalled .many1) .many1 i i) fun e =>
      .recoverable (ParseError.wrap e i .many1)
  | origin, first :: more, i =>
    if c.wants c.start then collecting c .many1 p origin (first :: more) i
    else .success (.result (c.finish c.start 0)) i

/-- The loop of a repetition with bounds that are in order. -/
def bounded (min max : Nat) (p : Parser ι ε α) : Loop ι ε α (List α) := fun origin items i =>
  if items.length < max then
    (p i).handle (taking (.repetitionStalled .manyMN) .manyMN i i) fun e =>
      if items.length < min then .recoverable (ParseError.wrap e origin .manyMN)
      else .success (.result items) i
  else .success (.result items) i

/-- The loop of a repetition up to a terminator. -/
def till (p : Parser ι ε α) (terminator : Parser ι ε β) : Loop ι ε α (List α × β) :=
  fun _ items i =>
    (terminator i).handle (fun last rest => .success (.result (items, last)) rest) fun _ =>
      (p i).handle (taking (.repetitionStalled .manyTill) .manyTill i i) fun e =>
        .recoverable (ParseError.wrap e i .manyTill)

/-- The loop of a list with separators; `onMiss` is what comes of it if the first item is
missed. -/
def separated (sep : Parser ι ε β) (item : Parser ι ε α)
    (onMiss : ι → ε → Run ι ε (Round α (List α))) : Loop ι ε α (List α)
  | _, [], i => (item i).handle (taking .firstItemStalled .separatedList i i) (onMiss i)
  | _, first :: more, i =>
    (sep i).handle
      (fun _ afterSep =>
        if Input.length afterSep = Input.length i then
          Run.noting .separatorStalled (.reject i .separatedList)
        else
          (item afterSep).handle (taking .itemStalled .separatedList i afterSep) fun _ =>
            Run.noting (.trailingSeparator (Input.length i)) (.success (.result (first :: more)) i))
      fun _ => .success (.result (first :: more)) i

/-- The loop of a list that may be empty. -/
def list (sep : Parser ι ε β) (item : Parser ι ε α) : Loop ι ε α (List α) :=
  separated sep item fun i _ => .success (.result []) i

/-- The loop of a list with one item at least. -/
def nonemptyList (sep : Parser ι ε β) (item : Parser ι ε α) : Loop ι ε α (List α) :=
  separated sep item fun _ e => .recoverable e

/-! ## What a round can do -/

variable {S : ι → Prop} {p : Parser ι ε α} {sep : Parser ι ε β} {item : Parser ι ε α}

theorem makes_collecting (hp : p.Keeps S) (c : Collector α γ β) (guard : ErrorKind) :
    (collecting c guard p).Makes S fun items value =>
      value = c.finish (items.foldl c.push c.start) 0 := by
  intro origin items i outcome rest hi h
  unfold collecting at h
  split at h
  · refine (success_of_taking hp hi h).imp id fun ⟨e, hmiss⟩ => ?_
    cases hmiss
    exact ⟨_, rfl, rfl⟩
  · cases h
    exact .inr ⟨_, rfl, rfl⟩

theorem makes_collectingOnce (hp : p.Keeps S) (c : Collector α γ β) :
    (collectingOnce c p).Makes S fun items value =>
      value = c.finish (items.foldl c.push c.start) 0 ∨
        c.wants c.start = false ∧ value = c.finish c.start 0 := by
  intro origin items i outcome rest hi h
  cases items with
  | nil =>
    refine (success_of_taking hp hi h).imp id fun ⟨e, hmiss⟩ => ?_
    cases hmiss
  | cons first more =>
    rw [collectingOnce] at h
    split at h
    · exact (makes_collecting hp c .many1 _ _ _ _ _ hi h).imp id
        fun ⟨value, houtcome, hvalue⟩ => ⟨value, houtcome, .inl hvalue⟩
    · rename_i hwants
      cases h
      exact .inr ⟨_, rfl, .inr ⟨Bool.eq_false_iff.2 hwants, rfl⟩⟩

theorem makes_bounded (hp : p.Keeps S) (min max : Nat) :
    (bounded min max p).Makes S fun items value => value = items := by
  intro origin items i outcome rest hi h
  unfold bounded at h
  split at h
  · refine (success_of_taking hp hi h).imp id fun ⟨e, hmiss⟩ => ?_
    split at hmiss <;> cases hmiss
    exact ⟨_, rfl, rfl⟩
  · cases h
    exact .inr ⟨_, rfl, rfl⟩

theorem makes_till (hp : p.Keeps S) (terminator : Parser ι ε β) :
    (till p terminator).Makes S fun items value => value.1 = items := by
  intro origin items i outcome rest hi h
  obtain ⟨last, rest', -, hround⟩ | ⟨e, -, hround⟩ := Run.exists_of_handle_success h
  · cases hround
    exact .inr ⟨_, rfl, rfl⟩
  · refine (success_of_taking hp hi hround).imp id fun ⟨e, hmiss⟩ => ?_
    cases hmiss

theorem makes_separated (hsep : sep.Keeps S) (hitem : item.Keeps S)
    {onMiss : ι → ε → Run ι ε (Round α (List α))}
    (hmiss : ∀ i e outcome rest, (onMiss i e).reply = .success outcome rest →
      outcome = .result []) :
    (separated sep item onMiss).Makes S fun items value => value = items := by
  intro origin items i outcome rest hi h
  cases items with
  | nil =>
    exact (success_of_taking hitem hi h).imp id
      fun ⟨e, hround⟩ => ⟨_, hmiss _ _ _ _ hround, rfl⟩
  | cons first more =>
    obtain ⟨between, afterSep, hreply, hround⟩ | ⟨e, -, hround⟩ := Run.exists_of_handle_success h
    · obtain ⟨hafter, hle⟩ := hsep i hi between afterSep hreply
      split at hround
      · cases hround
      · obtain ⟨value, houtcome, hrest, hlt⟩ | ⟨e, hround⟩ :=
          success_of_taking hitem hafter hround
        · exact .inl ⟨value, houtcome, hrest, Nat.lt_of_lt_of_le hlt hle⟩
        · cases hround
          exact .inr ⟨_, rfl, rfl⟩
    · cases hround
      exact .inr ⟨_, rfl, rfl⟩

/-! ## The loops end -/

omit [Input ι σ] [ParseError ε ι] in
/-- Where nothing is left of a repetition, it comes to the items so far. -/
theorem map_append_success_nil (items : List α) (i : ι) :
    (Run.success [] i : Run ι ε (List α)).map (items ++ ·) = .success items i :=
  congrArg (Run.success · i) (List.append_nil items)

theorem unrolls_collecting (hp : p.Keeps S) (c : Collector α γ β) (guard : ErrorKind)
    (origin : ι) :
    (collecting c guard p).Unrolls S origin fun items i =>
      c.drive p guard (items.foldl c.push c.start) ⟨i, none⟩ := by
  intro items i hi
  dsimp only
  rw [Collector.drive_open, collecting]
  split
  · simp only [taking_proceed hp hi, List.foldl_append]
    rfl
  · rfl

theorem ends_collecting (hp : p.Keeps S) (c : Collector α γ β) (guard : ErrorKind) :
    (collecting c guard p).EndsOn S fun i => c.drive p guard c.start (.start i) :=
  (makes_collecting hp c guard).shortens.ends _ (unrolls_collecting hp c guard) fun _ => rfl

/-- A repetition that has to succeed once, given the values it has. -/
def resumedOnce (c : Collector α γ β) (p : Parser ι ε α) : List α → Parser ι ε β
  | [], i => Parser.collectMany1 c p i
  | first :: more, i =>
    if c.wants c.start then
      c.drive p .many1 ((first :: more).foldl c.push c.start) ⟨i, none⟩
    else .success (c.finish c.start 0) i

theorem ends_collectingOnce (hp : p.Keeps S) (c : Collector α γ β) :
    (collectingOnce c p).EndsOn S (Parser.collectMany1 c p) := by
  refine (makes_collectingOnce hp c).shortens.ends (fun _ => resumedOnce c p)
    (fun origin items i hi => ?_) fun _ => rfl
  cases items with
  | nil =>
    rw [collectingOnce, taking_proceed hp hi]
    rfl
  | cons first more =>
    -- Whether the collector wants a first value has been settled before there was one.
    rw [resumedOnce, collectingOnce]
    split
    · rename_i hwants
      refine (unrolls_collecting hp c .many1 origin (first :: more) i hi).trans ?_
      simp only [List.cons_append, resumedOnce, hwants, if_true]
    · rfl

theorem ends_bounded (hp : p.Keeps S) {min max : Nat} (h : min ≤ max) :
    (bounded min max p).EndsOn S (Parser.manyMN min max p) := by
  -- What is left of the repetition is added to the items so far.
  refine (makes_bounded hp min max).shortens.ends
    (fun origin items i => (Parser.boundedFrom origin min max p items.length i).map (items ++ ·))
    (fun origin items i hi => ?_) fun i => ?_
  · dsimp only
    rw [Parser.boundedFrom, bounded]
    split
    · rw [Run.map_handle, taking_proceed hp hi]
      refine Run.handle_congr (fun value rest _ => ?_) fun e => ?_
      · rw [map_unless_stalled, Run.map_map, List.length_append]
        simp
      · split
        · rfl
        · exact map_append_success_nil items i
    · exact map_append_success_nil items i
  · rw [Parser.manyMN, if_neg (Nat.not_lt.2 h)]
    exact Run.map_id _

theorem ends_till (hp : p.Keeps S) (terminator : Parser ι ε β) :
    (till p terminator).EndsOn S (Parser.manyTill p terminator) := by
  refine (makes_till hp terminator).shortens.ends
    (fun _ items i =>
      (Parser.manyTill p terminator i).map fun found => (items ++ found.1, found.2))
    (fun origin items i hi => ?_) fun i => Run.map_id _
  dsimp only
  rw [Parser.manyTill, till, Run.map_handle, Run.handle_proceed]
  refine Run.handle_congr (fun last rest _ => ?_) fun _ => ?_
  · exact congrArg (fun items => Run.success (items, last) rest) (List.append_nil items)
  · rw [Run.map_handle, taking_proceed hp hi]
    refine Run.handle_congr (fun value rest _ => ?_) fun _ => rfl
    rw [map_unless_stalled, Run.map_map]
    simp

/-- A list given the items it has; without any it is `whole`. -/
def resumedList (whole : Parser ι ε (List α)) (sep : Parser ι ε β) (item : Parser ι ε α) :
    List α → Parser ι ε (List α)
  | [], i => whole i
  | first :: more, i => (Parser.separatedTail sep item i).map (first :: more ++ ·)

theorem ends_separated (hsep : sep.Keeps S) (hitem : item.Keeps S)
    {onMiss : ι → ε → Run ι ε (Round α (List α))}
    (hmiss : ∀ i e outcome rest, (onMiss i e).reply = .success outcome rest →
      outcome = .result [])
    {whole : Parser ι ε (List α)}
    (hwhole : ∀ i more, whole i = (item i).handle (Parser.separatedAfter sep item i)
      fun e => (onMiss i e).proceed more) :
    (separated sep item onMiss).EndsOn S whole := by
  refine (makes_separated hsep hitem hmiss).shortens.ends (fun _ => resumedList whole sep item)
    (fun origin items i hi => ?_) fun _ => rfl
  cases items with
  | nil =>
    rw [separated, taking_proceed hitem hi]
    exact hwhole i _
  | cons first more =>
    have hend : (Run.success [] i : Run ι ε (List α)).map (first :: more ++ ·) =
        .success (first :: more) i := map_append_success_nil _ i
    rw [resumedList, Parser.separatedTail, separated, Run.map_handle, Run.handle_proceed]
    refine Run.handle_congr (fun between afterSep hreply => ?_) fun _ => hend
    obtain ⟨hafter, hle⟩ := hsep i hi between afterSep hreply
    by_cases hlength : Input.length afterSep = Input.length i
    · rw [if_pos hlength, dif_neg (Nat.not_lt.2 (Nat.le_of_eq hlength.symm)),
        Run.stalled_of_eq hlength]
      rfl
    · rw [if_neg hlength, dif_pos (Nat.lt_of_le_of_ne hle hlength), Run.map_handle,
        taking_proceed hitem hafter]
      refine Run.handle_congr (fun value rest _ => ?_) fun _ => ?_
      · rw [map_unless_stalled, Run.map_map]
        simp [resumedList]
      · exact congrArg (Run.noting (.trailingSeparator (Input.length i))) hend

theorem makes_list (hsep : sep.Keeps S) (hitem : item.Keeps S) :
    (list sep item).Makes S fun items value => value = items :=
  makes_separated hsep hitem fun _ _ _ _ h => by cases h; rfl

theorem makes_nonemptyList (hsep : sep.Keeps S) (hitem : item.Keeps S) :
    (nonemptyList sep item).Makes S fun items value => value = items :=
  makes_separated hsep hitem fun _ _ _ _ h => by cases h

theorem ends_list (hsep : sep.Keeps S) (hitem : item.Keeps S) :
    (list sep item).EndsOn S (Parser.separatedList sep item) :=
  ends_separated hsep hitem (fun _ _ _ _ h => by cases h; rfl) fun _ _ => rfl

theorem ends_nonemptyList (hsep : sep.Keeps S) (hitem : item.Keeps S) :
    (nonemptyList sep item).EndsOn S (Parser.separatedNonemptyList sep item) :=
  ends_separated hsep hitem (fun _ _ _ _ h => by cases h) fun _ _ => rfl

end Loop

end ParseKit
