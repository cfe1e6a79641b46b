/-
  One pass and symbol by symbol.

  A scanner looks for the end of what it takes in one pass over its input.
  The same piece is found by repeating a parser of one symbol and recognizing
  what all of it has taken: a run by an unbounded repetition, a bounded run
  by a bounded one, and a number of symbols by an exact one.  Each repetition
  carries out the judgement of the scanner, by induction on the symbols in
  front of it.
-/
import ParseKit.Proofs.BoundedRepetition
import ParseKit.Proofs.Parser.Successes
import ParseKit.Proofs.Scan.CarriedOut

set_option autoImplicit false

namespace ParseKit

open LawfulInput

variable {ι σ ε α β γ : Type} [Input ι σ] [ParseError ε ι]

/-! ## Repetitions of one symbol -/

namespace Parser

variable [LawfulInput ι σ] {p : Parser ι ε α} {mode : Mode} {accepts : σ → Bool} {i : ι}

/-- A collector that wants every value takes a run of symbols. -/
theorem carriesOut_drive (hp : p.TakesOne mode accepts) (hi : Valid i) {c : Collector α γ β}
    (hc : ∀ collected, c.wants collected = true) (guard : ErrorKind) (collected : γ) :
    (c.drive p guard collected ⟨i, none⟩).reply.CarriesOut mode
      (.ofRun accepts none (Input.symbols i)) i := by
  induction hsymbols : Input.symbols i generalizing i collected with
  | nil =>
    obtain ⟨hmode, e, h⟩ | ⟨hmode, h⟩ := hp.of_nil hi hsymbols
    · rw [Collector.reply_drive_of_miss (hc _) guard h]
      exact .takes_none hi _ (.inr hmode) rfl
    · rw [Collector.reply_drive_of_incomplete (hc _) guard h]
      exact .asks rfl hmode
  | cons s l ih =>
    cases hs : accepts s with
    | true =>
      obtain ⟨value, h⟩ := hp.of_accepted hi hsymbols hs
      obtain ⟨hvalid, hrest, hlt⟩ := behind_first hi hsymbols
      rw [Collector.reply_drive_of_success (hc _) guard h hlt, Judgement.ofRun_cons hs]
      exact (ih hvalid _ hrest).behind hi
    | false =>
      obtain ⟨e, h⟩ := hp.of_refused hi hsymbols hs
      rw [Collector.reply_drive_of_miss (hc _) guard h, Judgement.ofRun_cons_refused hs]
      exact .takes_none hi _ (.inl rfl) rfl

theorem carriesOut_many0 (hp : p.TakesOne mode accepts) (hi : Valid i) :
    (many0 p i).reply.CarriesOut mode (.ofRun accepts none (Input.symbols i)) i :=
  carriesOut_drive hp hi (fun _ => rfl) .many0 _

theorem carriesOut_many1 (hp : p.TakesOne mode accepts) (hi : Valid i) (kind : ErrorKind) :
    (many1 p i).reply.CarriesOut mode (.ofRun accepts (some kind) (Input.symbols i)) i := by
  unfold many1 collectMany1
  cases hsymbols : Input.symbols i with
  | nil =>
    obtain ⟨hmode, e, h⟩ | ⟨hmode, h⟩ := hp.of_nil hi hsymbols
    · rw [Run.reply_handle_of_miss h]
      exact .refuses _ (.inr hmode) rfl
    · rw [Run.handle, h]
      exact .asks rfl hmode
  | cons s l =>
    cases hs : accepts s with
    | true =>
      -- Behind the first symbol the repetition goes on as any other.
      obtain ⟨value, h⟩ := hp.of_accepted hi hsymbols hs
      obtain ⟨hvalid, hrest, hlt⟩ := behind_first hi hsymbols
      rw [Run.reply_handle_of_success h, if_pos hlt, Judgement.ofRun_cons hs, ← hrest]
      exact (carriesOut_drive (c := .list) hp hvalid (fun _ => rfl) .many1 _).behind hi
    | false =>
      obtain ⟨e, h⟩ := hp.of_refused hi hsymbols hs
      rw [Run.reply_handle_of_miss h, Judgement.ofRun_cons_refused hs]
      exact .refuses _ (.inl rfl) rfl

/-- Where the symbol is missed, the lower bound decides. -/
theorem carriesOut_boundedFrom_of_miss (hi : Valid i) {origin : ι} {min max taken : Nat}
    (hlt : taken < max) {e : ε} (h : (p i).reply = .failure (.recoverable e)) {j : Judgement}
    (hdecided : j.final = true ∨ mode = .complete)
    (hverdict : j.verdict = if min - taken = 0 then .takes 0 else .refuses .takeWhileMN) :
    (boundedFrom origin min max p taken i).reply.CarriesOut mode j i := by
  rw [boundedFrom_of_halts hlt (halts_of_failure h), h]
  by_cases hmin : min ≤ taken
  · rw [if_pos hmin]
    exact .takes_none hi _ hdecided (hverdict.trans (if_pos (Nat.sub_eq_zero_of_le hmin)))
  · rw [if_neg hmin]
    exact .refuses _ hdecided (hverdict.trans (if_neg (by omega)))

/-- The rest of a bounded repetition takes a run within what is left of its bounds. -/
theorem carriesOut_boundedFrom (hp : p.TakesOne mode accepts) (hi : Valid i) (origin : ι)
    {min max taken : Nat} (hmin : min ≤ max) (hmax : taken ≤ max) :
    (boundedFrom origin min max p taken i).reply.CarriesOut mode
      (.ofBounded (min - taken) (max - taken) accepts (Input.symbols i)) i := by
  -- By induction on how many more symbols may be taken.
  induction hleft : max - taken generalizing i taken with
  | zero =>
    rw [boundedFrom_of_le (Nat.sub_eq_zero_iff_le.1 hleft), Judgement.ofBounded_zero,
      if_pos (by omega)]
    exact .takes_none hi _ (.inl rfl) rfl
  | succ left ih =>
    have hlt : taken < max := by omega
    cases hsymbols : Input.symbols i with
    | nil =>
      rw [Judgement.ofBounded_nil]
      obtain ⟨hmode, e, h⟩ | ⟨hmode, h⟩ := hp.of_nil hi hsymbols
      · exact carriesOut_boundedFrom_of_miss hi hlt h (.inr hmode) rfl
      · rw [boundedFrom_of_halts hlt (halts_of_failure h), h]
        simp only [Reply.concluded, Reply.interrupted, ite_self]
        exact .asks rfl hmode
    | cons s l =>
      cases hs : accepts s with
      | true =>
        obtain ⟨value, h⟩ := hp.of_accepted hi hsymbols hs
        obtain ⟨hvalid, hrest, hshorter⟩ := behind_first hi hsymbols
        have hbehind := ih hvalid hlt (by omega)
        rw [hrest, Nat.sub_add_eq min taken 1] at hbehind
        rw [boundedFrom_of_success hlt h hshorter, Judgement.ofBounded_cons hs]
        exact (hbehind.map _).behind hi
      | false =>
        obtain ⟨e, h⟩ := hp.of_refused hi hsymbols hs
        rw [Judgement.ofBounded_cons_refused hs]
        exact carriesOut_boundedFrom_of_miss hi hlt h (.inl rfl) rfl

theorem carriesOut_manyMN (hp : p.TakesOne mode accepts) (hi : Valid i) {min max : Nat}
    (hbounds : min ≤ max) :
    (manyMN min max p i).reply.CarriesOut mode
      (.ofBounded min max accepts (Input.symbols i)) i := by
  rw [manyMN, if_neg (Nat.not_lt.2 hbounds)]
  exact carriesOut_boundedFrom hp hi i hbounds (Nat.zero_le max)

theorem carriesOut_countFrom (hp : p.TakesOne mode fun _ : σ => true) (hi : Valid i) (origin : ι)
    (n : Nat) :
    (countFrom origin p n i).reply.CarriesOut mode (.ofTake n (Input.symbols i)) i := by
  induction n generalizing i with
  | zero => exact .takes_none hi _ (.inl rfl) rfl
  | succ n ih =>
    cases hsymbols : Input.symbols i with
    | nil =>
      obtain ⟨hmode, e, h⟩ | ⟨hmode, h⟩ := hp.of_nil hi hsymbols
      · rw [countFrom_of_fails origin (by rw [h]; rfl), h]
        exact .refuses _ (.inr hmode) rfl
      · rw [countFrom_of_fails origin (by rw [h]; rfl), h]
        exact .asks rfl hmode
    | cons s l =>
      obtain ⟨value, h⟩ := hp.of_accepted hi hsymbols rfl
      obtain ⟨hvalid, hrest, -⟩ := behind_first hi hsymbols
      have hbehind := ih hvalid
      rw [hrest] at hbehind
      rw [countFrom, Run.reply_handle_of_success h, Judgement.ofTake_cons]
      exact (hbehind.map _).behind hi

/-! ## One pass -/

/-- Bounds in the wrong order are an error to both kinds of scanning where nothing may follow. -/
theorem agrees_manyMN_of_lt (hi : Valid i) {min max : Nat} (hlt : max < min) (accepts : σ → Bool) :
    (takeBounded .complete min max accepts i : Run ι ε ι).reply.Agrees
      (recognize (manyMN min max p) i).reply := by
  have hrun : Judgement.runLength accepts ((Input.symbols i).take max) ≤ max :=
    Nat.le_trans (Judgement.runLength_le accepts _) (List.length_take_le max _)
  have hreply : (manyMN min max p i).reply =
      .failure (.recoverable (ParseError.ofKind i .manyMN)) := by
    rw [manyMN, if_pos hlt]
    rfl
  rw [takeBounded_eq hi, Judgement.run_complete, Judgement.ofBounded,
    if_neg (Nat.not_le.2 (Nat.lt_of_le_of_lt hrun hlt)), recognize_of_failure hreply]
  exact .recoverable _ _

/-- **Scanning in one pass is repeating a parser of one symbol.**  On every valid input and in both
modes, taking a run of accepted symbols agrees with recognizing a repetition of a parser that takes
one accepted symbol, taking a run that must not be empty with recognizing a repetition that must
succeed once, taking a run within bounds with recognizing a repetition within the same bounds, and
taking a number of symbols with recognizing so many of them one by one: both succeed with the same
piece and the same rest, both fail recoverably, or both ask for more input.  Only for bounds in the
wrong order a bounded run may ask for more input in streaming mode. -/
theorem one_pass (hi : Valid i) (mode : Mode) (accepts : σ → Bool) (kind : ErrorKind) :
    (∀ nonempty : ErrorKind,
      (takeRun mode accepts none i : Run ι ε ι).reply.Agrees
          (recognize (many0 (one mode accepts kind)) i).reply ∧
        (takeRun mode accepts (some nonempty) i : Run ι ε ι).reply.Agrees
          (recognize (many1 (one mode accepts kind)) i).reply) ∧
    (∀ min max, mode = .complete ∨ min ≤ max →
      (takeBounded mode min max accepts i : Run ι ε ι).reply.Agrees
        (recognize (manyMN min max (one mode accepts kind)) i).reply) ∧
    ∀ n, (take mode n i : Run ι ε ι).reply.Agrees
      (recognize (count n (one mode (fun _ => true) kind)) i).reply := by
  have hone : (one mode accepts kind : Parser ι ε σ).TakesOne mode accepts :=
    takesOne_one mode accepts kind
  refine ⟨fun nonempty => ⟨?_, ?_⟩, fun min max hbounds => ?_, fun n => ?_⟩
  · rw [takeRun_eq hi]
    exact agrees_recognize hi (carriesOut_many0 hone hi)
  · rw [takeRun_eq hi]
    exact agrees_recognize hi (carriesOut_many1 hone hi nonempty)
  · rcases Nat.lt_or_ge max min with hlt | hle
    · obtain rfl := hbounds.resolve_right (Nat.not_le.2 hlt)
      exact agrees_manyMN_of_lt hi hlt accepts
    · rw [takeBounded_eq hi]
      exact agrees_recognize hi (carriesOut_manyMN hone hi hle)
  · rw [take_eq hi]
    exact agrees_recognize hi (carriesOut_countFrom (takesOne_one mode _ kind) hi i n)

/-- Two letters of two bytes each in front of a digit: one by one they are recognized as the piece
that is found in one pass, and a fourth symbol is asked for where more may follow. -/
theorem one_pass_accents :
    let w : Window Text := ⟨⟨['n', 'é', 'à', '1']⟩, 1, 6⟩
    let letter : Char → Bool := fun s => !Symbol.isIn .digit s
    let symbol (accepts : Char → Bool) : Parser (Window Text) (Cause (Window Text)) Char :=
      one .streaming accepts .char
    Valid w ∧
    (recognize (many0 (symbol letter)) w).reply = .success ⟨w.buffer, 1, 5⟩ ⟨w.buffer, 5, 6⟩ ∧
    (recognize (many1 (symbol letter)) w).reply = .success ⟨w.buffer, 1, 5⟩ ⟨w.buffer, 5, 6⟩ ∧
    (recognize (manyMN 0 1 (symbol letter)) w).reply =
      .success ⟨w.buffer, 1, 3⟩ ⟨w.buffer, 3, 6⟩ ∧
    (recognize (count 3 (symbol fun _ => true)) w).reply =
      .success ⟨w.buffer, 1, 6⟩ ⟨w.buffer, 6, 6⟩ ∧
    (recognize (count 4 (symbol fun _ => true)) w).reply = .failure .incomplete := by
  intro w letter symbol
  have hvalid : Valid w := (valid_splitAt (Window.valid_whole trivial) (n := 1) (by decide)).2
  obtain ⟨hruns, hbounded, htake⟩ :=
    one_pass (ε := Cause (Window Text)) hvalid .streaming letter .char
  obtain ⟨-, -, hany⟩ :=
    one_pass (ε := Cause (Window Text)) hvalid .streaming (fun _ => true) .char
  exact ⟨hvalid, (hruns .takeWhile1).1.eq_of_success rfl, (hruns .takeWhile1).2.eq_of_success rfl,
    (hbounded 0 1 (.inr (by decide))).eq_of_success rfl, (hany 3).eq_of_success rfl,
    (hany 4).eq_of_incomplete rfl⟩

end Parser

end ParseKit
