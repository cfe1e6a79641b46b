/-
  Judgements carried out symbol by symbol.

  A parser carries a judgement out if it leaves what the judgement leaves and
  fails in the state in which the judgement's own run fails, whatever its
  value and its errors are.  What is behind a first symbol that is taken may
  be judged on its own (`CarriesOut.behind`), so a parser that goes from one
  symbol to the next is followed by an induction on the symbols; and what it
  has taken is recognized as the piece that a scanner with the same judgement
  takes in one pass (`Parser.agrees_recognize`).
-/
import ParseKit.Proofs.Confinement

set_option autoImplicit false

namespace ParseKit

open LawfulInput

/-! ## Replies that agree -/

/-- Both replies are the same success, or both are failures of the same state, recoverable or
incomplete; the errors may differ. -/
inductive Reply.Agrees {ι ε α : Type} : Reply ι ε α → Reply ι ε α → Prop
  | success (value : α) (rest : ι) : Agrees (.success value rest) (.success value rest)
  | recoverable (e e' : ε) : Agrees (.failure (.recoverable e)) (.failure (.recoverable e'))
  | incomplete : Agrees (.failure .incomplete) (.failure .incomplete)

namespace Reply.Agrees

variable {ι ε α : Type} {reply reply' : Reply ι ε α}

theorem eq_of_success (h : reply.Agrees reply') {value : α} {rest : ι}
    (hreply : reply = .success value rest) : reply' = .success value rest := by
  subst hreply
  cases h
  rfl

theorem eq_of_incomplete (h : reply.Agrees reply') (hreply : reply = .failure .incomplete) :
    reply' = .failure .incomplete := by
  subst hreply
  cases h
  rfl

theorem map {β : Type} (h : reply.Agrees reply') (f : α → β) :
    (reply.map f).Agrees (reply'.map f) := by
  cases h with
  | success value rest => exact .success (f value) rest
  | recoverable e e' => exact .recoverable e e'
  | incomplete => exact .incomplete

end Reply.Agrees

/-! ## Behind a first symbol -/

/-- What a judgement on some symbols is to all symbols, if one is taken before them. -/
def Judgement.behind (j : Judgement) : Judgement where
  verdict :=
    match j.verdict with
    | .takes count => .takes (1 + count)
    | .refuses kind => .refuses kind
  final := j.final

namespace Judgement

variable {σ : Type} {accepts : σ → Bool} {s : σ}

theorem runLength_cons (hs : accepts s = true) (l : List σ) :
    runLength accepts (s :: l) = runLength accepts l + 1 := by
  simp [runLength, hs]

theorem runLength_cons_refused (hs : accepts s = false) (l : List σ) :
    runLength accepts (s :: l) = 0 := by
  simp [runLength, hs]

theorem ofRun_cons (hs : accepts s = true) (nonempty : Option ErrorKind) (l : List σ) :
    ofRun accepts nonempty (s :: l) = (ofRun accepts none l).behind := by
  have hnone : (ofRun accepts none l).verdict = .takes (runLength accepts l) := by
    unfold ofRun
    by_cases hzero : runLength accepts l = 0
    · simp only [hzero, if_true, Option.elim_none]
    · exact if_neg hzero
  unfold behind
  rw [hnone]
  simp only [ofRun, runLength_cons hs, Nat.add_one_ne_zero, if_false, List.length_cons,
    Nat.add_lt_add_iff_right, Nat.add_comm 1]

theorem ofRun_cons_refused (hs : accepts s = false) (nonempty : Option ErrorKind) (l : List σ) :
    ofRun accepts nonempty (s :: l) = ⟨nonempty.elim (.takes 0) .refuses, true⟩ := by
  simp [ofRun, runLength_cons_refused hs]

/-- If one symbol is accepted both bounds are one nearer for those behind it. -/
theorem ofBounded_cons (hs : accepts s = true) (min max : Nat) (l : List σ) :
    ofBounded min (max + 1) accepts (s :: l) = (ofBounded (min - 1) max accepts l).behind := by
  have hmin : min ≤ runLength accepts (l.take max) + 1 ↔
      min - 1 ≤ runLength accepts (l.take max) := by omega
  simp only [ofBounded, behind, List.take_succ_cons, runLength_cons hs, List.length_cons,
    Nat.add_lt_add_iff_right, Nat.add_le_add_iff_right, hmin]
  split <;> simp [Nat.add_comm 1]

theorem ofBounded_cons_refused (hs : accepts s = false) (min max : Nat) (l : List σ) :
    ofBounded min max accepts (s :: l) =
      ⟨if min = 0 then .takes 0 else .refuses .takeWhileMN, true⟩ := by
  have hzero : runLength accepts ((s :: l).take max) = 0 := by
    cases max with
    | zero => rfl
    | succ max => exact runLength_cons_refused hs _
  simp [ofBounded, hzero]

theorem ofBounded_zero (min : Nat) (l : List σ) :
    ofBounded min 0 accepts l = ⟨if min = 0 then .takes 0 else .refuses .takeWhileMN, true⟩ := by
  simp [ofBounded, runLength]

theorem ofBounded_nil (min max : Nat) :
    ofBounded min (max + 1) accepts [] =
      ⟨if min = 0 then .takes 0 else .refuses .takeWhileMN, false⟩ := by
  simp [ofBounded, runLength]

theorem ofTake_cons (n : Nat) (s : σ) (l : List σ) :
    ofTake (n + 1) (s :: l) = (ofTake n l).behind := by
  simp only [ofTake, behind, List.length_cons, Nat.add_le_add_iff_right]
  split <;> simp [Nat.add_comm 1]

end Judgement

/-! ## Carrying out a judgement -/

section

variable {ι σ ε α β : Type} [Input ι σ] [LawfulInput ι σ]

/-- A reply to an input is what carrying out a judgement in a mode comes to, but for the value and
the error. -/
inductive Reply.CarriesOut (mode : Mode) (j : Judgement) (i : ι) : Reply ι ε α → Prop
  | takes {count : Nat} (value : α) : (j.final = true ∨ mode = .complete) →
    j.verdict = .takes count → CarriesOut mode j i (.success value (parts count i).2)
  | refuses {kind : ErrorKind} (e : ε) : (j.final = true ∨ mode = .complete) →
    j.verdict = .refuses kind → CarriesOut mode j i (.failure (.recoverable e))
  | asks : j.final = false → mode = .streaming → CarriesOut mode j i (.failure .incomplete)

namespace Reply.CarriesOut

variable {mode : Mode} {j : Judgement} {i : ι} {reply : Reply ι ε α}

theorem map (h : reply.CarriesOut mode j i) (f : α → β) : (reply.map f).CarriesOut mode j i := by
  cases h with
  | takes value hdecided hverdict => exact .takes (f value) hdecided hverdict
  | refuses e hdecided hverdict => exact .refuses e hdecided hverdict
  | asks hopen hmode => exact .asks hopen hmode

theorem of_map {f : α → β} (h : (reply.map f).CarriesOut mode j i) :
    reply.CarriesOut mode j i := by
  rcases reply with ⟨value, rest⟩ | ⟨_ | e | e⟩ | fault
  case success =>
    cases h with
    | takes _ hdecided hverdict => exact .takes value hdecided hverdict
  case failure.recoverable =>
    cases h with
    | refuses _ hdecided hverdict => exact .refuses e hdecided hverdict
  case failure.incomplete =>
    cases h with
    | asks hopen hmode => exact .asks hopen hmode
  all_goals cases h

/-- A verdict that takes nothing leaves the input as it is. -/
theorem takes_none (hi : Valid i) (value : α) (hdecided : j.final = true ∨ mode = .complete)
    (hverdict : j.verdict = .takes 0) : (.success value i : Reply ι ε α).CarriesOut mode j i := by
  have h : (.success value (parts 0 i).2 : Reply ι ε α).CarriesOut mode j i :=
    .takes value hdecided hverdict
  rwa [parts_zero hi] at h

/-- What is judged behind a first symbol is part of the judgement on all symbols. -/
theorem behind (hi : Valid i) (h : reply.CarriesOut mode j (parts 1 i).2) :
    reply.CarriesOut mode j.behind i := by
  cases h with
  | takes value hdecided hverdict =>
    rw [parts_parts hi]
    exact .takes value hdecided (by rw [Judgement.behind, hverdict])
  | refuses e hdecided hverdict =>
    exact .refuses e hdecided (by rw [Judgement.behind, hverdict])
  | asks hopen hmode => exact .asks hopen hmode

theorem exists_success {count : Nat} (h : reply.CarriesOut mode ⟨.takes count, true⟩ i) :
    ∃ value, reply = .success value (parts count i).2 := by
  cases h with
  | takes value _ hverdict =>
    cases hverdict
    exact ⟨value, rfl⟩
  | refuses _ _ hverdict => cases hverdict
  | asks hopen _ => cases hopen

theorem exists_miss {kind : ErrorKind} (h : reply.CarriesOut mode ⟨.refuses kind, true⟩ i) :
    ∃ e, reply = .failure (.recoverable e) := by
  cases h with
  | takes _ _ hverdict => cases hverdict
  | refuses e _ _ => exact ⟨e, rfl⟩
  | asks hopen _ => cases hopen

/-- At the end of the input complete mode refuses and streaming mode asks for more. -/
theorem miss_or_asks {kind : ErrorKind} (h : reply.CarriesOut mode ⟨.refuses kind, false⟩ i) :
    (mode = .complete ∧ ∃ e, reply = .failure (.recoverable e)) ∨
      (mode = .streaming ∧ reply = .failure .incomplete) := by
  cases h with
  | takes _ _ hverdict => cases hverdict
  | refuses e hdecided _ => exact .inl ⟨hdecided.resolve_left Bool.noConfusion, e, rfl⟩
  | asks _ hmode => exact .inr ⟨hmode, rfl⟩

variable [ParseError ε ι]

/-- The run of a judgement carries it out. -/
theorem run (mode : Mode) (value : ι → List σ → α) (i : ι) (j : Judgement) :
    (j.run mode value i : Run ι ε α).reply.CarriesOut mode j i := by
  have hdecided : (j.final = true ∨ mode = .complete) →
      (j.verdict.run value i : Run ι ε α).reply.CarriesOut mode j i := by
    intro h
    cases hverdict : j.verdict with
    | takes count => exact .takes _ h hverdict
    | refuses kind => exact .refuses _ h hverdict
  cases hfinal : j.final with
  | true =>
    rw [Judgement.run, if_pos hfinal]
    exact hdecided (.inl hfinal)
  | false =>
    rw [Judgement.run, if_neg (by rw [hfinal]; exact Bool.noConfusion)]
    cases mode with
    | complete => exact hdecided (.inr rfl)
    | streaming => exact .asks hfinal rfl

end Reply.CarriesOut

end

/-! ## Parsers of one symbol -/

namespace Parser

variable {ι σ ε α β : Type} [Input ι σ] [LawfulInput ι σ]

/-- On every valid input a parser does what a scanner for one accepted symbol does. -/
def TakesOne (p : Parser ι ε α) (mode : Mode) (accepts : σ → Bool) : Prop :=
  ∃ kind, ∀ i, Valid i →
    (p i).reply.CarriesOut mode (.ofOne accepts kind (Input.symbols i)) i

namespace TakesOne

variable {p : Parser ι ε α} {mode : Mode} {accepts : σ → Bool} {i : ι} {s : σ} {l : List σ}

theorem of_accepted (hp : p.TakesOne mode accepts) (hi : Valid i)
    (hsymbols : Input.symbols i = s :: l) (hs : accepts s = true) :
    ∃ value, (p i).reply = .success value (parts 1 i).2 := by
  obtain ⟨kind, hp⟩ := hp
  have h := hp i hi
  rw [hsymbols, Judgement.ofOne, if_pos hs] at h
  exact h.exists_success

theorem of_refused (hp : p.TakesOne mode accepts) (hi : Valid i)
    (hsymbols : Input.symbols i = s :: l) (hs : accepts s = false) :
    ∃ e, (p i).reply = .failure (.recoverable e) := by
  obtain ⟨kind, hp⟩ := hp
  have h := hp i hi
  rw [hsymbols, Judgement.ofOne, if_neg (by rw [hs]; exact Bool.noConfusion)] at h
  exact h.exists_miss

theorem of_nil (hp : p.TakesOne mode accepts) (hi : Valid i) (hsymbols : Input.symbols i = []) :
    (mode = .complete ∧ ∃ e, (p i).reply = .failure (.recoverable e)) ∨
      (mode = .streaming ∧ (p i).reply = .failure .incomplete) := by
  obtain ⟨kind, hp⟩ := hp
  have h := hp i hi
  rw [hsymbols] at h
  exact h.miss_or_asks

theorem map (hp : p.TakesOne mode accepts) (f : α → β) :
    (Parser.map f p).TakesOne mode accepts :=
  hp.imp fun _ h i hi => (h i hi).map f

end TakesOne

variable [ParseError ε ι]

theorem takesOne_one (mode : Mode) (accepts : σ → Bool) (kind : ErrorKind) :
    (one mode accepts kind : Parser ι ε σ).TakesOne mode accepts := by
  refine ⟨kind, fun i hi => ?_⟩
  have h := map_one_eq (ε := ε) hi mode accepts kind (fun _ => ()) (fun _ _ => ()) fun _ _ => rfl
  have hrun := Reply.CarriesOut.run (ε := ε) mode (fun _ _ => ()) i
    (.ofOne accepts kind (Input.symbols i))
  rw [← h] at hrun
  exact hrun.of_map

theorem takesOne_char [Symbol σ] (mode : Mode) (c : Char) :
    (char mode c : Parser ι ε Char).TakesOne mode fun s : σ => Symbol.standsFor s c :=
  (takesOne_one mode _ .char).imp fun _ h i hi => (h i hi).map _

end Parser

/-! ## Recognizing what has been taken -/

namespace Parser

variable {ι σ ε α : Type} [Input ι σ] [LawfulInput ι σ] [ParseError ε ι] {p : Parser ι ε α} {i : ι}

/-- Whoever carries out a judgement has taken the piece that the run of the judgement takes. -/
theorem agrees_recognize (hi : Valid i) {mode : Mode} {j : Judgement}
    (h : (p i).reply.CarriesOut mode j i) :
    (j.run mode (fun piece _ => piece) i : Run ι ε ι).reply.Agrees (recognize p i).reply := by
  have hrun : (j.final = true ∨ mode = .complete) →
      (j.run mode (fun piece _ => piece) i : Run ι ε ι) =
        j.verdict.run (fun piece _ => piece) i := by
    rintro (hfinal | rfl)
    · exact if_pos hfinal
    · exact Judgement.run_complete _ _ _
  generalize hreply : (p i).reply = reply at h
  cases h with
  | takes value hdecided hverdict =>
    rw [hrun hdecided, hverdict, recognize_of_success hi (isBoundary_take hi _) hreply]
    exact .success _ _
  | refuses e hdecided hverdict =>
    rw [hrun hdecided, hverdict, recognize_of_failure hreply]
    exact .recoverable _ e
  | asks hopen hmode =>
    rw [Judgement.run, if_neg (by rw [hopen]; exact Bool.noConfusion), hmode,
      recognize_of_failure hreply]
    exact .incomplete

end Parser

end ParseKit
