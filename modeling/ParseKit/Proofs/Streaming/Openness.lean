/-
  Open answers.

  The answer of a scanner is open on an input that can go on in two ways on
  which its complete form takes different lengths, or takes nothing on one of
  them.  In streaming mode a scanner asks for more input only where its
  answer is open, if what it looks for can be there at all: a pattern that
  symbols of the kind spell, bounds in the right order, and a symbol that its
  test accepts.
-/
import ParseKit.Proofs.Streaming.Continued
import ParseKit.Proofs.Streaming.Modes

set_option autoImplicit false

namespace ParseKit

open LawfulInput

/-! ## What is taken -/

section

variable {σ : Type} {st : Storage σ}

/-- The number of storage units a verdict takes of some symbols, if it takes some. -/
def Verdict.extent? (st : Storage σ) (l : List σ) : Verdict → Option Nat
  | .takes count => some (st.extent (l.take count))
  | .refuses _ => none

/-- Verdicts on some symbols and on more of them differ if the one takes all or none and the other
takes all. -/
theorem Verdict.extent?_ne {v w : Verdict} {l b : List σ} (hb : b ≠ [])
    (hv : v = .takes l.length ∨ ∃ kind, v = .refuses kind) (hw : w = .takes (l ++ b).length) :
    v.extent? st l ≠ w.extent? st (l ++ b) := by
  have hpos : st.extent b ≠ 0 := fun hzero => hb (st.extent_eq_zero.1 hzero)
  rw [hw, extent?, List.take_length, st.extent_append]
  rcases hv with rfl | ⟨kind, rfl⟩
  · rw [extent?, List.take_length]
    intro h
    have := Option.some.inj h
    omega
  · rw [extent?]
    exact (Option.some_ne_none _).symm

end

namespace Scan

variable {ι σ : Type} [Input ι σ] [Symbol σ]

/-- The length that the complete form of a scanner takes of an input; none if it fails. -/
def taken? (ε : Type) [ParseError ε ι] (s : Scan) (i : ι) : Option Nat :=
  (s.parser .complete i : Run ι ε (Value ι σ)).reply.rest?.bind (Parser.consumed? i)

variable [LawfulInput ι σ]

/-- An input can go on in two ways on which the complete form of a scanner fares differently. -/
def OpenAt (ε : Type) [ParseError ε ι] (s : Scan) (i : ι) : Prop :=
  ∃ a b ia ib, Followed a i ia ∧ Followed b i ib ∧ s.taken? ε ia ≠ s.taken? ε ib

theorem taken?_eq {ε : Type} [ParseError ε ι] (s : Scan) {i : ι} (hi : Valid i) :
    s.taken? ε i =
      (s.judge (storage ι) (Input.symbols i)).verdict.extent? (storage ι) (Input.symbols i) := by
  rw [taken?, parser_eq hi, Judgement.run_complete]
  cases (s.judge (storage ι) (Input.symbols i)).verdict with
  | refuses kind => rfl
  | takes count => exact consumed?_splitAt hi (isBoundary_take hi count)

end Scan

/-! ## What can be there -/

namespace Scan

variable {σ : Type} [Symbol σ] {st : Storage σ}

/-- There are symbols of the sort a scanner looks for: some that spell its pattern, as many as its
bounds say, one that its test accepts. -/
def Attainable (st : Storage σ) : Scan → Prop
  | .tag rule pattern => st.Spells rule pattern
  | .take _ => ∃ _ : σ, True
  | .run accepts _ => ∃ s : σ, accepts.holds s = true
  | .bounded min max accepts => min ≤ max ∧ ∃ s : σ, accepts.holds s = true
  | .one accepts _ => ∃ s : σ, accepts.holds s = true
  | .char c => ∃ s : σ, Symbol.standsFor s c = true

end Scan

namespace Judgement

variable {σ : Type} {st : Storage σ} {accepts : σ → Bool} {l : List σ}

theorem verdict_ofRun_of_all {nonempty : Option ErrorKind} (hall : ∀ s ∈ l, accepts s = true)
    (hne : l ≠ []) : (ofRun accepts nonempty l).verdict = .takes l.length := by
  have hlength : l.length ≠ 0 := fun hzero => hne (List.length_eq_zero_iff.1 hzero)
  rw [ofRun, runLength_eq_length_iff.2 hall]
  exact if_neg hlength

/-- A run without another symbol takes all symbols or fails. -/
theorem verdict_ofRun_cases {nonempty : Option ErrorKind} (hall : ∀ s ∈ l, accepts s = true) :
    (ofRun accepts nonempty l).verdict = .takes l.length ∨
      ∃ kind, (ofRun accepts nonempty l).verdict = .refuses kind := by
  by_cases hnil : l = []
  · subst hnil
    cases nonempty with
    | none => exact .inl rfl
    | some kind => exact .inr ⟨kind, rfl⟩
  · exact .inl (verdict_ofRun_of_all hall hnil)

theorem verdict_ofBounded_of_all {min max : Nat} (hall : ∀ s ∈ l, accepts s = true)
    (hmax : l.length ≤ max) :
    (ofBounded min max accepts l).verdict =
      if min ≤ l.length then .takes l.length else .refuses .takeWhileMN := by
  rw [ofBounded, List.take_of_length_le hmax, runLength_eq_length_iff.2 hall]

/-- A test that accepts no symbol ends every run at once. -/
theorem runLength_eq_zero (h : ∀ s, accepts s = false) (l : List σ) : runLength accepts l = 0 := by
  cases l with
  | nil => rfl
  | cons s l => simp [runLength, h s]

/-- Symbols with the bytes of a pattern are taken, all of them. -/
theorem verdict_ofTag_of_map_eq {encode : σ → List UInt8} (hencode : st.encode? = some encode)
    {rule : CaseRule} {pattern : List UInt8}
    (h : (l.flatMap encode).map (Comparison.fold rule) = pattern.map (Comparison.fold rule)) :
    (ofTag st rule pattern l).verdict = .takes l.length := by
  have hlength : (l.flatMap encode).length = st.extent l :=
    st.length_of_bytes? (by simp [Storage.bytes?, hencode])
  have hpattern : st.extent l = pattern.length := by
    have := congrArg List.length h
    rwa [List.length_map, List.length_map, hlength] at this
  have hagree : Comparison.agree rule (l.flatMap encode) pattern = true :=
    (Comparison.agree_iff_prefix (by omega)).2 (h ▸ List.prefix_rfl)
  have hcount : st.countAt pattern.length l = some l.length :=
    st.countAt_eq_some.2 ⟨Nat.le_refl _, by rw [List.take_length, hpattern]⟩
  rw [ofTag_eq hencode, hagree, if_pos rfl, if_neg (by omega), hcount]
  rfl

/-- Where some symbols agree with a pattern so far and others spell it, symbols can follow such that
all are taken. -/
theorem exists_completed_tag [Symbol σ] (hlead : st.LeadTellsWidth) {rule : CaseRule}
    {pattern : List UInt8}
    (hopen : (Scan.tag rule pattern).Undecided st l) (hs : st.Spells rule pattern) :
    ∃ m, m ≠ [] ∧ (ofTag st rule pattern l).verdict = .refuses .tag ∧
      (ofTag st rule pattern (l ++ m)).verdict = .takes (l ++ m).length := by
  obtain ⟨bytes, hbytes, hshort, hprefix⟩ := hopen
  obtain ⟨k, bytes', hbytes', hspelled⟩ := hs
  obtain ⟨encode, hencode, rfl⟩ := Option.map_eq_some_iff.1 hbytes
  rw [Storage.bytes?, hencode] at hbytes'
  cases hbytes'
  rw [← hspelled] at hprefix
  obtain ⟨m, hm⟩ := Storage.exists_completion hlead hencode hprefix
  rw [hspelled] at hm
  refine ⟨m, ?_, ?_, verdict_ofTag_of_map_eq hencode hm⟩
  · rintro rfl
    have := congrArg List.length hm
    rw [List.append_nil, List.length_map, List.length_map] at this
    omega
  · have hlength := st.length_of_bytes? hbytes
    have hagree : Comparison.agree rule (l.flatMap encode) pattern = true :=
      (Comparison.agree_iff_prefix (by omega)).2 (hspelled ▸ hprefix)
    rw [ofTag_eq hencode, hagree, if_pos rfl, if_pos (by omega)]

/-- What is taken of a pattern spells it. -/
theorem spells_of_takes {rule : CaseRule} {pattern : List UInt8} {count : Nat}
    (h : (ofTag st rule pattern l).verdict = .takes count) : st.Spells rule pattern := by
  have hcount := st.countAt_eq_some.1 (countAt_of_ofTag h)
  cases hencode : st.encode? with
  | none =>
    rw [ofTag_eq_of_none hencode] at h
    cases h
  | some encode =>
    rw [ofTag_eq hencode] at h
    cases hagree : Comparison.agree rule (l.flatMap encode) pattern with
    | false => simp [hagree] at h
    | true =>
      have hbytes : st.bytes? (l.take count) = some ((l.take count).flatMap encode) := by
        simp [Storage.bytes?, hencode]
      have hlength := (st.length_of_bytes? hbytes).trans hcount.2
      rw [← List.take_append_drop count l, List.flatMap_append,
        Comparison.agree_append_of_le _ (by omega)] at hagree
      refine ⟨_, _, hbytes, ((Comparison.agree_iff_prefix (by omega)).1 hagree).eq_of_length ?_⟩
      rw [List.length_map, List.length_map, hlength]

end Judgement

namespace Scan

variable {σ : Type} [Symbol σ] {st : Storage σ}

/-- While a scanner is undecided it takes all symbols or none, and symbols can follow such that it
takes those as well. -/
theorem exists_taken (hlead : st.LeadTellsWidth) {s : Scan} {l : List σ}
    (hopen : s.Undecided st l) (hs : s.Attainable st) :
    ∃ m, m ≠ [] ∧
      ((s.judge st l).verdict = .takes l.length ∨ ∃ kind, (s.judge st l).verdict = .refuses kind) ∧
      (s.judge st (l ++ m)).verdict = .takes (l ++ m).length := by
  cases s with
  | tag rule pattern =>
    -- The symbols that complete the pattern.
    obtain ⟨m, hm, hrefused, htaken⟩ := Judgement.exists_completed_tag hlead hopen hs
    exact ⟨m, hm, .inr ⟨.tag, hrefused⟩, htaken⟩
  | take n =>
    -- As many symbols as are missing.
    obtain ⟨x, -⟩ := hs
    have hlt : l.length < n := hopen
    have hlength : (l ++ List.replicate (n - l.length) x).length = n := by
      rw [List.length_append, List.length_replicate]
      omega
    refine ⟨List.replicate (n - l.length) x, ?_, .inr ⟨.eof, ?_⟩, ?_⟩
    · rw [Ne, List.replicate_eq_nil_iff]
      omega
    · rw [judge, Judgement.ofTake, if_neg (by omega)]
    · rw [judge, Judgement.ofTake, hlength, if_pos (Nat.le_refl _)]
  | run accepts nonempty =>
    -- One more accepted symbol.
    obtain ⟨x, hx⟩ := hs
    have hall : ∀ s ∈ l ++ [x], accepts.holds s = true :=
      List.forall_mem_append.2 ⟨hopen, List.forall_mem_singleton.2 hx⟩
    exact ⟨[x], List.cons_ne_nil _ _, Judgement.verdict_ofRun_cases hopen,
      Judgement.verdict_ofRun_of_all hall (by simp)⟩
  | bounded min max accepts =>
    -- As many accepted symbols as are missing up to the upper bound.
    obtain ⟨hbounds, x, hx⟩ := hs
    obtain ⟨hall, hlt⟩ := hopen
    have hlength : (l ++ List.replicate (max - l.length) x).length = max := by
      rw [List.length_append, List.length_replicate]
      omega
    have hall' : ∀ s ∈ l ++ List.replicate (max - l.length) x, accepts.holds s = true :=
      List.forall_mem_append.2 ⟨hall, fun s hs => (List.eq_of_mem_replicate hs) ▸ hx⟩
    refine ⟨List.replicate (max - l.length) x, ?_, ?_, ?_⟩
    · rw [Ne, List.replicate_eq_nil_iff]
      omega
    · rw [judge, Judgement.verdict_ofBounded_of_all hall (by omega)]
      by_cases hmin : min ≤ l.length
      · exact .inl (if_pos hmin)
      · exact .inr ⟨.takeWhileMN, if_neg hmin⟩
    · rw [judge, Judgement.verdict_ofBounded_of_all hall' (by omega)]
      exact if_pos (by omega)
  | one accepts kind =>
    obtain ⟨x, hx⟩ := hs
    obtain rfl : l = [] := hopen
    exact ⟨[x], List.cons_ne_nil _ _, .inr ⟨kind, rfl⟩, by simp [judge, Judgement.ofOne, hx]⟩
  | char c =>
    obtain ⟨x, hx⟩ := hs
    obtain rfl : l = [] := hopen
    exact ⟨[x], List.cons_ne_nil _ _, .inr ⟨.char, rfl⟩, by simp [judge, Judgement.ofOne, hx]⟩

/-- A scanner that looks for what cannot be there treats all inputs alike. -/
theorem extent?_eq_of_not_attainable {s : Scan} (h : ¬ s.Attainable st) (l l' : List σ) :
    (s.judge st l).verdict.extent? st l = (s.judge st l').verdict.extent? st l' := by
  have hnone : ∀ {p : σ → Bool}, (¬ ∃ s, p s = true) → ∀ s, p s = false := by
    intro p hp s
    exact Bool.eq_false_iff.2 fun hs => hp ⟨s, hs⟩
  have halike : (∀ l, (s.judge st l).verdict.extent? st l = none) →
      (s.judge st l).verdict.extent? st l = (s.judge st l').verdict.extent? st l' :=
    fun hrefused => (hrefused l).trans (hrefused l').symm
  cases s with
  | tag rule pattern =>
    refine halike fun l => ?_
    cases hverdict : (judge st (.tag rule pattern) l).verdict with
    | refuses kind => rfl
    | takes count => exact (h (Judgement.spells_of_takes hverdict)).elim
  | take n =>
    have hnil : ∀ l : List σ, l = [] := by
      intro l
      cases l with
      | nil => rfl
      | cons x l => exact (h ⟨x, trivial⟩).elim
    rw [hnil l, hnil l']
  | run accepts nonempty =>
    have hzero := Judgement.runLength_eq_zero (hnone h)
    simp only [judge, Judgement.ofRun, hzero, if_true]
    cases nonempty <;> rfl
  | bounded min max accepts =>
    by_cases hbounds : min ≤ max
    · have hzero := Judgement.runLength_eq_zero (hnone fun hs => h ⟨hbounds, hs⟩)
      simp only [judge, Judgement.ofBounded, hzero]
      split <;> rfl
    · refine halike fun l => ?_
      have hle := Judgement.runLength_le accepts.holds (l.take max)
      rw [List.length_take] at hle
      rw [judge, Judgement.ofBounded]
      simp only
      rw [if_neg (by omega)]
      rfl
  | one accepts kind =>
    refine halike fun l => ?_
    cases l with
    | nil => rfl
    | cons x l => simp [judge, Judgement.ofOne, hnone h x, Verdict.extent?]
  | char c =>
    refine halike fun l => ?_
    cases l with
    | nil => rfl
    | cons x l => simp [judge, Judgement.ofOne, hnone h x, Verdict.extent?]

variable {ι ε : Type} [Input ι σ] [LawfulInput ι σ] [ParseError ε ι]

/-- The answer of a scanner that looks for what cannot be there is open nowhere. -/
theorem not_openAt_of_not_attainable {s : Scan} (h : ¬ s.Attainable (storage ι)) (i : ι) :
    ¬ s.OpenAt ε i := by
  rintro ⟨a, b, ia, ib, ha, hb, hne⟩
  rw [taken?_eq s ha.valid', taken?_eq s hb.valid'] at hne
  exact hne (extent?_eq_of_not_attainable h _ _)

/-- An undecided scanner has an open answer, if it looks for what can be there. -/
theorem openAt_of_undecided [ContinuableInput ι] {s : Scan} {i : ι} (hi : Valid i)
    (hopen : s.Undecided (storage ι) (Input.symbols i)) (hs : s.Attainable (storage ι)) :
    s.OpenAt ε i := by
  obtain ⟨m, hm, hnow, hthen⟩ :=
    exists_taken (ContinuableInput.leadTellsWidth (ι := ι)) hopen hs
  obtain ⟨ia, ha⟩ := ContinuableInput.exists_followed [] hi
  obtain ⟨ib, hb⟩ := ContinuableInput.exists_followed m hi
  refine ⟨[], m, ia, ib, ha, hb, ?_⟩
  rw [taken?_eq s ha.valid', taken?_eq s hb.valid', ha.symbols_eq, hb.symbols_eq, List.append_nil]
  exact Verdict.extent?_ne hm hnow hthen

/-- **A scanner asks for more input only while its answer is open.**  If in streaming mode it asks
on a valid input, and what it looks for can be there at all, then there are two ways to go on with
symbols of the kind on which its complete form takes different lengths or takes nothing on one.
What can be there: every pattern on bytes, the patterns of ASCII characters on ASCII, those that
are the bytes of some text on text; any number of symbols; bounds in the right order; and for a
test, a symbol that it accepts. -/
theorem asks_while_open [ContinuableInput ι] :
    (∀ (s : Scan) (i : ι), Valid i → s.Attainable (storage ι) →
      (s.parser .streaming i : Run ι ε (Value ι σ)).reply = .failure .incomplete →
        s.OpenAt ε i) ∧
    (∀ rule pattern, (storage (List UInt8)).Spells rule pattern) ∧
    (∀ rule pattern, (∀ b ∈ pattern, b.toNat < 128) → (storage (List Ascii)).Spells rule pattern) ∧
    (∀ rule (t : Text) pattern, Input.bytes t = some pattern →
      (storage Text).Spells rule pattern) := by
  refine ⟨fun s i hi hs hask => ?_, Storage.spells_bytes, fun rule _ => Storage.spells_ascii rule,
    ?_⟩
  · exact openAt_of_undecided hi ((incomplete_iff hi s).1 hask) hs
  · intro rule t pattern hpattern
    cases hpattern
    exact Storage.spells_utf8 rule t.chars

/-- The first half of a word in another case, in a window, and one digit of two. -/
theorem asks_while_open_word :
    (Scan.tag .ignored [104, 195, 169]).OpenAt (Cause (Window Text)) (Window.whole ⟨['H']⟩) ∧
    (Scan.bounded 2 3 (.inClass .digit)).OpenAt (Cause (List UInt8)) [49] := by
  have htext := asks_while_open (ι := Window Text) (ε := Cause (Window Text))
  have hbytes := asks_while_open (ι := List UInt8) (ε := Cause (List UInt8))
  refine ⟨htext.1 _ _ (Window.valid_whole trivial) ?_ rfl, hbytes.1 _ _ trivial ?_ rfl⟩
  · exact htext.2.2.2 .ignored ⟨['h', 'é']⟩ _ rfl
  · exact ⟨by decide, 48, rfl⟩

/-- No text begins with half a character. -/
theorem not_spells_half : ¬ (storage Text).Spells .exact [0xC3] := by
  rintro ⟨l, bytes, hbytes, hfold⟩
  cases hbytes
  have hspelled : l.flatMap String.utf8EncodeChar = [0xC3] := by
    simpa [Comparison.fold] using hfold
  cases l with
  | nil => cases hspelled
  | cons c l =>
    obtain ⟨b, tail, hc⟩ := Storage.utf8.exists_encode_eq_cons rfl c
    have hwidth := Storage.leadWidth_eq_length hc
    rw [List.flatMap_cons, hc] at hspelled
    obtain ⟨rfl, hnil⟩ := List.cons.inj hspelled
    rw [(List.append_eq_nil_iff.1 hnil).1] at hwidth
    exact absurd hwidth (by decide)

/-- Two scanners ask for more although nothing that follows makes a difference: one for a pattern
that is half a character of text, and one for three digits or more and two at most. -/
theorem asks_though_settled :
    (((Scan.tag .exact [0xC3]).parser .streaming (⟨[]⟩ : Text) : Run Text (Cause Text) _).reply =
        .failure .incomplete ∧
      ¬ (Scan.tag .exact [0xC3]).OpenAt (Cause Text) (⟨[]⟩ : Text)) ∧
    ((((Scan.bounded 3 2 (.inClass .digit)).parser .streaming (⟨['1']⟩ : Text) :
          Run Text (Cause Text) _).reply = .failure .incomplete ∧
        ¬ (Scan.bounded 3 2 (.inClass .digit)).OpenAt (Cause Text) (⟨['1']⟩ : Text)) ∧
      (Pred.inClass .digit).holds '1' = true ∧ (Pred.inClass .digit).holds 'a' = false) := by
  have hhalf : ¬ (Scan.tag .exact [0xC3]).Attainable (storage Text) := not_spells_half
  have hbounds : ¬ (Scan.bounded 3 2 (.inClass .digit)).Attainable (storage Text) :=
    fun h => absurd h.1 (by decide)
  exact ⟨⟨rfl, not_openAt_of_not_attainable hhalf _⟩,
    ⟨rfl, not_openAt_of_not_attainable hbounds _⟩, by decide, by decide⟩

end Scan

end ParseKit
