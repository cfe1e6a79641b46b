/-
  When a judgement is final.

  A final judgement stays the same whatever symbols follow (`judge_append`).
  The judgements that are not final are those of `Undecided`, where the
  symbols run out before the question does (`final_eq_false_iff`).  A symbol
  that a scanner refuses ends the question: put behind the others it makes
  the judgement final and leaves the verdict alone (`judge_marker`).
-/
import ParseKit.Proofs.Scan.Judgement

set_option autoImplicit false

namespace ParseKit

/-! ## Byte patterns -/

namespace Comparison

/-- A byte as it counts in a comparison. -/
def fold : CaseRule → UInt8 → UInt8
  | .exact, b => b
  | .ignored, b => lowerByte b

theorem sameByte_iff {rule : CaseRule} {a b : UInt8} :
    sameByte rule a b = true ↔ fold rule a = fold rule b := by
  cases rule <;> simp [sameByte, fold]

/-- Whether two byte strings agree as far as both go. -/
def agree (rule : CaseRule) (input pattern : List UInt8) : Bool :=
  (input.zip pattern).all fun pair => sameByte rule pair.1 pair.2

theorem ofBytes_eq (rule : CaseRule) (input pattern : List UInt8) :
    ofBytes rule input pattern =
      if agree rule input pattern then
        if input.length < pattern.length then .tooShort else .found pattern.length
      else .mismatch := by
  rw [ofBytes, agree]
  cases (input.zip pattern).all fun pair => sameByte rule pair.1 pair.2 <;> rfl

theorem agree_append_of_le {rule : CaseRule} {input pattern : List UInt8} (more : List UInt8)
    (hle : pattern.length ≤ input.length) :
    agree rule (input ++ more) pattern = agree rule input pattern := by
  induction pattern generalizing input with
  | nil => simp [agree]
  | cons b pattern ih =>
    cases input with
    | nil => simp at hle
    | cons a input =>
      have h := ih (Nat.le_of_succ_le_succ hle)
      simp only [agree, List.cons_append, List.zip_cons_cons, List.all_cons] at h ⊢
      rw [h]

theorem agree_append {rule : CaseRule} {input pattern more : List UInt8}
    (h : agree rule (input ++ more) pattern = true) : agree rule input pattern = true := by
  induction input generalizing pattern with
  | nil => rfl
  | cons a input ih =>
    cases pattern with
    | nil => rfl
    | cons b pattern =>
      simp only [agree, List.cons_append, List.zip_cons_cons, List.all_cons,
        Bool.and_eq_true] at h ⊢
      exact ⟨h.1, ih h.2⟩

/-- Two strings that agree, the first one the shorter, are a beginning and a whole. -/
theorem agree_iff_prefix {rule : CaseRule} {input pattern : List UInt8}
    (hle : input.length ≤ pattern.length) :
    agree rule input pattern = true ↔ input.map (fold rule) <+: pattern.map (fold rule) := by
  induction input generalizing pattern with
  | nil => simp [agree]
  | cons a input ih =>
    cases pattern with
    | nil => simp at hle
    | cons b pattern =>
      have h := ih (Nat.le_of_succ_le_succ hle)
      simp only [agree, List.zip_cons_cons, List.all_cons, Bool.and_eq_true, sameByte_iff,
        List.map_cons, List.cons_prefix_cons] at h ⊢
      rw [h]

/-- A byte that is none of the pattern's ends the agreement with what goes on. -/
theorem agree_append_refused {rule : CaseRule} {input pattern more : List UInt8} {b : UInt8}
    (hlt : input.length < pattern.length) (hb : ∀ b' ∈ pattern, sameByte rule b b' = false) :
    agree rule (input ++ b :: more) pattern = false := by
  induction input generalizing pattern with
  | nil =>
    cases pattern with
    | nil => simp at hlt
    | cons b' pattern => simp [agree, hb b' List.mem_cons_self]
  | cons a input ih =>
    cases pattern with
    | nil => simp at hlt
    | cons b' pattern =>
      have h := ih (Nat.lt_of_succ_lt_succ hlt) fun c hc => hb c (List.mem_cons_of_mem _ hc)
      simp only [agree, List.cons_append, List.zip_cons_cons, List.all_cons] at h ⊢
      rw [h, Bool.and_false]

end Comparison

namespace Storage

variable {σ : Type} (st : Storage σ)

/-- More symbols do not change a count within the ones that are there. -/
theorem countAt_append {n : Nat} {l : List σ} (m : List σ) (h : n ≤ st.extent l) :
    st.countAt n (l ++ m) = st.countAt n l := by
  fun_induction countAt st n l with
  | case1 l => rw [countAt]
  | case2 n => simp at h
  | case3 n s rest hwidth ih =>
    rw [extent_cons] at h
    rw [List.cons_append, countAt, if_pos hwidth, ih (by omega)]
  | case4 n s rest hwidth => rw [List.cons_append, countAt, if_neg hwidth]

end Storage

/-! ## Runs -/

namespace Judgement

variable {σ : Type} {accepts : σ → Bool} {l : List σ}

theorem runLength_append (m : List σ) (h : runLength accepts l < l.length) :
    runLength accepts (l ++ m) = runLength accepts l := by
  unfold runLength at h ⊢
  rw [List.takeWhile_append, if_neg (Nat.ne_of_lt h)]

theorem runLength_append_refused {z : σ} (hz : accepts z = false) :
    runLength accepts (l ++ [z]) = runLength accepts l := by
  rw [runLength, List.takeWhile_append]
  split
  · rename_i h
    simp [hz, runLength, h]
  · rfl

theorem runLength_eq_length_iff : runLength accepts l = l.length ↔ ∀ s ∈ l, accepts s = true := by
  induction l with
  | nil => simp [runLength]
  | cons s l ih =>
    by_cases hs : accepts s = true <;> simp_all [runLength]

theorem ofTag_eq {st : Storage σ} {encode : σ → List UInt8} (hencode : st.encode? = some encode)
    (rule : CaseRule) (pattern : List UInt8) (l : List σ) :
    ofTag st rule pattern l =
      if Comparison.agree rule (l.flatMap encode) pattern then
        if st.extent l < pattern.length then ⟨.refuses .tag, false⟩
        else ⟨((st.countAt pattern.length l).map .takes).getD (.refuses .tag), true⟩
      else ⟨.refuses .tag, true⟩ := by
  have hbytes : st.bytes? l = some (l.flatMap encode) := by simp [Storage.bytes?, hencode]
  simp only [ofTag, hbytes, Comparison.ofBytes_eq, st.length_of_bytes? hbytes]
  cases Comparison.agree rule (l.flatMap encode) pattern with
  | false => rfl
  | true =>
    by_cases hshort : st.extent l < pattern.length
    · simp only [hshort, if_true]
    · simp only [hshort, if_true, if_false]

theorem ofTag_eq_of_none {st : Storage σ} (hencode : st.encode? = none) (rule : CaseRule)
    (pattern : List UInt8) (l : List σ) : ofTag st rule pattern l = ⟨.refuses .tag, true⟩ := by
  simp [ofTag, Storage.bytes?, hencode]

/-- The verdict on a literal pattern stands once the bytes differ from it or cover it. -/
theorem ofTag_append {st : Storage σ} {rule : CaseRule} {pattern : List UInt8} (m : List σ)
    (h : (ofTag st rule pattern l).final = true) :
    ofTag st rule pattern (l ++ m) = ofTag st rule pattern l := by
  cases hencode : st.encode? with
  | none => rw [ofTag_eq_of_none hencode, ofTag_eq_of_none hencode]
  | some encode =>
    have hlength : (l.flatMap encode).length = st.extent l :=
      st.length_of_bytes? (by simp [Storage.bytes?, hencode])
    rw [ofTag_eq hencode] at h
    rw [ofTag_eq hencode, ofTag_eq hencode, List.flatMap_append, st.extent_append]
    by_cases hshort : st.extent l < pattern.length
    · -- What is there is too short to match, so only a difference can be final.
      cases hagree : Comparison.agree rule (l.flatMap encode) pattern with
      | true => simp [hagree, hshort] at h
      | false =>
        cases hagree' : Comparison.agree rule (l.flatMap encode ++ m.flatMap encode) pattern with
        | true =>
          rw [Comparison.agree_append hagree'] at hagree
          cases hagree
        | false => rfl
    · have hshort' : ¬ st.extent l + st.extent m < pattern.length := by omega
      rw [if_neg hshort, if_neg hshort', Comparison.agree_append_of_le _ (by omega),
        st.countAt_append m (by omega)]

/-- The verdict on a bounded run stands once another symbol or the bound is reached. -/
theorem ofBounded_append {min max : Nat} (m : List σ)
    (h : (ofBounded min max accepts l).final = true) :
    ofBounded min max accepts (l ++ m) = ofBounded min max accepts l := by
  simp only [ofBounded, decide_eq_true_eq] at h
  have hrun : runLength accepts ((l ++ m).take max) = runLength accepts (l.take max) := by
    by_cases hmax : max ≤ l.length
    · rw [List.take_append_of_le_length hmax]
    · have hall : l.take max = l := List.take_of_length_le (by omega)
      have hle := runLength_le accepts l
      rw [hall] at h
      rw [hall, List.take_append, hall, runLength_append _ (by omega)]
  have hfinal : runLength accepts (l.take max) < (l ++ m).length ∨
      max ≤ runLength accepts (l.take max) := by
    rw [List.length_append]
    omega
  simp only [ofBounded, hrun, decide_eq_true h, decide_eq_true hfinal]

/-- What is taken of a literal pattern is as long as the pattern. -/
theorem countAt_of_ofTag {st : Storage σ} {rule : CaseRule} {pattern : List UInt8} {count : Nat}
    (h : (ofTag st rule pattern l).verdict = .takes count) :
    st.countAt pattern.length l = some count := by
  cases hencode : st.encode? with
  | none =>
    rw [ofTag_eq_of_none hencode] at h
    cases h
  | some encode =>
    rw [ofTag_eq hencode] at h
    split at h
    · split at h
      · cases h
      · cases hcount : st.countAt pattern.length l with
        | none => simp [hcount] at h
        | some n => simpa [hcount] using h
    · cases h

/-- One symbol is taken, and it is there. -/
theorem count_of_ofOne {kind : ErrorKind} {count : Nat}
    (h : (ofOne accepts kind l).verdict = .takes count) : count = 1 ∧ count ≤ l.length := by
  cases l with
  | nil => cases h
  | cons s l =>
    simp only [ofOne] at h
    split at h
    · cases h
      simp
    · cases h

theorem final_ofTag_eq_false_iff {st : Storage σ} {rule : CaseRule} {pattern : List UInt8} :
    (ofTag st rule pattern l).final = false ↔
      ∃ bytes, st.bytes? l = some bytes ∧ bytes.length < pattern.length ∧
        bytes.map (Comparison.fold rule) <+: pattern.map (Comparison.fold rule) := by
  cases hencode : st.encode? with
  | none => simp [ofTag_eq_of_none hencode, Storage.bytes?, hencode]
  | some encode =>
    have hbytes : st.bytes? l = some (l.flatMap encode) := by simp [Storage.bytes?, hencode]
    have hlength := st.length_of_bytes? hbytes
    rw [ofTag_eq hencode, hbytes]
    simp only [Option.some.injEq, exists_eq_left', hlength]
    by_cases hshort : st.extent l < pattern.length
    · rw [← Comparison.agree_iff_prefix (by omega)]
      cases Comparison.agree rule (l.flatMap encode) pattern <;> simp [hshort]
    · split <;> simp [hshort]

theorem ofTag_marker {st : Storage σ} {rule : CaseRule} {pattern : List UInt8} {z : σ}
    (hz : ∀ encode, st.encode? = some encode →
      ∀ b ∈ encode z, ∀ b' ∈ pattern, Comparison.sameByte rule b b' = false) :
    ofTag st rule pattern (l ++ [z]) = ⟨(ofTag st rule pattern l).verdict, true⟩ := by
  cases hencode : st.encode? with
  | none => rw [ofTag_eq_of_none hencode, ofTag_eq_of_none hencode]
  | some encode =>
    by_cases hfinal : (ofTag st rule pattern l).final = true
    · rw [ofTag_append [z] hfinal, ← hfinal]
    · have hlength : (l.flatMap encode).length = st.extent l :=
        st.length_of_bytes? (by simp [Storage.bytes?, hencode])
      obtain ⟨b, more, hb⟩ : ∃ b more, encode z = b :: more := by
        refine List.exists_cons_of_ne_nil fun hnil => ?_
        have hpos := st.width_pos z
        rw [← st.length_encode hencode, hnil] at hpos
        cases hpos
      have hrefused : ∀ b' ∈ pattern, Comparison.sameByte rule b b' = false :=
        hz encode hencode b (by simp [hb])
      rw [ofTag_eq hencode] at hfinal ⊢
      rw [ofTag_eq hencode]
      cases hagree : Comparison.agree rule (l.flatMap encode) pattern with
      | false => simp [hagree] at hfinal
      | true =>
        by_cases hshort : st.extent l < pattern.length
        · -- The pattern would go on with a byte of the marker.
          have hend : Comparison.agree rule (l.flatMap encode ++ b :: more) pattern = false :=
            Comparison.agree_append_refused (by omega) hrefused
          simp [hb, hend, hshort]
        · simp [hagree, hshort] at hfinal

theorem ofBounded_marker {min max : Nat} {z : σ} (hz : accepts z = false) :
    ofBounded min max accepts (l ++ [z]) = ⟨(ofBounded min max accepts l).verdict, true⟩ := by
  by_cases hfinal : (ofBounded min max accepts l).final = true
  · rw [ofBounded_append [z] hfinal, ← hfinal]
  · simp only [ofBounded, decide_eq_true_eq, not_or, Nat.not_lt, Nat.not_le] at hfinal
    have hle := runLength_le accepts (l.take max)
    rw [List.length_take] at hle
    have hall : l.take max = l := List.take_of_length_le (by omega)
    have hall' : (l ++ [z]).take max = l ++ [z] :=
      List.take_of_length_le (by rw [List.length_append, List.length_singleton]; omega)
    rw [hall] at hfinal
    have hlt : runLength accepts l < (l ++ [z]).length := by
      rw [List.length_append, List.length_singleton]
      exact Nat.lt_succ_of_le (runLength_le accepts l)
    simp only [ofBounded, hall, hall', runLength_append_refused hz, hlt, true_or, decide_true]

theorem ofOne_marker {kind : ErrorKind} {z : σ} (hz : accepts z = false) :
    ofOne accepts kind (l ++ [z]) = ⟨(ofOne accepts kind l).verdict, true⟩ := by
  cases l with
  | nil => simp [ofOne, hz]
  | cons s l => rfl

end Judgement

/-! ## Finality of judgements -/

namespace Scan

variable {σ : Type} [Symbol σ]

/-- A scanner takes only symbols that are there. -/
theorem le_length_of_takes {st : Storage σ} {s : Scan} {l : List σ} {count : Nat}
    (h : (s.judge st l).verdict = .takes count) : count ≤ l.length := by
  cases s with
  | tag rule pattern => exact (st.countAt_eq_some.1 (Judgement.countAt_of_ofTag h)).1
  | take n =>
    simp only [judge, Judgement.ofTake] at h
    split at h
    · rename_i hle
      cases h
      exact hle
    · cases h
  | run accepts nonempty =>
    have hle := Judgement.runLength_le accepts.holds l
    simp only [judge, Judgement.ofRun] at h
    split at h
    · cases nonempty with
      | none =>
        cases h
        exact Nat.zero_le _
      | some kind => cases h
    · cases h
      exact hle
  | bounded min max accepts =>
    have hle := Judgement.runLength_le accepts.holds (l.take max)
    rw [List.length_take] at hle
    simp only [judge, Judgement.ofBounded] at h
    split at h
    · cases h
      omega
    · cases h
  | one accepts kind => exact (Judgement.count_of_ofOne h).2
  | char c => exact (Judgement.count_of_ofOne h).2

/-- A scanner that does not succeed with nothing. -/
def Nonempty : Scan → Prop
  | .tag _ pattern => pattern ≠ []
  | .take count => 0 < count
  | .run _ nonempty => nonempty.isSome
  | .bounded min _ _ => 0 < min
  | .one _ _ | .char _ => True

theorem Nonempty.pos_of_takes {st : Storage σ} {s : Scan} (hs : s.Nonempty) {l : List σ}
    {count : Nat} (h : (s.judge st l).verdict = .takes count) : 0 < count := by
  cases s with
  | tag rule pattern =>
    obtain ⟨-, hextent⟩ := st.countAt_eq_some.1 (Judgement.countAt_of_ofTag h)
    have hpos : 0 < pattern.length := List.length_pos_of_ne_nil hs
    refine Nat.pos_of_ne_zero fun hzero => ?_
    rw [hzero, List.take_zero, st.extent_nil] at hextent
    omega
  | take n =>
    simp only [judge, Judgement.ofTake] at h
    split at h
    · cases h
      exact hs
    · cases h
  | run accepts nonempty =>
    obtain ⟨kind, rfl⟩ := Option.isSome_iff_exists.1 hs
    simp only [judge, Judgement.ofRun] at h
    split at h
    · cases h
    · cases h
      omega
  | bounded min max accepts =>
    simp only [judge, Judgement.ofBounded] at h
    split at h
    · rename_i hle
      cases h
      exact Nat.lt_of_lt_of_le hs hle
    · cases h
  | one accepts kind => exact Nat.lt_of_lt_of_eq Nat.one_pos (Judgement.count_of_ofOne h).1.symm
  | char c => exact Nat.lt_of_lt_of_eq Nat.one_pos (Judgement.count_of_ofOne h).1.symm

/-- A final judgement stands whatever follows. -/
theorem judge_append {st : Storage σ} {s : Scan} {l : List σ} (m : List σ)
    (h : (s.judge st l).final = true) : s.judge st (l ++ m) = s.judge st l := by
  cases s with
  | tag rule pattern => exact Judgement.ofTag_append m h
  | take n =>
    simp only [judge, Judgement.ofTake] at h ⊢
    by_cases hle : n ≤ l.length
    · rw [if_pos hle, if_pos (by rw [List.length_append]; omega)]
    · rw [if_neg hle] at h
      cases h
  | run accepts nonempty =>
    simp only [judge, Judgement.ofRun, decide_eq_true_eq] at h ⊢
    have hlt : Judgement.runLength accepts.holds l < (l ++ m).length := by
      rw [List.length_append]
      omega
    rw [Judgement.runLength_append m h, decide_eq_true h, decide_eq_true hlt]
  | bounded min max accepts => exact Judgement.ofBounded_append m h
  | one accepts kind =>
    cases l with
    | nil => cases h
    | cons t l => rfl
  | char c =>
    cases l with
    | nil => cases h
    | cons t l => rfl

/-! ## Open judgements -/

/-- The symbols run out before a scanner has seen enough: they are a proper beginning of its
pattern, fewer than it takes, or accepted all of them. -/
def Undecided (st : Storage σ) : Scan → List σ → Prop
  | .tag rule pattern, l => ∃ bytes, st.bytes? l = some bytes ∧
    bytes.length < pattern.length ∧
      bytes.map (Comparison.fold rule) <+: pattern.map (Comparison.fold rule)
  | .take count, l => l.length < count
  | .run accepts _, l => ∀ s ∈ l, accepts.holds s = true
  | .bounded _ max accepts, l => (∀ s ∈ l, accepts.holds s = true) ∧ l.length < max
  | .one _ _, l => l = []
  | .char _, l => l = []

theorem final_eq_false_iff {st : Storage σ} {s : Scan} {l : List σ} :
    (s.judge st l).final = false ↔ s.Undecided st l := by
  cases s with
  | tag rule pattern => exact Judgement.final_ofTag_eq_false_iff
  | take n =>
    simp only [judge, Judgement.ofTake, Undecided]
    split <;> simp <;> omega
  | run accepts nonempty =>
    have hle := Judgement.runLength_le accepts.holds l
    simp only [judge, Judgement.ofRun, Undecided, decide_eq_false_iff_not,
      ← Judgement.runLength_eq_length_iff]
    omega
  | bounded min max accepts =>
    have hle := Judgement.runLength_le accepts.holds (l.take max)
    simp only [judge, Judgement.ofBounded, Undecided, decide_eq_false_iff_not, not_or, Nat.not_lt,
      Nat.not_le, ← Judgement.runLength_eq_length_iff]
    by_cases hmax : max ≤ l.length
    · rw [List.length_take] at hle
      omega
    · rw [List.take_of_length_le (by omega)] at hle ⊢
      omega
  | one accepts kind => cases l <;> simp [judge, Judgement.ofOne, Undecided]
  | char c => cases l <;> simp [judge, Judgement.ofOne, Undecided]

/-! ## End markers -/

/-- A symbol that a scanner neither takes nor counts on: no byte of it is in the pattern, and it
is not accepted. -/
def Refuses (st : Storage σ) (z : σ) : Scan → Prop
  | .tag rule pattern => ∀ encode, st.encode? = some encode →
    ∀ b ∈ encode z, ∀ b' ∈ pattern, Comparison.sameByte rule b b' = false
  | .take _ => False
  | .run accepts _ => accepts.holds z = false
  | .bounded _ _ accepts => accepts.holds z = false
  | .one accepts _ => accepts.holds z = false
  | .char c => Symbol.standsFor z c = false

/-- A refused symbol behind the others settles a judgement on its verdict. -/
theorem judge_marker {st : Storage σ} {s : Scan} {z : σ} (hz : s.Refuses st z) (l : List σ) :
    s.judge st (l ++ [z]) = ⟨(s.judge st l).verdict, true⟩ := by
  cases s with
  | tag rule pattern => exact Judgement.ofTag_marker hz
  | take n => exact hz.elim
  | run accepts nonempty =>
    have hle := Judgement.runLength_le accepts.holds l
    have hlt : Judgement.runLength accepts.holds l < (l ++ [z]).length := by
      rw [List.length_append, List.length_singleton]
      omega
    simp only [judge, Judgement.ofRun, Judgement.runLength_append_refused hz, decide_eq_true hlt]
  | bounded min max accepts => exact Judgement.ofBounded_marker hz
  | one accepts kind => exact Judgement.ofOne_marker hz
  | char c => exact Judgement.ofOne_marker hz

end Scan

end ParseKit
