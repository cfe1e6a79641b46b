/-
  Scanners as judgements on symbols.

  What a scanner does is decided by the list of symbols in front of it: it
  takes a number of them or refuses, and either stands by that whatever
  follows or would look at more symbols if there were any.  `Scan.parser_eq`
  says that on a lawful input every scanner, in both modes, is the run of its
  judgement; the end of the input matters to a judgement that is not final
  and to no other.
-/
import ParseKit.Expr.Eval
import ParseKit.Proofs.Input.Lawful
import ParseKit.Proofs.Parser.Run
import ParseKit.Proofs.Value.Related

set_option autoImplicit false

namespace ParseKit

open LawfulInput

/-! ## Judgements -/

/-- What a scanner does with the symbols in front of it. -/
inductive Verdict
  | takes (count : Nat)
  | refuses (kind : ErrorKind)
  deriving DecidableEq, Repr

/-- A verdict, and whether it stands whatever symbols follow. -/
structure Judgement where
  verdict : Verdict
  final : Bool
  deriving DecidableEq, Repr

section Run

variable {ι σ ε α β : Type}

theorem Mode.map_atEnd (mode : Mode) (f : α → β) (r : Run ι ε α) :
    (mode.atEnd r).map f = mode.atEnd (r.map f) := by
  cases mode with
  | complete => rfl
  | streaming => rfl

variable [Input ι σ] [LawfulInput ι σ] [ParseError ε ι]

/-- Carries a verdict out; the value is made of the part taken and its symbols. -/
def Verdict.run (value : ι → List σ → α) (i : ι) : Verdict → Run ι ε α
  | .takes count =>
    .success (value (parts count i).1 ((Input.symbols i).take count)) (parts count i).2
  | .refuses kind => .reject i kind

/-- Carries a judgement out.  One that is not final leaves the decision to the mode. -/
def Judgement.run (mode : Mode) (value : ι → List σ → α) (i : ι) (j : Judgement) : Run ι ε α :=
  if j.final then j.verdict.run value i else mode.atEnd (j.verdict.run value i)

@[simp]
theorem Judgement.run_final (mode : Mode) (value : ι → List σ → α) (i : ι) (v : Verdict) :
    ((⟨v, true⟩ : Judgement).run mode value i : Run ι ε α) = v.run value i := rfl

@[simp]
theorem Judgement.run_open (mode : Mode) (value : ι → List σ → α) (i : ι) (v : Verdict) :
    ((⟨v, false⟩ : Judgement).run mode value i : Run ι ε α) = mode.atEnd (v.run value i) := rfl

/-- In complete mode a verdict is carried out whether it is final or not. -/
theorem Judgement.run_complete (value : ι → List σ → α) (i : ι) (j : Judgement) :
    (j.run .complete value i : Run ι ε α) = j.verdict.run value i :=
  ite_self _

/-- Two runs of one judgement are related as those of its verdict are and as requests for more
input are. -/
theorem Judgement.run_related {ι' σ' ε' α' : Type} [Input ι' σ'] [LawfulInput ι' σ']
    [ParseError ε' ι'] {R : Run ι ε α → Run ι' ε' α' → Prop} {j : Judgement}
    {value : ι → List σ → α} {value' : ι' → List σ' → α'} {i : ι} {i' : ι'}
    (hverdict : R (j.verdict.run value i) (j.verdict.run value' i'))
    (hask : R (.failure .incomplete) (.failure .incomplete)) (mode : Mode) :
    R (j.run mode value i) (j.run mode value' i') := by
  unfold run
  split
  · exact hverdict
  · cases mode with
    | complete => exact hverdict
    | streaming => exact hask

theorem Verdict.map_run (f : α → β) (value : ι → List σ → α) (i : ι) (v : Verdict) :
    (v.run value i : Run ι ε α).map f = v.run (fun piece taken => f (value piece taken)) i := by
  cases v with
  | takes count => rfl
  | refuses kind => rfl

theorem Judgement.map_run (mode : Mode) (f : α → β) (value : ι → List σ → α) (i : ι)
    (j : Judgement) :
    (j.run mode value i : Run ι ε α).map f =
      j.run mode (fun piece taken => f (value piece taken)) i := by
  rw [run, run, apply_ite (Run.map f), Mode.map_atEnd, Verdict.map_run]

end Run

/-! ## The judgement of each scanner -/

namespace Judgement

variable {σ : Type}

/-- A literal pattern: undecided while the bytes are a proper beginning of the pattern. -/
def ofTag (st : Storage σ) (rule : CaseRule) (pattern : List UInt8) (l : List σ) : Judgement :=
  match st.bytes? l with
  | none => ⟨.refuses .tag, true⟩
  | some bytes =>
    match Comparison.ofBytes rule bytes pattern with
    | .found length => ⟨((st.countAt length l).map .takes).getD (.refuses .tag), true⟩
    | .tooShort => ⟨.refuses .tag, false⟩
    | .mismatch => ⟨.refuses .tag, true⟩

/-- A number of symbols: undecided while there are fewer. -/
def ofTake (count : Nat) (l : List σ) : Judgement :=
  if count ≤ l.length then ⟨.takes count, true⟩ else ⟨.refuses .eof, false⟩

/-- The number of accepted symbols before the first one that is not. -/
def runLength (accepts : σ → Bool) (l : List σ) : Nat := (l.takeWhile accepts).length

/-- A run of accepted symbols: undecided while there is no other symbol. -/
def ofRun (accepts : σ → Bool) (nonempty : Option ErrorKind) (l : List σ) : Judgement :=
  ⟨if runLength accepts l = 0 then nonempty.elim (.takes 0) .refuses
    else .takes (runLength accepts l), decide (runLength accepts l < l.length)⟩

/-- A bounded run: undecided while there is no other symbol and the bound is not reached. -/
def ofBounded (min max : Nat) (accepts : σ → Bool) (l : List σ) : Judgement :=
  ⟨if min ≤ runLength accepts (l.take max) then .takes (runLength accepts (l.take max))
    else .refuses .takeWhileMN,
    decide (runLength accepts (l.take max) < l.length ∨ max ≤ runLength accepts (l.take max))⟩

/-- One symbol: undecided while there is none. -/
def ofOne (accepts : σ → Bool) (kind : ErrorKind) : List σ → Judgement
  | [] => ⟨.refuses kind, false⟩
  | s :: _ => ⟨if accepts s then .takes 1 else .refuses kind, true⟩

theorem runLength_le (accepts : σ → Bool) (l : List σ) : runLength accepts l ≤ l.length :=
  (List.takeWhile_prefix accepts).length_le

theorem takeWhile_eq_take (accepts : σ → Bool) (l : List σ) :
    l.takeWhile accepts = l.take (runLength accepts l) :=
  List.prefix_iff_eq_take.1 (List.takeWhile_prefix accepts)

end Judgement

/-! ## Scanners carry their judgements out -/

namespace Parser

variable {ι σ ε : Type} [Input ι σ] [LawfulInput ι σ] {i : ι}

theorem cut_extent (hi : Valid i) (count : Nat) :
    cut ((storage ι).extent ((Input.symbols i).take count)) i =
      (Run.success (parts count i).1 (parts count i).2 : Run ι ε ι) := by
  rw [cut, if_pos (isBoundary_take hi count)]
  rfl

theorem cut_length (hi : Valid i) :
    cut (Input.length i) i =
      (Run.success (parts (Input.symbols i).length i).1 (parts (Input.symbols i).length i).2 :
        Run ι ε ι) := by
  have h := cut_extent (ε := ε) hi (Input.symbols i).length
  rwa [List.take_length, ← length_eq hi] at h

theorem position_not (hi : Valid i) (accepts : σ → Bool) :
    Input.position (fun s => !accepts s) i =
      if Judgement.runLength accepts (Input.symbols i) < (Input.symbols i).length
      then some ((storage ι).extent
        ((Input.symbols i).take (Judgement.runLength accepts (Input.symbols i))))
      else none := by
  rw [position_eq _ hi, indexed_eq hi, Indexed.firstOffset_place]
  simp only [Bool.not_not, Nat.zero_add]
  rw [← Judgement.takeWhile_eq_take, Judgement.runLength]

variable [ParseError ε ι]

theorem tag_eq (hi : Valid i) (mode : Mode) (rule : CaseRule) (pattern : List UInt8) :
    (tag mode rule pattern i : Run ι ε ι) =
      (Judgement.ofTag (storage ι) rule pattern (Input.symbols i)).run mode (fun p _ => p) i := by
  unfold tag Input.compare Judgement.ofTag
  rw [bytes_eq hi]
  cases (storage ι).bytes? (Input.symbols i) with
  | none => rfl
  | some bytes =>
    simp only
    cases Comparison.ofBytes rule bytes pattern with
    | tooShort => rfl
    | mismatch => rfl
    | found length =>
      have hboundary := isBoundary_iff_countAt (n := length) hi
      cases hcount : (storage ι).countAt length (Input.symbols i) with
      | none =>
        have hfalse : Input.isBoundary i length = false := by simpa [hcount] using hboundary
        simp only [hcount, hfalse]
        rfl
      | some count =>
        have htrue : Input.isBoundary i length = true := by simpa [hcount] using hboundary
        obtain ⟨-, rfl⟩ := (storage ι).countAt_eq_some.1 hcount
        simp only [hcount, htrue, if_true]
        exact cut_extent hi count

theorem take_eq (hi : Valid i) (mode : Mode) (count : Nat) :
    (take mode count i : Run ι ε ι) =
      (Judgement.ofTake count (Input.symbols i)).run mode (fun p _ => p) i := by
  rw [take, sliceIndex_eq_ite hi, Judgement.ofTake]
  by_cases hcount : count ≤ (Input.symbols i).length
  · simp only [hcount, if_true]
    exact cut_extent hi count
  · simp only [hcount, if_false]
    rfl

theorem takeRun_eq (hi : Valid i) (mode : Mode) (accepts : σ → Bool)
    (nonempty : Option ErrorKind) :
    (takeRun mode accepts nonempty i : Run ι ε ι) =
      (Judgement.ofRun accepts nonempty (Input.symbols i)).run mode (fun p _ => p) i := by
  have hcut := cut_extent (ε := ε) hi (Judgement.runLength accepts (Input.symbols i))
  have hle := Judgement.runLength_le accepts (Input.symbols i)
  unfold takeRun
  rw [position_not hi, Judgement.ofRun]
  by_cases hlt : Judgement.runLength accepts (Input.symbols i) < (Input.symbols i).length
  · -- The run ends at a refused symbol, at offset zero exactly if it is empty.
    simp only [hlt, if_true, decide_true, Judgement.run_final]
    cases hn : Judgement.runLength accepts (Input.symbols i) with
    | zero =>
      rw [hn] at hcut
      cases nonempty with
      | none => exact hcut
      | some kind => rfl
    | succ n =>
      rw [hn] at hcut hlt
      obtain ⟨k, hk⟩ : ∃ k, (storage ι).extent ((Input.symbols i).take (n + 1)) = k + 1 := by
        refine Nat.exists_eq_add_one.2 (Nat.pos_of_ne_zero fun hzero => ?_)
        rcases List.take_eq_nil_iff.1 ((storage ι).extent_eq_zero.1 hzero) with h | h
        · cases h
        · rw [h] at hlt
          cases hlt
      rw [hk] at hcut ⊢
      exact hcut
  · -- The run reaches the end.
    have hall : Judgement.runLength accepts (Input.symbols i) = (Input.symbols i).length := by
      omega
    have hempty : Input.isEmpty i = true ↔ (Input.symbols i).length = 0 := by
      rw [isEmpty_iff hi, List.length_eq_zero_iff]
    simp only [hall, Nat.lt_irrefl, if_false, decide_false, Judgement.run_open]
    rw [cut_length hi]
    cases nonempty with
    | none =>
      refine congrArg mode.atEnd ?_
      split
      · rename_i hzero
        rw [hzero]
        rfl
      · rfl
    | some kind =>
      refine congrArg mode.atEnd ?_
      simp only [hempty]
      split <;> rfl

/-- A bounded run over placed symbols: it takes the accepted symbols among the first ones. -/
theorem boundedRun_place (st : Storage σ) (accepts : σ → Bool) (rest taken offset : Nat)
    (l : List σ) :
    Indexed.boundedRun (taken + rest) accepts taken (st.place offset l) =
      (if Judgement.runLength accepts (l.take rest) < l.length
        then some (offset + st.extent (l.take (Judgement.runLength accepts (l.take rest))))
        else none,
      taken + Judgement.runLength accepts (l.take rest)) := by
  induction l generalizing rest taken offset with
  | nil => simp [Storage.place, Indexed.boundedRun, Judgement.runLength]
  | cons s l ih =>
    rw [Storage.place, Indexed.boundedRun]
    cases rest with
    | zero => simp [Judgement.runLength]
    | succ rest =>
      by_cases hs : accepts s = true
      · have hne : (taken == taken + (rest + 1)) = false := by simp
        have h := ih rest (taken + 1) (offset + st.width s)
        rw [Nat.add_right_comm] at h
        simp only [hne, hs, Bool.not_true, Bool.or_self, Bool.false_eq_true, if_false]
        rw [← Nat.add_assoc, h]
        simp [Judgement.runLength, hs, Nat.add_assoc, Nat.add_comm 1]
      · simp [Judgement.runLength, hs]

theorem takeBounded_eq (hi : Valid i) (mode : Mode) (min max : Nat) (accepts : σ → Bool) :
    (takeBounded mode min max accepts i : Run ι ε ι) =
      (Judgement.ofBounded min max accepts (Input.symbols i)).run mode (fun p _ => p) i := by
  have hrun := boundedRun_place (storage ι) accepts max 0 0 (Input.symbols i)
  simp only [Nat.zero_add, ← indexed_eq hi] at hrun
  have hcut := cut_extent (ε := ε) hi (Judgement.runLength accepts ((Input.symbols i).take max))
  have hle := Judgement.runLength_le accepts ((Input.symbols i).take max)
  rw [List.length_take] at hle
  unfold takeBounded
  rw [hrun, Judgement.ofBounded]
  by_cases hlt : Judgement.runLength accepts ((Input.symbols i).take max) <
      (Input.symbols i).length
  · simp only [hlt, if_true, true_or, decide_true, Judgement.run_final, hcut]
    split <;> rfl
  · have hall : Judgement.runLength accepts ((Input.symbols i).take max) =
        (Input.symbols i).length := by omega
    rw [hall] at hcut
    simp only [hall, Nat.lt_irrefl, if_false, false_or, cut_length hi]
    by_cases hmax : (Input.symbols i).length < max
    · simp only [hmax, if_true, Nat.not_le.2 hmax, decide_false, Judgement.run_open]
      split <;> rfl
    · simp only [hmax, if_false, Nat.le_of_not_lt hmax, decide_true, Judgement.run_final]
      split <;> rfl

/-- A single symbol with what is made of it; `value` makes the same of a part of one symbol. -/
theorem map_one_eq {α : Type} (hi : Valid i) (mode : Mode) (accepts : σ → Bool)
    (kind : ErrorKind) (f : σ → α) (value : ι → List σ → α) (hvalue : ∀ p s, value p [s] = f s) :
    (one mode accepts kind i : Run ι ε σ).map f =
      (Judgement.ofOne accepts kind (Input.symbols i)).run mode value i := by
  have hcut := cut_extent (ε := ε) hi 1
  have hlength := length_eq hi
  unfold one
  rw [indexed_eq hi]
  cases hsymbols : Input.symbols i with
  | nil => exact Mode.map_atEnd mode f _
  | cons s rest =>
    rw [hsymbols] at hcut hlength
    simp only [Storage.place, Judgement.ofOne, Judgement.run_final, Nat.zero_add]
    split
    · have hoffset : (((storage ι).place ((storage ι).width s) rest).head?.map Prod.fst).getD
          (Input.length i) = (storage ι).extent [s] := by
        cases rest with
        | nil => exact hlength
        | cons t rest => rfl
      rw [hoffset]
      simp only [List.take_succ_cons, List.take_zero] at hcut
      rw [hcut, Verdict.run, hsymbols]
      simp only [List.take_succ_cons, List.take_zero, hvalue]
      rfl
    · rfl

end Parser

/-! ## The judgement of a scanner -/

namespace Scan

variable {ι σ ε : Type} [Symbol σ]

/-- The judgement of a scanner on the symbols in front of it. -/
def judge (st : Storage σ) : Scan → List σ → Judgement
  | .tag rule pattern, l => .ofTag st rule pattern l
  | .take count, l => .ofTake count l
  | .run accepts nonempty, l => .ofRun accepts.holds nonempty l
  | .bounded min max accepts, l => .ofBounded min max accepts.holds l
  | .one accepts kind, l => .ofOne accepts.holds kind l
  | .char c, l => .ofOne (fun s => Symbol.standsFor s c) .char l

/-- The value a scanner makes of the part it takes and the symbols of the part. -/
def value : Scan → ι → List σ → Value ι σ
  | .one _ _, _, s :: _ => .symbol s
  | .char c, _, s :: _ => .char ((Symbol.char? s).getD c)
  | _, piece, _ => .piece piece

/-- A scanner makes related values of related pieces and symbols. -/
theorem value_related {ι' σ' : Type} [Symbol σ'] {P : ι → ι' → Prop} {S : σ → σ' → Prop}
    (hchar : ∀ {a a'}, S a a' → Symbol.char? a = Symbol.char? a') (s : Scan) {p : ι} {p' : ι'}
    (hp : P p p') {l : List σ} {l' : List σ'} (hl : List.Forall₂ S l l') :
    Value.Related P S (s.value p l) (s.value p' l') := by
  cases s with
  | one accepts kind =>
    cases hl with
    | nil => exact .piece hp
    | cons ha _ => exact .symbol ha
  | char c =>
    cases hl with
    | nil => exact .piece hp
    | cons ha _ =>
      simp only [value, hchar ha]
      exact .char _
  | _ => exact .piece hp

variable [Input ι σ] [LawfulInput ι σ] [ParseError ε ι]

/-- On a valid input a scanner carries its judgement out. -/
theorem parser_eq {i : ι} (hi : Valid i) (mode : Mode) (s : Scan) :
    (s.parser mode i : Run ι ε (Value ι σ)) =
      (s.judge (storage ι) (Input.symbols i)).run mode s.value i := by
  cases s with
  | tag rule pattern =>
    exact (congrArg (Run.map Value.piece) (Parser.tag_eq hi mode rule pattern)).trans
      (Judgement.map_run ..)
  | take count =>
    exact (congrArg (Run.map Value.piece) (Parser.take_eq hi mode count)).trans
      (Judgement.map_run ..)
  | run accepts nonempty =>
    exact (congrArg (Run.map Value.piece) (Parser.takeRun_eq hi mode _ nonempty)).trans
      (Judgement.map_run ..)
  | bounded min max accepts =>
    exact (congrArg (Run.map Value.piece) (Parser.takeBounded_eq hi mode min max _)).trans
      (Judgement.map_run ..)
  | one accepts kind =>
    exact Parser.map_one_eq hi mode _ kind _ (Scan.value (.one accepts kind)) fun _ _ => rfl
  | char c =>
    refine (Run.map_map ..).trans ?_
    exact Parser.map_one_eq hi mode _ .char _ (Scan.value (.char c)) fun _ _ => rfl

end Scan

end ParseKit
