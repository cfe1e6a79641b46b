/-
  What scanners take.

  A scanner for runs takes the longest run of accepted symbols at the head of
  its input, a bounded one no more of it than the upper bound says, and `take`
  so many symbols whatever they are.  Symbols are counted, but an input is
  split at an offset: the sum of the widths of the symbols taken.
-/
import Mathlib.Logic.ExistsUnique
import ParseKit.Proofs.Input.Laws
import ParseKit.Proofs.Scan.Judgement

set_option autoImplicit false

namespace ParseKit

open LawfulInput

/-! ## Longest runs -/

namespace Judgement

variable {σ : Type} {accepts : σ → Bool} {l : List σ}

/-- The first `m` symbols are all accepted, and no more than these are from the first one on. -/
structure LongestRun (accepts : σ → Bool) (l : List σ) (m : Nat) : Prop where
  le_length : m ≤ l.length
  accepted : ∀ s ∈ l.take m, accepts s = true
  longest : ∀ k ≤ l.length, (∀ s ∈ l.take k, accepts s = true) → k ≤ m

theorem longestRun_runLength (accepts : σ → Bool) (l : List σ) :
    LongestRun accepts l (runLength accepts l) where
  le_length := runLength_le accepts l
  accepted s hs := by
    rw [← takeWhile_eq_take] at hs
    exact List.all_eq_true.1 List.all_takeWhile s hs
  longest k hk hall := by
    have happ : (l.take k ++ l.drop k).takeWhile accepts =
        l.take k ++ (l.drop k).takeWhile accepts := List.takeWhile_append_of_pos hall
    rw [List.take_append_drop] at happ
    rw [runLength, happ, List.length_append, List.length_take, Nat.min_eq_left hk]
    exact Nat.le_add_right ..

/-- A longest run ends in front of a symbol that is not accepted. -/
theorem LongestRun.refused {m : Nat} (h : LongestRun accepts l m) {s : σ}
    (hs : (l.drop m).head? = some s) : accepts s = false := by
  rw [List.head?_drop] at hs
  obtain ⟨hlt, -⟩ := List.getElem?_eq_some_iff.1 hs
  refine Bool.eq_false_iff.2 fun haccepts => Nat.not_succ_le_self m (h.longest (m + 1) hlt ?_)
  intro t ht
  rw [List.take_add_one, hs, List.mem_append] at ht
  rcases ht with ht | ht
  · exact h.accepted t ht
  · obtain rfl : t = s := by simpa using ht
    exact haccepts

/-- There is one longest run, and its length is what the scanners find. -/
theorem longestRun_iff {m : Nat} : LongestRun accepts l m ↔ m = runLength accepts l := by
  have hrun := longestRun_runLength accepts l
  constructor
  · intro h
    exact Nat.le_antisymm (hrun.longest m h.le_length h.accepted)
      (h.longest _ hrun.le_length hrun.accepted)
  · rintro rfl
    exact hrun

/-- Among the first symbols the run is as long as among all, or it is all of them. -/
theorem runLength_take (accepts : σ → Bool) (max : Nat) (l : List σ) :
    runLength accepts (l.take max) = Nat.min (runLength accepts l) max := by
  induction l generalizing max with
  | nil => simp [runLength]
  | cons s l ih =>
    cases max with
    | zero => simp [runLength]
    | succ max =>
      have h := ih max
      unfold runLength at h ⊢
      rw [List.take_succ_cons]
      by_cases hs : accepts s = true
      · simp only [List.takeWhile_cons, hs, if_true, List.length_cons, h]
        exact (Nat.succ_min_succ ..).symm
      · simp [hs]

end Judgement

/-! ## Taking symbols -/

section

variable {ι σ ε : Type} [Input ι σ] [LawfulInput ι σ] {i : ι} {count : Nat}

/-- The offset behind the first symbols of an input: the sum of their widths. -/
def offsetBehind (count : Nat) (i : ι) : Nat :=
  (((Input.symbols i).take count).map (storage ι).width).sum

/-- A run takes the first symbols of its input, so many of them: it splits the input behind them,
returns the part that shows just these symbols and leaves the part that shows all others. -/
structure Run.Takes (count : Nat) (i : ι) (run : Run ι ε ι) : Prop where
  enough : count ≤ (Input.symbols i).length
  isBoundary : Input.isBoundary i (offsetBehind count i) = true
  run_eq : run = .success (Input.splitAt i (offsetBehind count i)).1
    (Input.splitAt i (offsetBehind count i)).2
  taken : Input.symbols (Input.splitAt i (offsetBehind count i)).1 = (Input.symbols i).take count
  left : Input.symbols (Input.splitAt i (offsetBehind count i)).2 = (Input.symbols i).drop count

/-- To split off some of the symbols is to take them. -/
theorem Run.takes_parts (hi : Valid i) (hcount : count ≤ (Input.symbols i).length) :
    Run.Takes count i (.success (parts count i).1 (parts count i).2 : Run ι ε ι) := by
  have hoffset : offsetBehind count i = (storage ι).extent ((Input.symbols i).take count) :=
    ((storage ι).extent_eq_sum _).symm
  have hsymbols := symbols_parts hi count
  unfold parts at hsymbols ⊢
  rw [← hoffset] at hsymbols ⊢
  exact ⟨hcount, hoffset ▸ isBoundary_take hi count, rfl, hsymbols.1, hsymbols.2⟩

end

/-! ## The scanners for runs -/

/-- The scanners for runs, each with the symbols it accepts and, if the run must not be empty, the
kind of the error of an empty one. -/
def Scan.runs {σ : Type} [Symbol σ] (p : Pred) (set : SymbolSet) :
    List (Scan × (σ → Bool) × Option ErrorKind) :=
  [(.takeWhile p, p.holds, none),
   (.takeWhile1 p, p.holds, some .takeWhile1),
   (.takeTill p, fun s => !p.holds s, none),
   (.takeTill1 p, fun s => !p.holds s, some .takeTill1),
   (.isA set, set.contains, some .isA),
   (.isNot set, fun s => !set.contains s, some .isNot),
   (.digit0, Symbol.isIn .digit, none),
   (.digit1, Symbol.isIn .digit, some .digit),
   (.alpha0, Symbol.isIn .alpha, none),
   (.alpha1, Symbol.isIn .alpha, some .alpha),
   (.alphanumeric0, Symbol.isIn .alphanum, none),
   (.alphanumeric1, Symbol.isIn .alphanum, some .alphaNumeric),
   (.space0, Symbol.isIn .space, none),
   (.space1, Symbol.isIn .space, some .space),
   (.multispace0, Symbol.isIn .multispace, none),
   (.multispace1, Symbol.isIn .multispace, some .multiSpace)]

section

variable {ι σ ε : Type} [Input ι σ] [Symbol σ] [ParseError ε ι]

/-- Every scanner for runs is the one parser for runs with values of its own. -/
theorem Scan.parser_of_mem_runs {p : Pred} {set : SymbolSet}
    {entry : Scan × (σ → Bool) × Option ErrorKind} (h : entry ∈ runs p set) (mode : Mode) :
    (entry.1.parser mode : Parser ι ε (Value ι σ)) =
      Parser.map .piece (Parser.takeRun mode entry.2.1 entry.2.2) := by
  revert entry
  simp only [runs, List.forall_mem_cons, List.not_mem_nil, false_implies, implies_true, and_true]
  refine ⟨?_, ?_, ?_, ?_, ?_, ?_, ?_, ?_, ?_, ?_, ?_, ?_, ?_, ?_, ?_, ?_⟩ <;> rfl

end

namespace Parser

variable {ι σ ε : Type} [Input ι σ] [LawfulInput ι σ] [ParseError ε ι] {i : ι}

open Judgement

theorem takeRun_takes (hi : Valid i) (accepts : σ → Bool) :
    Run.Takes (runLength accepts (Input.symbols i)) i
      (takeRun .complete accepts none i : Run ι ε ι) := by
  have htakes := Run.takes_parts (ε := ε) hi (runLength_le accepts (Input.symbols i))
  rw [takeRun_eq hi, run_complete, ofRun]
  split
  · rename_i hzero
    rw [hzero] at htakes ⊢
    exact htakes
  · exact htakes

/-- A run that is not empty is split off. -/
theorem takeRun_eq_parts (hi : Valid i) {accepts : σ → Bool}
    (h : 0 < runLength accepts (Input.symbols i)) (kind : ErrorKind) :
    (takeRun .complete accepts (some kind) i : Run ι ε ι) =
      .success (parts (runLength accepts (Input.symbols i)) i).1
        (parts (runLength accepts (Input.symbols i)) i).2 := by
  rw [takeRun_eq hi, run_complete, ofRun]
  dsimp only
  rw [if_neg (Nat.ne_of_gt h)]
  rfl

theorem takeRun_of_pos (hi : Valid i) {accepts : σ → Bool}
    (h : 0 < runLength accepts (Input.symbols i)) (kind : ErrorKind) :
    Run.Takes (runLength accepts (Input.symbols i)) i
      (takeRun .complete accepts (some kind) i : Run ι ε ι) := by
  rw [takeRun_eq_parts hi h]
  exact Run.takes_parts hi (runLength_le accepts _)

theorem takeRun_of_zero (hi : Valid i) {accepts : σ → Bool}
    (h : runLength accepts (Input.symbols i) = 0) (kind : ErrorKind) :
    (takeRun .complete accepts (some kind) i : Run ι ε ι) = .reject i kind := by
  rw [takeRun_eq hi, run_complete, ofRun]
  dsimp only
  rw [if_pos h]
  rfl

theorem takeBounded_of_le (hi : Valid i) {accepts : σ → Bool} {min max : Nat}
    (h : min ≤ Nat.min (runLength accepts (Input.symbols i)) max) :
    Run.Takes (Nat.min (runLength accepts (Input.symbols i)) max) i
      (takeBounded .complete min max accepts i : Run ι ε ι) := by
  rw [takeBounded_eq hi, run_complete, ofBounded]
  dsimp only
  rw [runLength_take, if_pos h]
  exact Run.takes_parts hi (Nat.le_trans (Nat.min_le_left ..) (runLength_le accepts _))

theorem takeBounded_of_lt (hi : Valid i) {accepts : σ → Bool} {min max : Nat}
    (h : Nat.min (runLength accepts (Input.symbols i)) max < min) :
    (takeBounded .complete min max accepts i : Run ι ε ι) = .reject i .takeWhileMN := by
  rw [takeBounded_eq hi, run_complete, ofBounded]
  dsimp only
  rw [runLength_take, if_neg (Nat.not_le.2 h)]
  rfl

theorem take_of_le (hi : Valid i) {n : Nat} (h : n ≤ (Input.symbols i).length) :
    Run.Takes n i (take .complete n i : Run ι ε ι) := by
  rw [take_eq hi, run_complete, ofTake, if_pos h]
  exact Run.takes_parts hi h

theorem take_of_lt (hi : Valid i) {n : Nat} (h : (Input.symbols i).length < n) :
    (take .complete n i : Run ι ε ι) = .reject i .eof := by
  rw [take_eq hi, run_complete, ofTake, if_neg (Nat.not_le.2 h)]
  rfl

/-- **Scanners take just the right symbols.**  At the head of a valid input there is one longest run
of symbols that a test accepts.  In complete mode the scanner for runs takes it, all of it and
nothing else; if a run must not be empty, an empty one is an error of its kind at the input.  The
scanner for bounded runs takes as much of it as the upper bound allows, or it is an error of its own
kind at the input if that is less than the lower bound, so always if the bounds are in the wrong
order.  `take` takes so many symbols if there are so many, and is an error at the input otherwise.
To take symbols is to split the input at the sum of their widths; a character is as wide as its
UTF-8 form is long and any other symbol is one unit wide, in windows as elsewhere. -/
theorem takes_longest_run [Symbol σ] (hi : Valid i) :
    (∀ accepts : σ → Bool, ∃! m, LongestRun accepts (Input.symbols i) m) ∧
    (∀ (accepts : σ → Bool) (m : Nat), LongestRun accepts (Input.symbols i) m →
      Run.Takes m i (takeRun .complete accepts none i : Run ι ε ι) ∧
      (∀ kind,
        (1 ≤ m → Run.Takes m i (takeRun .complete accepts (some kind) i : Run ι ε ι)) ∧
        (m = 0 → (takeRun .complete accepts (some kind) i : Run ι ε ι) = .reject i kind)) ∧
      (∀ min max,
        (min ≤ Nat.min m max →
          Run.Takes (Nat.min m max) i (takeBounded .complete min max accepts i : Run ι ε ι)) ∧
        (Nat.min m max < min →
          (takeBounded .complete min max accepts i : Run ι ε ι) = .reject i .takeWhileMN) ∧
        (max < min →
          (takeBounded .complete min max accepts i : Run ι ε ι) = .reject i .takeWhileMN))) ∧
    (∀ n,
      (n ≤ (Input.symbols i).length → Run.Takes n i (take .complete n i : Run ι ε ι)) ∧
      ((Input.symbols i).length < n → (take .complete n i : Run ι ε ι) = .reject i .eof)) ∧
    (∀ p set, ∀ entry ∈ Scan.runs p set, ∀ mode,
      (entry.1.parser mode : Parser ι ε (Value ι σ)) =
        Parser.map .piece (takeRun mode entry.2.1 entry.2.2)) ∧
    (∀ c, (storage Text).width c = c.utf8Size) ∧
    (∀ (τ : Type) [Symbol τ] (s : τ), (storage (List τ)).width s = 1) ∧
    (storage (Window ι)).width = (storage ι).width := by
  refine ⟨fun accepts => ?_, fun accepts m hm => ?_, fun n => ⟨take_of_le hi, take_of_lt hi⟩,
    fun p set entry hentry mode => Scan.parser_of_mem_runs hentry mode,
    fun _ => rfl, fun _ _ _ => rfl, rfl⟩
  · exact ⟨_, longestRun_runLength accepts _, fun m hm => longestRun_iff.1 hm⟩
  · obtain rfl := longestRun_iff.1 hm
    refine ⟨takeRun_takes hi accepts, fun kind => ⟨fun hpos => takeRun_of_pos hi hpos kind,
      fun hzero => takeRun_of_zero hi hzero kind⟩, fun min max => ⟨takeBounded_of_le hi,
      takeBounded_of_lt hi, fun hlt => takeBounded_of_lt hi ?_⟩⟩
    exact Nat.lt_of_le_of_lt (Nat.min_le_right ..) hlt

/-- Two letters of two bytes each and a digit behind them, in a window that begins behind another
letter: the run of letters that are no digits is split off at the fourth byte. -/
theorem takes_longest_run_accents :
    let w : Window Text := ⟨⟨['n', 'é', 'à', '1']⟩, 1, 6⟩
    let letter : Char → Bool := fun s => !Symbol.isIn .digit s
    Valid w ∧ LongestRun letter (Input.symbols w) 2 ∧
    (takeRun .complete letter none w : Run _ (Cause (Window Text)) _) =
      .success ⟨w.buffer, 1, 5⟩ ⟨w.buffer, 5, 6⟩ ∧
    (takeBounded .complete 0 1 letter w : Run _ (Cause (Window Text)) _) =
      .success ⟨w.buffer, 1, 3⟩ ⟨w.buffer, 3, 6⟩ ∧
    (takeBounded .complete 2 1 letter w : Run _ (Cause (Window Text)) _) =
      .reject w .takeWhileMN ∧
    (take .complete 3 w : Run _ (Cause (Window Text)) _) =
      .success ⟨w.buffer, 1, 6⟩ ⟨w.buffer, 6, 6⟩ ∧
    (take .complete 4 w : Run _ (Cause (Window Text)) _) = .reject w .eof := by
  intro w letter
  have hvalid : Valid w := (valid_splitAt (Window.valid_whole trivial) (n := 1) (by decide)).2
  obtain ⟨-, hruns, htake, -⟩ := takes_longest_run (ε := Cause (Window Text)) hvalid
  have hrun : LongestRun letter (Input.symbols w) 2 := longestRun_iff.2 (by decide)
  obtain ⟨hall, -, hbounded⟩ := hruns letter 2 hrun
  refine ⟨hvalid, hrun, hall.run_eq.trans ?_, ((hbounded 0 1).1 (by decide)).run_eq.trans ?_,
    (hbounded 2 1).2.2 (by decide), ((htake 3).1 (by decide)).run_eq.trans ?_,
    (htake 4).2 (by decide)⟩
  all_goals rfl

end Parser

end ParseKit
