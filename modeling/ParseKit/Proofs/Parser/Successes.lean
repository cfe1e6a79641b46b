/-
  What repetitions gather.

  A repetition that succeeds has the values of successes of its parser in a
  row and leaves what the last of them has left.  This asks nothing of the
  parser, not even that it never grows: a success that does not shorten the
  input ends a repetition, and no value of it is ever gathered.
-/
import ParseKit.Proofs.Parser.Path
import ParseKit.Proofs.Parser.Run

set_option autoImplicit false

namespace ParseKit

variable {ι σ ε α β γ : Type} [Input ι σ] [ParseError ε ι]

/-! ## One step of a collector -/

namespace Collector

variable {c : Collector α γ β} {p : Parser ι ε α} {collected : γ} {i : ι}

/-- A collector goes on behind a success that shortens the input. -/
theorem reply_drive_of_success (hwants : c.wants collected = true) (guard : ErrorKind) {value : α}
    {rest : ι} (h : (p i).reply = .success value rest)
    (hlt : Input.length rest < Input.length i) :
    (c.drive p guard collected ⟨i, none⟩).reply =
      (c.drive p guard (c.push collected value) ⟨rest, none⟩).reply := by
  rw [drive_open, if_pos hwants, Run.reply_handle_of_success h, if_pos hlt]

/-- A miss ends the repetition with what has been collected. -/
theorem reply_drive_of_miss (hwants : c.wants collected = true) (guard : ErrorKind) {e : ε}
    (h : (p i).reply = .failure (.recoverable e)) :
    (c.drive p guard collected ⟨i, none⟩).reply = .success (c.finish collected 0) i := by
  rw [drive_open, if_pos hwants, Run.reply_handle_of_miss h]
  rfl

theorem reply_drive_of_incomplete (hwants : c.wants collected = true) (guard : ErrorKind)
    (h : (p i).reply = .failure .incomplete) :
    (c.drive p guard collected ⟨i, none⟩).reply = .failure .incomplete := by
  rw [drive_open, if_pos hwants, Run.handle, h]

end Collector

/-! ## Successes in a row -/

namespace Parser

/-- A repetition that succeeds has the values of successes in a row and ends where they end. -/
def Gathers (repetition : Parser ι ε α → Parser ι ε (List α)) : Prop :=
  ∀ p i values rest, (repetition p i).reply = .success values rest →
    ∃ steps, Path p.Succeeds i steps ∧ values = steps.map Success.value ∧ rest = reached i steps

variable {p : Parser ι ε α} {i rest : ι} {values : List α}

/-- What has been collected before stands before the values of the path. -/
theorem exists_path_of_drive {guard : ErrorKind} {collected : List α}
    (h : (Collector.list.drive p guard collected ⟨i, none⟩).reply = .success values rest) :
    ∃ steps, Path p.Succeeds i steps ∧
      values = collected.reverse ++ steps.map Success.value ∧ rest = reached i steps := by
  -- Behind every value taken in a shorter input is left.
  induction hn : Input.length i using Nat.strongRecOn generalizing i collected with
  | ind n ih =>
    have hwants : Collector.list.wants collected = true := rfl
    rw [Collector.drive_open, if_pos hwants] at h
    obtain ⟨value, mid, hreply, hmore⟩ | ⟨e, -, hend⟩ := Run.exists_of_handle_success h
    · by_cases hlt : Input.length mid < Input.length i
      · rw [if_pos hlt] at hmore
        obtain ⟨steps, hpath, hvalues, hrest⟩ := ih _ (hn ▸ hlt) hmore rfl
        refine ⟨⟨value, mid⟩ :: steps, .cons hreply hpath, ?_, hrest⟩
        rw [hvalues, List.map_cons, Collector.list, List.reverse_cons, List.append_assoc]
        rfl
      · rw [if_neg hlt] at hmore
        exact (Run.stalled_ne_success _ _ hmore).elim
    · cases hend
      exact ⟨[], .nil, (List.append_nil _).symm, rfl⟩

theorem gathers_many0 : Gathers (many0 : Parser ι ε α → Parser ι ε (List α)) :=
  fun _ _ _ _ h => exists_path_of_drive h

theorem gathers_many1 : Gathers (many1 : Parser ι ε α → Parser ι ε (List α)) := by
  intro p i values rest h
  obtain ⟨first, mid, hreply, hmore⟩ | ⟨e, -, hmiss⟩ := Run.exists_of_handle_success h
  · by_cases hlt : Input.length mid < Input.length i
    · rw [if_pos hlt] at hmore
      obtain ⟨steps, hpath, hvalues, hrest⟩ := exists_path_of_drive hmore
      exact ⟨⟨first, mid⟩ :: steps, .cons hreply hpath, hvalues, hrest⟩
    · rw [if_neg hlt] at hmore
      exact (Run.stalled_ne_success _ _ hmore).elim
  · cases hmiss

theorem exists_path_of_countFrom {origin : ι} {n : Nat}
    (h : (countFrom origin p n i).reply = .success values rest) :
    ∃ steps, Path p.Succeeds i steps ∧ values = steps.map Success.value ∧
      rest = reached i steps := by
  induction n generalizing i values with
  | zero =>
    cases h
    exact ⟨[], .nil, rfl, rfl⟩
  | succ n ih =>
    obtain ⟨value, mid, hreply, hmore⟩ | ⟨e, -, hmiss⟩ := Run.exists_of_handle_success h
    · obtain ⟨values', hfound, rfl⟩ := Reply.map_eq_success hmore
      obtain ⟨steps, hpath, rfl, hrest⟩ := ih hfound
      exact ⟨⟨value, mid⟩ :: steps, .cons hreply hpath, rfl, hrest⟩
    · cases hmiss

theorem gathers_count (n : Nat) : Gathers (count n : Parser ι ε α → Parser ι ε (List α)) :=
  fun _ _ _ _ h => exists_path_of_countFrom h

omit [ParseError ε ι] in
/-- Nothing else is gathered if room has been reserved before. -/
theorem Gathers.reserving {repetition : Parser ι ε α → Parser ι ε (List α)}
    (h : Gathers repetition) (n : Nat) :
    Gathers fun p => Parser.reserving n (repetition p) := by
  intro p i values rest hreply
  unfold Parser.reserving at hreply
  split at hreply
  · exact h p i values rest hreply
  · cases hreply

theorem exists_path_of_boundedFrom {origin : ι} {min max taken : Nat}
    (h : (boundedFrom origin min max p taken i).reply = .success values rest) :
    ∃ steps, Path p.Succeeds i steps ∧ values = steps.map Success.value ∧
      rest = reached i steps := by
  induction hn : Input.length i using Nat.strongRecOn generalizing i values taken with
  | ind n ih =>
    rw [boundedFrom] at h
    by_cases htaken : taken < max
    · rw [if_pos htaken] at h
      obtain ⟨value, mid, hreply, hmore⟩ | ⟨e, -, hend⟩ := Run.exists_of_handle_success h
      · by_cases hlt : Input.length mid < Input.length i
        · rw [dif_pos hlt] at hmore
          obtain ⟨values', hfound, rfl⟩ := Reply.map_eq_success hmore
          obtain ⟨steps, hpath, rfl, hrest⟩ := ih _ (hn ▸ hlt) hfound rfl
          exact ⟨⟨value, mid⟩ :: steps, .cons hreply hpath, rfl, hrest⟩
        · rw [dif_neg hlt] at hmore
          exact (Run.stalled_ne_success _ _ hmore).elim
      · by_cases hmin : taken < min
        · rw [if_pos hmin] at hend
          cases hend
        · rw [if_neg hmin] at hend
          cases hend
          exact ⟨[], .nil, rfl, rfl⟩
    · rw [if_neg htaken] at h
      cases h
      exact ⟨[], .nil, rfl, rfl⟩

theorem gathers_manyMN (min max : Nat) :
    Gathers (manyMN min max : Parser ι ε α → Parser ι ε (List α)) := by
  intro p i values rest h
  by_cases hbounds : max < min
  · rw [manyMN, if_pos hbounds] at h
    cases h
  · rw [manyMN, if_neg hbounds] at h
    exact exists_path_of_boundedFrom h

/-- Where the values of a repetition up to a terminator end, the terminator succeeds. -/
theorem exists_path_of_manyTill {terminator : Parser ι ε β} {last : β}
    (h : (manyTill p terminator i).reply = .success (values, last) rest) :
    ∃ steps, Path p.Succeeds i steps ∧ values = steps.map Success.value ∧
      (terminator (reached i steps)).reply = .success last rest := by
  induction hn : Input.length i using Nat.strongRecOn generalizing i values with
  | ind n ih =>
    rw [manyTill] at h
    obtain ⟨last', rest', hreply, hend⟩ | ⟨e, -, hmore⟩ := Run.exists_of_handle_success h
    · cases hend
      exact ⟨[], .nil, rfl, hreply⟩
    · obtain ⟨value, mid, hreply, hmore⟩ | ⟨e, -, hmiss⟩ := Run.exists_of_handle_success hmore
      · by_cases hlt : Input.length mid < Input.length i
        · rw [dif_pos hlt] at hmore
          obtain ⟨⟨values', last'⟩, hfound, heq⟩ := Reply.map_eq_success hmore
          cases heq
          obtain ⟨steps, hpath, rfl, hlast⟩ := ih _ (hn ▸ hlt) hfound rfl
          exact ⟨⟨value, mid⟩ :: steps, .cons hreply hpath, rfl, hlast⟩
        · rw [dif_neg hlt] at hmore
          exact (Run.stalled_ne_success _ _ hmore).elim
      · cases hmiss

end Parser

end ParseKit
