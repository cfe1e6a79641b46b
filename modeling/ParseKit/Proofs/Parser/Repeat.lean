/-
  Repetitions request by request.

  A request that brings no value has ended its repetition, and from then on
  nothing changes.  So a collector that is told that there is no value left
  ends the same way however often it asks again, and what it does is a plain
  loop of applications of the parser (`Collector.drive_open`).
-/
import ParseKit.Parser.Repeat

set_option autoImplicit false

namespace ParseKit

variable {ι σ ε α β γ : Type} [Input ι σ] [ParseError ε ι]

namespace Repeater

variable {p : Parser ι ε α} {guard : ErrorKind} {s : Repeater ι ε}

/-- A request brings the value of a success that takes something. -/
theorem next_of_success {i rest : ι} {value : α} (guard : ErrorKind)
    (h : (p i).reply = .success value rest) (hlt : Input.length rest < Input.length i) :
    (⟨i, none⟩ : Repeater ι ε).next p guard = ⟨(p i).log, some value, ⟨rest, none⟩⟩ := by
  simp only [next, h, hlt, if_true]

/-- A success that leaves the input as long as it was ends the repetition. -/
theorem next_of_stalled {i rest : ι} {value : α} (guard : ErrorKind)
    (h : (p i).reply = .success value rest) (hlength : Input.length rest = Input.length i) :
    (⟨i, none⟩ : Repeater ι ε).next p guard =
      ⟨(p i).log ++ [.event (.repetitionStalled guard)], none,
        ⟨i, some (.failed (.recoverable (ParseError.ofKind i guard)))⟩⟩ := by
  have hlt : ¬ Input.length rest < Input.length i := Nat.not_lt.2 (Nat.le_of_eq hlength.symm)
  simp only [next, h, if_neg hlt, if_pos hlength]

/-- So does one that leaves more than there was. -/
theorem next_of_grown {i rest : ι} {value : α} (guard : ErrorKind)
    (h : (p i).reply = .success value rest) (hlt : Input.length i < Input.length rest) :
    (⟨i, none⟩ : Repeater ι ε).next p guard =
      ⟨(p i).log, none, ⟨i, some (.stuck .grown)⟩⟩ := by
  simp only [next, h, if_neg (Nat.lt_asymm hlt), if_neg (Nat.ne_of_gt hlt)]

/-- Asking again after the end changes nothing and brings nothing. -/
theorem requests_of_ended {ending : Ending ε} (h : s.ending = some ending) (n : Nat) :
    s.requests p guard n = ([], List.replicate n none, s) := by
  induction n with
  | zero => rfl
  | succ n ih => rw [requests, next_of_ended h, ih, List.replicate_succ, List.nil_append]

/-- A repetition has ended once a request brings no value. -/
theorem exists_ending_of_item?_eq_none (h : (s.next p guard).item? = none) :
    ∃ ending, (s.next p guard).state.ending = some ending := by
  unfold next at h ⊢
  split
  · rename_i ending hending
    exact ⟨ending, hending⟩
  · rename_i hending
    simp only [hending] at h
    dsimp only
    split
    · rename_i value rest hreply
      split
      · rename_i hlt
        simp [hreply, hlt] at h
      · split <;> exact ⟨_, rfl⟩
    · exact ⟨_, rfl⟩
    · exact ⟨_, rfl⟩
    · exact ⟨_, rfl⟩

end Repeater

namespace Collector

variable {c : Collector α γ β} {p : Parser ι ε α} {guard : ErrorKind} {collected : γ}
  {s : Repeater ι ε}

/-- A collector that wants no value leaves the repetition where it stands. -/
theorem drive_of_not_wants (h : c.wants collected = false) :
    c.drive p guard collected s = s.conclude (c.finish collected 0) := by
  rw [drive, h]
  rfl

/-- A value is taken in and the collector goes on behind it. -/
theorem drive_of_item {value : α} (h : c.wants collected = true)
    (hitem : (s.next p guard).item? = some value) :
    c.drive p guard collected s =
      (c.drive p guard (c.push collected value) (s.next p guard).state).after
        (s.next p guard).log := by
  rw [drive, if_pos h]
  dsimp only
  split
  · rename_i value' hitem'
    rw [hitem] at hitem'
    cases hitem'
    rfl
  · rename_i hnone
    rw [hitem] at hnone
    cases hnone

/-- Without a value left the repetition is concluded; further requests make no difference. -/
theorem drive_of_none (h : c.wants collected = true) (hitem : (s.next p guard).item? = none) :
    c.drive p guard collected s =
      ((s.next p guard).state.conclude (c.finish collected 0)).after (s.next p guard).log := by
  rw [drive, if_pos h]
  dsimp only
  split
  · rename_i value hsome
    rw [hitem] at hsome
    cases hsome
  · obtain ⟨ending, hending⟩ := Repeater.exists_ending_of_item?_eq_none hitem
    simp [Repeater.requests_of_ended hending]

/-- A collector takes a repetition that has not ended through a plain loop: it applies the parser
where it stands and goes on behind each value, and nothing is left of its further requests. -/
theorem drive_open (i : ι) :
    c.drive p guard collected ⟨i, none⟩ =
      if c.wants collected then
        (p i).handle
          (fun value rest =>
            if Input.length rest < Input.length i then
              c.drive p guard (c.push collected value) ⟨rest, none⟩
            else .stalled (.repetitionStalled guard) guard i i rest)
          fun _ =>
            Run.noting (.repetitionEnded (Input.length i)) (.success (c.finish collected 0) i)
      else .success (c.finish collected 0) i := by
  cases hwants : c.wants collected with
  | false => exact drive_of_not_wants hwants
  | true =>
    have hended : ∀ {log state}, (⟨i, none⟩ : Repeater ι ε).next p guard = ⟨log, none, state⟩ →
        c.drive p guard collected ⟨i, none⟩ =
          (state.conclude (c.finish collected 0)).after log := by
      intro log state hnext
      rw [drive_of_none hwants (by rw [hnext]), hnext]
    rw [if_pos rfl]
    rcases hrun : p i with ⟨log, ⟨value, rest⟩ | ⟨_ | e | e⟩ | fault⟩
    · have hreply : (p i).reply = .success value rest := by rw [hrun]
      rcases Nat.lt_trichotomy (Input.length rest) (Input.length i) with hlt | hlength | hlt
      · have hnext : (⟨i, none⟩ : Repeater ι ε).next p guard = ⟨log, some value, ⟨rest, none⟩⟩ := by
          rw [Repeater.next_of_success guard hreply hlt, hrun]
        have hitem : ((⟨i, none⟩ : Repeater ι ε).next p guard).item? = some value := by rw [hnext]
        rw [drive_of_item hwants hitem, hnext]
        simp only [Run.handle_success, hlt, if_true]
      · rw [hended (Repeater.next_of_stalled guard hreply hlength), hrun, Run.handle_success,
          if_neg (Nat.not_lt.2 (Nat.le_of_eq hlength.symm)), Run.stalled_of_eq hlength]
        exact (Run.after_after ..).symm
      · rw [hended (Repeater.next_of_grown guard hreply hlt), hrun, Run.handle_success,
          if_neg (Nat.lt_asymm hlt), Run.stalled_of_ne (Nat.ne_of_gt hlt)]
        simp [Repeater.conclude, Run.after, Run.stuck]
    · rw [hended (by simp only [Repeater.next, hrun]; rfl)]
      simp [Repeater.conclude, Run.after, Run.failure]
    · rw [hended (by simp only [Repeater.next, hrun]; rfl)]
      exact (Run.after_after ..).symm
    · rw [hended (by simp only [Repeater.next, hrun]; rfl)]
      simp [Repeater.conclude, Run.after, Run.failure]
    · rw [hended (by simp only [Repeater.next, hrun]; rfl)]
      simp [Repeater.conclude, Run.after, Run.stuck]

end Collector

end ParseKit
