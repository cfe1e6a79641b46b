/-
  Laws of runs.

  Going on after a run, changing its value and putting a log in front of it
  come one after the other in any grouping.  Completing a parser changes its
  reply alone.
-/
import ParseKit.Parser.Adapt

set_option autoImplicit false

namespace ParseKit

variable {ι ε α β γ : Type}

theorem Reply.map_map (f : α → β) (g : β → γ) (r : Reply ι ε α) :
    (r.map f).map g = r.map fun value => g (f value) := by
  cases r <;> rfl

theorem Reply.map_eq_success {f : α → β} {reply : Reply ι ε α} {w : β} {r : ι}
    (h : reply.map f = .success w r) : ∃ v, reply = .success v r ∧ w = f v := by
  cases reply with
  | success v r' =>
    cases h
    exact ⟨v, rfl, rfl⟩
  | failure failure => cases h
  | stuck fault => cases h

theorem Reply.map_eq_failure {f : α → β} {reply : Reply ι ε α} {failure : Failure ε}
    (h : reply.map f = .failure failure) : reply = .failure failure := by
  cases reply with
  | success v r => cases h
  | failure failure' =>
    cases h
    rfl
  | stuck fault => cases h

namespace Run

/-! ## Going on after any reply -/

section

variable {r : Run ι ε α} {onSuccess : α → ι → Run ι ε β} {onMiss : ε → Run ι ε β}

/-- After a success the reply is that of what the run goes on with. -/
theorem reply_handle_of_success {value : α} {rest : ι} (h : r.reply = .success value rest) :
    (r.handle onSuccess onMiss).reply = (onSuccess value rest).reply := by
  rw [handle, h]
  rfl

/-- After a recoverable failure the reply is that of what the run goes on with. -/
theorem reply_handle_of_miss {e : ε} (h : r.reply = .failure (.recoverable e)) :
    (r.handle onSuccess onMiss).reply = (onMiss e).reply := by
  rw [handle, h]
  rfl

end

/-- A run goes on the same way if it does so after the success it has and after any miss. -/
theorem handle_congr {r : Run ι ε α} {onSuccess onSuccess' : α → ι → Run ι ε β}
    {onMiss onMiss' : ε → Run ι ε β}
    (hsuccess : ∀ value rest, r.reply = .success value rest →
      onSuccess value rest = onSuccess' value rest)
    (hmiss : ∀ e, onMiss e = onMiss' e) :
    r.handle onSuccess onMiss = r.handle onSuccess' onMiss' := by
  rcases r with ⟨log, ⟨value, rest⟩ | ⟨_ | e | e⟩ | fault⟩
  · simp only [handle_success, hsuccess value rest rfl]
  · rfl
  · simp only [handle_recoverable, hmiss e]
  · rfl
  · rfl

/-- What a run goes on with has succeeded, after a success or a miss of its own. -/
theorem exists_of_handle_success {r : Run ι ε α} {onSuccess : α → ι → Run ι ε β}
    {onMiss : ε → Run ι ε β} {value : β} {rest : ι}
    (h : (r.handle onSuccess onMiss).reply = .success value rest) :
    (∃ first mid, r.reply = .success first mid ∧
        (onSuccess first mid).reply = .success value rest) ∨
      ∃ e, r.reply = .failure (.recoverable e) ∧ (onMiss e).reply = .success value rest := by
  rcases r with ⟨log, ⟨first, mid⟩ | ⟨_ | e | e⟩ | fault⟩
  · exact .inl ⟨first, mid, rfl, h⟩
  · cases h
  · exact .inr ⟨e, rfl, h⟩
  · cases h
  · cases h

/-- A run that only a recoverable failure would change is left alone if it is none. -/
theorem handle_eq_self {r : Run ι ε α} {onMiss : ε → Run ι ε α}
    (h : ∀ e, r.reply ≠ .failure (.recoverable e)) : r.handle .success onMiss = r := by
  rcases r with ⟨log, value | failure | fault⟩
  · simp [success, after]
  · cases failure with
    | incomplete => rfl
    | recoverable e => exact (h e rfl).elim
    | fatal e => rfl
  · rfl

/-- What a run goes on with is logged behind what came before the run. -/
theorem handle_after (log : List Signal) (r : Run ι ε α) (onSuccess : α → ι → Run ι ε β)
    (onMiss : ε → Run ι ε β) :
    (r.after log).handle onSuccess onMiss = (r.handle onSuccess onMiss).after log := by
  rcases r with ⟨log', value | failure | fault⟩
  · exact (after_after log log' _).symm
  · cases failure with
    | incomplete => rfl
    | recoverable e => exact (after_after log log' _).symm
    | fatal e => rfl
  · rfl

/-! ## Going on after a success -/

theorem andThen_after (log : List Signal) (r : Run ι ε α) (f : α → ι → Run ι ε β) :
    (r.after log).andThen f = (r.andThen f).after log :=
  handle_after log r f .recoverable

/-- After a success the reply is that of what the run goes on with. -/
theorem reply_andThen_of_success {r : Run ι ε α} {f : α → ι → Run ι ε β} {value : α} {rest : ι}
    (h : r.reply = .success value rest) : (r.andThen f).reply = (f value rest).reply :=
  reply_handle_of_success h

theorem reply_andThen_of_failure {r : Run ι ε α} {f : α → ι → Run ι ε β} {failure : Failure ε}
    (h : r.reply = .failure failure) : (r.andThen f).reply = .failure failure := by
  rw [andThen, handle, h]
  cases failure <;> rfl

theorem reply_andThen_of_stuck {r : Run ι ε α} {f : α → ι → Run ι ε β} {fault : Fault}
    (h : r.reply = .stuck fault) : (r.andThen f).reply = .stuck fault := by
  rw [andThen, handle, h]

theorem success_andThen (log : List Signal) (value : α) (rest : ι) (f : α → ι → Run ι ε β) :
    andThen ⟨log, .success value rest⟩ f = (f value rest).after log := rfl

theorem andThen_andThen (r : Run ι ε α) (f : α → ι → Run ι ε β) (g : β → ι → Run ι ε γ) :
    (r.andThen f).andThen g = r.andThen fun value rest => (f value rest).andThen g := by
  rcases r with ⟨log, ⟨value, rest⟩ | ⟨_ | e | e⟩ | fault⟩
  · exact andThen_after log (f value rest) g
  · rfl
  · simp [andThen, recoverable, failure, after]
  · rfl
  · rfl

theorem handle_andThen (r : Run ι ε α) (onSuccess : α → ι → Run ι ε β)
    (onMiss : ε → Run ι ε β) (f : β → ι → Run ι ε γ) :
    (r.handle onSuccess onMiss).andThen f =
      r.handle (fun value rest => (onSuccess value rest).andThen f)
        fun e => (onMiss e).andThen f := by
  rcases r with ⟨log, ⟨value, rest⟩ | ⟨_ | e | e⟩ | fault⟩
  · exact andThen_after log (onSuccess value rest) f
  · rfl
  · exact andThen_after log (onMiss e) f
  · rfl
  · rfl

/-- To go on with a success is to change the value. -/
theorem andThen_success (f : α → β) (r : Run ι ε α) :
    (r.andThen fun value rest => .success (f value) rest) = r.map f := by
  rcases r with ⟨log, ⟨value, rest⟩ | ⟨_ | e | e⟩ | fault⟩
  · simp [andThen, success, after, map, Reply.map]
  · rfl
  · simp [andThen, recoverable, failure, after, map, Reply.map]
  · rfl
  · rfl

/-! ## Changing the value -/

theorem map_id (r : Run ι ε α) : r.map id = r := by
  rcases r with ⟨log, value | failure | fault⟩ <;> rfl

theorem map_map (f : α → β) (g : β → γ) (r : Run ι ε α) :
    (r.map f).map g = r.map fun value => g (f value) := by
  rcases r with ⟨log, value | failure | fault⟩ <;> rfl

/-- A run that does not succeed is left alone, whatever type its value would have had. -/
theorem andThen_eq_map {r : Run ι ε α} (h : r.reply.success? = none) (f : α → ι → Run ι ε β)
    (g : α → β) : r.andThen f = r.map g := by
  rcases r with ⟨log, ⟨value, rest⟩ | ⟨_ | e | e⟩ | fault⟩
  · cases h
  · rfl
  · simp [andThen, recoverable, failure, after, map, Reply.map]
  · rfl
  · rfl

theorem map_after (log : List Signal) (r : Run ι ε α) (f : α → β) :
    (r.after log).map f = (r.map f).after log := rfl

theorem map_handle (r : Run ι ε α) (onSuccess : α → ι → Run ι ε β) (onMiss : ε → Run ι ε β)
    (f : β → γ) :
    (r.handle onSuccess onMiss).map f =
      r.handle (fun value rest => (onSuccess value rest).map f) fun e => (onMiss e).map f := by
  simp only [← andThen_success, handle_andThen]

theorem map_andThen (r : Run ι ε α) (f : α → ι → Run ι ε β) (g : β → γ) :
    (r.andThen f).map g = r.andThen fun value rest => (f value rest).map g := by
  simp only [← andThen_success, andThen_andThen]

theorem andThen_map (r : Run ι ε α) (f : α → β) (g : β → ι → Run ι ε γ) :
    (r.map f).andThen g = r.andThen fun value rest => g (f value) rest := by
  rw [← andThen_success, andThen_andThen]
  rfl

end Run

variable [ParseError ε ι]

/-! ## Taking the end as final -/

/-- A reply with a request for more input answered by the end of the input. -/
def Reply.completed (i : ι) : Reply ι ε α → Reply ι ε α
  | .failure .incomplete => .failure (.recoverable (ParseError.ofKind i .eof))
  | reply => reply

theorem Parser.complete_eq (p : Parser ι ε α) (i : ι) :
    complete p i = ⟨(p i).log, (p i).reply.completed i⟩ := by
  unfold complete
  rcases p i with ⟨log, ⟨value, rest⟩ | ⟨_ | e | e⟩ | fault⟩
  · rfl
  · exact congrArg (Run.mk · _) (List.append_nil log)
  all_goals rfl

end ParseKit
