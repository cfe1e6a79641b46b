/-
  Streaming answers are final.

  If every scanner of an expression is streaming and nothing in it looks at
  the end of the input, an answer other than a request for more input stays
  the answer whatever symbols follow.  So trying longer and longer beginnings
  of some input until one is answered gives the answer to all of it, however
  it was cut up.
-/
import ParseKit.Proofs.Streaming.Followed

set_option autoImplicit false

namespace ParseKit

open LawfulInput

/-! ## Streaming expressions -/

/-- Whether an expression looks at its input through streaming scanners only. -/
abbrev Expr.Streams (e : Expr) : Prop := e.Every (LooksBy fun mode _ => mode = .streaming)

variable {ι σ : Type} [Input ι σ] [LawfulInput ι σ] [Symbol σ]

namespace Correspondence

/-- A streaming scanner on two views, the second with symbols behind the first: it asks for more
input on the first one or does the same on both. -/
theorem followed_streaming (more : List σ) (s : Scan) :
    (followed ι more True).ValueParsers (s.parser .streaming) (s.parser .streaming) := by
  intro i i' h
  rw [Scan.parser_eq h.valid, Scan.parser_eq h.valid', h.symbols_eq]
  cases hfinal : (s.judge (storage ι) (Input.symbols i)).final with
  | true =>
    rw [Scan.judge_append more hfinal, Judgement.run, Judgement.run, if_pos hfinal,
      if_pos hfinal]
    exact followed_verdict h s fun _ => Scan.le_length_of_takes
  | false =>
    rw [Judgement.run, hfinal]
    exact .undecided _ trivial

/-- A streaming expression on two views, the second with symbols behind the first. -/
theorem followed_streams {e : Expr} (he : e.Streams) (env env' : Expr.Env ι σ (Cause ι))
    (more : List σ) : (followed ι more True).ValueParsers (e.eval env) (e.eval env') := by
  have heval : (followed ι more True).ValueParsers ((e.mapMode id).eval env)
      ((e.mapMode id).eval env') := by
    refine followed_eval he (fun mode s hmode => ?_) env env'
    rw [hmode]
    exact followed_streaming more s
  rwa [Expr.mapMode_id] at heval

end Correspondence

/-! ## Trying beginnings -/

/-- The first reply to some inputs that does not ask for more input. -/
def Parser.firstAnswer? {ε α : Type} (p : Parser ι ε α) : List ι → Option (Reply ι ε α)
  | [] => none
  | i :: later =>
    match (p i).reply with
    | .failure .incomplete => firstAnswer? p later
    | reply => some reply

namespace Parser

variable {ε α : Type} {p : Parser ι ε α} {inputs : List ι}

omit [Input ι σ] [LawfulInput ι σ] [Symbol σ] in
theorem firstAnswer?_eq_none_iff :
    firstAnswer? p inputs = none ↔ ∀ i ∈ inputs, (p i).reply = .failure .incomplete := by
  induction inputs with
  | nil => simp [firstAnswer?]
  | cons i later ih =>
    rw [firstAnswer?, List.forall_mem_cons]
    split
    · rename_i h
      rw [ih]
      exact ⟨fun hlater => ⟨h, hlater⟩, fun hall => hall.2⟩
    · rename_i h
      constructor
      · intro hnone
        cases hnone
      · intro hall
        exact (h hall.1).elim

omit [Input ι σ] [LawfulInput ι σ] [Symbol σ] in
/-- The first answer is the reply to one of the inputs, and an answer. -/
theorem exists_of_firstAnswer? {reply : Reply ι ε α} (h : firstAnswer? p inputs = some reply) :
    ∃ i ∈ inputs, (p i).reply = reply ∧ reply ≠ .failure .incomplete := by
  induction inputs with
  | nil => cases h
  | cons i later ih =>
    rw [firstAnswer?] at h
    split at h
    · obtain ⟨k, hk, hreply⟩ := ih h
      exact ⟨k, List.mem_cons_of_mem _ hk, hreply⟩
    · rename_i hne
      cases h
      exact ⟨i, List.mem_cons_self, rfl, hne⟩

end Parser

/-! ## Finality -/

namespace Expr.Streams

variable {e : Expr} {more : List σ} {i i' : ι}

/-- An answer stays the answer on every view that goes on behind. -/
theorem answers (he : e.Streams) (env env' : Expr.Env ι σ (Cause ι)) (h : Followed more i i')
    (hreply : (e.eval env i).reply ≠ .failure .incomplete) :
    Reply.Answers (Value.Related SameView Eq) (Followed more) (Cause.Related (Followed more))
      (e.eval env i).reply (e.eval env' i').reply :=
  Correspondence.answers_of_followed (Correspondence.followed_streams he env env' more h)
    fun _ => hreply

/-- What is not answered on a view is not answered on a beginning of it. -/
theorem incomplete_of_followed (he : e.Streams) (env env' : Expr.Env ι σ (Cause ι))
    (h : Followed more i i') (hreply : (e.eval env' i').reply = .failure .incomplete) :
    (e.eval env i).reply = .failure .incomplete := by
  by_contra hne
  exact (he.answers env env' h hne).ne_incomplete.2 hreply

end Expr.Streams

/-- **Streaming answers are final.**  What a streaming expression answers on a view it answers on
every view that goes on behind it: the same value, the remainder followed by what is new; or a
failure of the same state, with the same levels and every position followed by what is new.  And
if beginnings of some input are tried until one is answered, all of it last, there is no answer
exactly if there is none to all of it, and any other answer agrees with the answer to all of it.
Where there is room for what the expression counts, every answer is a success or a failure. -/
theorem Expr.Streams.answer_final {e : Expr} (he : e.Streams) (env env' : Expr.Env ι σ (Cause ι)) :
    (∀ {more : List σ} {i i' : ι}, Followed more i i' →
      (e.eval env i).reply ≠ .failure .incomplete →
        Reply.Answers (Value.Related SameView Eq) (Followed more)
          (Cause.Related (Followed more)) (e.eval env i).reply (e.eval env' i').reply) ∧
    (∀ {beginnings : List ι} {whole : ι}, Valid whole →
      (∀ i ∈ beginnings, ∃ more : List σ, Followed more i whole) →
        (Parser.firstAnswer? (e.eval env) (beginnings ++ [whole]) = none ↔
          (e.eval env' whole).reply = .failure .incomplete) ∧
        ∀ reply, Parser.firstAnswer? (e.eval env) (beginnings ++ [whole]) = some reply →
          ∃ i ∈ beginnings ++ [whole], ∃ more : List σ, Followed more i whole ∧
            (e.eval env i).reply = reply ∧
            Reply.Answers (Value.Related SameView Eq) (Followed more)
              (Cause.Related (Followed more)) reply (e.eval env' whole).reply) ∧
    (e.Reservable → ∀ {i : ι}, Valid i → ∀ fault, (e.eval env i).reply ≠ .stuck fault) := by
  refine ⟨he.answers env env', fun {beginnings whole} hwhole hbeginnings => ?_,
    fun hroom _ hi => Expr.ends_of_looksBy he hroom env hi⟩
  have hself : SameView whole whole := ⟨hwhole, hwhole, rfl, (List.append_nil _).symm⟩
  have hall : ∀ i ∈ beginnings ++ [whole], ∃ more : List σ, Followed more i whole := by
    intro i hi
    rcases List.mem_append.1 hi with hi | hi
    · exact hbeginnings i hi
    · rw [List.mem_singleton.1 hi]
      exact ⟨[], hself⟩
  refine ⟨?_, fun reply hreply => ?_⟩
  · rw [Parser.firstAnswer?_eq_none_iff]
    constructor
    · intro hnone
      have hlast := hnone whole (List.mem_append_right _ (List.mem_singleton_self _))
      exact he.incomplete_of_followed env' env hself hlast
    · intro hincomplete i hi
      obtain ⟨more, hmore⟩ := hall i hi
      exact he.incomplete_of_followed env env' hmore hincomplete
  · obtain ⟨i, hi, rfl, hne⟩ := Parser.exists_of_firstAnswer? hreply
    obtain ⟨more, hmore⟩ := hall i hi
    exact ⟨i, hi, more, hmore, rfl, he.answers env env' hmore hne⟩

/-- Letters and an optional dash: `7` decides that there is no dash, whatever comes behind it. -/
theorem Expr.answer_final_letters :
    Followed ['x'] (⟨['a', 'b', '7']⟩ : Text) ⟨['a', 'b', '7', 'x']⟩ ∧
    Reply.Answers (Value.Related SameView Eq) (Followed ['x']) (Cause.Related (Followed ['x']))
      (.success (.tuple [.piece ⟨['a', 'b']⟩, .absent]) ⟨['7']⟩ :
        Reply Text (Cause Text) (Value Text Char))
      (.success (.tuple [.piece ⟨['a', 'b']⟩, .absent]) ⟨['7', 'x']⟩ :
        Reply Text (Cause Text) (Value Text Char)) := by
  have hfollowed : Followed ['x'] (⟨['a', 'b', '7']⟩ : Text) ⟨['a', 'b', '7', 'x']⟩ :=
    followed_text_iff.2 rfl
  have hletters : Streams (.scan .streaming .alpha1) := every_leaf rfl rfl
  have hchar : Streams (.scan .streaming (.char '-')) := every_leaf rfl rfl
  have hdash : Streams (.opt (.scan .streaming (.char '-'))) :=
    .intro trivial (by simp [children, hchar])
  have hstreams : Streams
      (.pair (.scan .streaming .alpha1) (.opt (.scan .streaming (.char '-')))) :=
    .intro trivial (by simp [children, hletters, hdash])
  have hfinal := (Streams.answer_final hstreams (fun _ _ => .stuck .tooDeep)
    (fun _ _ => .stuck .tooDeep)).1 hfollowed (by intro h; cases h)
  exact ⟨hfollowed, hfinal⟩

end ParseKit
