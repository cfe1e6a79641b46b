/-
  Combinators keep correspondence: applied to corresponding parsers they give
  corresponding parsers.  The functions that values, errors and checks go
  through are arbitrary as long as they keep what is related.
-/
import ParseKit.Proofs.Correspondence.Basic

set_option autoImplicit false

namespace ParseKit.Correspondence

variable {ι σ ε ι' σ' ε' : Type} [Input ι σ] [Symbol σ] [ParseError ε ι]
  [Input ι' σ'] [Symbol σ'] [ParseError ε' ι'] {C : Correspondence ι σ ε ι' σ' ε'}
  {α α' β β' γ γ' : Type} {V : α → α' → Prop} {W : β → β' → Prop} {U : γ → γ' → Prop}
  {p : Parser ι ε α} {p' : Parser ι' ε' α'} {q : Parser ι ε β} {q' : Parser ι' ε' β'}
  {s : Parser ι ε γ} {s' : Parser ι' ε' γ'}

namespace Parsers

/-! ## Without looking -/

theorem succeed {v : α} {v' : α'} (hv : V v v') :
    C.Parsers V (Parser.succeed v) (Parser.succeed v') :=
  fun _ _ hi => .success hv hi (C.follows_refl hi)

theorem fail (kind : ErrorKind) :
    C.Parsers V (Parser.fail kind : Parser ι ε α) (Parser.fail kind) :=
  fun _ _ hi => .reject kind hi

theorem failFatally (kind : ErrorKind) :
    C.Parsers V (Parser.failFatally kind : Parser ι ε α) (Parser.failFatally kind) :=
  fun _ _ hi => .fatal (C.error_ofKind kind hi)

theorem askForMore (h : C.lax ∨ C.waits) :
    C.Parsers V (Parser.askForMore : Parser ι ε α) Parser.askForMore := by
  intro i i' _
  rcases h with hlax | hwaits
  · exact .undecided _ hlax
  · exact .incomplete hwaits

/-! ## Values -/

theorem map {f : α → β} {f' : α' → β'} (hp : C.Parsers V p p')
    (hf : ∀ {v v'}, V v v' → W (f v) (f' v')) :
    C.Parsers W (Parser.map f p) (Parser.map f' p') :=
  fun _ _ hi => (hp hi).map hf

theorem mapRes {f : α → Option β} {f' : α' → Option β'} (hp : C.Parsers V p p')
    (hf : ∀ {v v'}, V v v' → Option.Rel W (f v) (f' v')) :
    C.Parsers W (Parser.mapRes f p) (Parser.mapRes f' p') := by
  intro i i' hi
  refine (hp hi).andThen fun {v v' r r'} hv hr hfollows => ?_
  have hconverted := hf hv
  generalize f v = converted at hconverted
  generalize f' v' = converted' at hconverted
  cases hconverted with
  | none => exact .reject .mapRes hi
  | some hw => exact .success hw hr hfollows

theorem replace {w : β} {w' : β'} (hp : C.Parsers V p p') (hw : W w w') :
    C.Parsers W (Parser.replace w p) (Parser.replace w' p') :=
  hp.map fun _ => hw

theorem verify {check : α → Bool} {check' : α' → Bool} (hp : C.Parsers V p p')
    (hcheck : ∀ {v v'}, V v v' → check v = check' v') :
    C.Parsers V (Parser.verify check p) (Parser.verify check' p') := by
  intro i i' hi
  refine (hp hi).andThen fun {v v' r r'} hv hr hfollows => ?_
  rw [hcheck hv]
  split
  · exact .success hv hr hfollows
  · exact .reject .verify hi

theorem recognize (hp : C.Parsers V p p') :
    C.Parsers C.piece (Parser.recognize p) (Parser.recognize p') := by
  intro i i' hi
  refine (hp hi).andThen fun {v v' r r'} _ hr hfollows => ?_
  rw [← C.consumed?_eq hi hr hfollows]
  cases hconsumed : Parser.consumed? i r with
  | none => exact .stuck (C.grown hi hr hfollows hconsumed)
  | some n =>
    rcases C.spanned hi hr hfollows hconsumed with ⟨hb, hb', hpiece⟩ | ⟨hb, hb', hfault⟩
    · simp only [Parser.cut, hb, hb', if_true]
      exact .success hpiece hr hfollows
    · simp only [Parser.cut, hb, hb']
      exact .stuck hfault

/-! ## Failures -/

theorem mapError {f : ε → ε} {f' : ε' → ε'} (hp : C.Parsers V p p')
    (hf : ∀ {i e e'}, C.error i e e' → C.error i (f e) (f' e')) :
    C.Parsers V (Parser.mapError f p) (Parser.mapError f' p') :=
  fun _ _ hi => (hp hi).mapFailure hf

theorem context (kind : ErrorKind) (hp : C.Parsers V p p') :
    C.Parsers V (Parser.context kind p) (Parser.context kind p') :=
  fun _ _ hi => (hp hi).mapFailure (C.error_wrap kind hi)

theorem commit (hp : C.Parsers V p p') :
    C.Parsers V (Parser.commit p) (Parser.commit p') := by
  intro i i' hi
  have h := hp hi
  unfold Runs at h
  change C.Replies V i ((p i).reply.mapFailure Failure.intoFatal)
    ((p' i').reply.mapFailure Failure.intoFatal)
  generalize (p i).reply = reply at h
  generalize (p' i').reply = reply' at h
  cases h with
  | success hv hr hfollows => exact .success hv hr hfollows
  | recoverable he => exact .fatal he
  | fatal he => exact .fatal he
  | incomplete hwaits => exact .incomplete hwaits
  | undecided _ hlax => exact .undecided _ hlax
  | stuck hfault => exact .stuck hfault

/-- Completing a parser tells a request for more input from a decision, so it is compared only
where both runs make the request together. -/
theorem complete (hlax : ¬ C.lax) (hp : C.Parsers V p p') :
    C.Parsers V (Parser.complete p) (Parser.complete p') := by
  intro i i' hi
  have h := hp hi
  unfold Runs at h
  unfold Parser.complete
  generalize p i = run at h ⊢
  generalize p' i' = run' at h ⊢
  rcases run with ⟨log, reply⟩
  rcases run' with ⟨log', reply'⟩
  cases h with
  | success hv hr hfollows => exact .success hv hr hfollows
  | recoverable he => exact .recoverable he
  | fatal he => exact .fatal he
  | incomplete _ => exact (Runs.reject .eof hi).after log log'
  | undecided _ h => exact absurd h hlax
  | stuck hfault => exact .stuck hfault

/-! ## Options and lookahead -/

theorem opt (hp : C.Parsers V p p') :
    C.Parsers (Option.Rel V) (Parser.opt p) (Parser.opt p') := by
  intro i i' hi
  refine (hp hi).handle (fun hv hr hfollows => ?_) fun _ => ?_
  · exact .success (.some hv) hr hfollows
  · exact .success .none hi (C.follows_refl hi)

theorem cond (condition : Bool) (hp : C.Parsers V p p') :
    C.Parsers (Option.Rel V) (Parser.cond condition p) (Parser.cond condition p') := by
  intro i i' hi
  unfold Parser.cond
  cases condition with
  | false => exact .success .none hi (C.follows_refl hi)
  | true => exact (hp hi).map .some

theorem peek (hp : C.Parsers V p p') : C.Parsers V (Parser.peek p) (Parser.peek p') := by
  intro i i' hi
  refine (hp hi).andThen fun hv _ _ => ?_
  exact .success hv hi (C.follows_refl hi)

theorem not (hp : C.Parsers V p p') : C.Parsers Eq (Parser.not p) (Parser.not p') := by
  intro i i' hi
  refine (hp hi).handle (fun _ _ _ => ?_) fun _ => ?_
  · exact .reject .not hi
  · exact .success rfl hi (C.follows_refl hi)

/-! ## The end of the input -/

theorem eof (hempty : ∀ {i i'}, C.input i i' → Input.isEmpty i = Input.isEmpty i') :
    C.Parsers Eq (Parser.eof : Parser ι ε Unit) Parser.eof := by
  intro i i' hi
  unfold Parser.eof
  rw [hempty hi]
  split
  · exact .success rfl hi (C.follows_refl hi)
  · exact .reject .eof hi

theorem restLength (hlength : ∀ {i i'}, C.input i i' → Input.length i = Input.length i') :
    C.Parsers Eq (Parser.restLength : Parser ι ε Nat) Parser.restLength :=
  fun _ _ hi => .success (hlength hi) hi (C.follows_refl hi)

theorem allConsuming (hempty : ∀ {i i'}, C.input i i' → Input.isEmpty i = Input.isEmpty i')
    (hp : C.Parsers V p p') :
    C.Parsers V (Parser.allConsuming p) (Parser.allConsuming p') := by
  intro i i' hi
  refine (hp hi).andThen fun hv hr hfollows => ?_
  rw [hempty hr]
  split
  · exact .success hv hr hfollows
  · exact (Runs.reject .eof hr).mono hfollows

/-! ## Tracing -/

theorem traced (rule : String) (hp : C.Parsers V p p') :
    C.Parsers V (Parser.traced rule p) (Parser.traced rule p') := by
  intro i i' hi
  have h := hp hi
  unfold Runs at h
  unfold Parser.traced
  generalize p i = run at h ⊢
  generalize p' i' = run' at h ⊢
  rcases run with ⟨log, reply⟩
  rcases run' with ⟨log', reply'⟩
  cases h with
  | success hv hr hfollows =>
    simp only [Parser.outcome?]
    rw [← C.consumed?_eq hi hr hfollows]
    cases hconsumed : Parser.consumed? i _ with
    | none => exact .stuck (C.grown hi hr hfollows hconsumed)
    | some n => exact .success hv hr hfollows
  | recoverable he => exact .recoverable he
  | fatal he => exact .fatal he
  | incomplete hwaits => exact .incomplete hwaits
  | undecided _ hlax => exact .undecided _ hlax
  | stuck hfault => exact .stuck hfault

/-! ## Sequences -/

theorem pair (hp : C.Parsers V p p') (hq : C.Parsers W q q') :
    C.Parsers (fun both both' => V both.1 both'.1 ∧ W both.2 both'.2)
      (Parser.pair p q) (Parser.pair p' q') := by
  intro i i' hi
  refine (hp hi).andThen fun hv hr hfollows => ?_
  exact ((hq hr).mono hfollows).map fun hw => ⟨hv, hw⟩

theorem separatedPair (hp : C.Parsers V p p') (hs : C.Parsers U s s') (hq : C.Parsers W q q') :
    C.Parsers (fun both both' => V both.1 both'.1 ∧ W both.2 both'.2)
      (Parser.separatedPair p s q) (Parser.separatedPair p' s' q') := by
  intro i i' hi
  refine (hp hi).andThen fun hv hr hfollows => ?_
  refine .mono hfollows ((hs hr).andThen fun _ hr' hfollows' => ?_)
  exact ((hq hr').mono hfollows').map fun hw => ⟨hv, hw⟩

theorem delimited (hs : C.Parsers U s s') (hp : C.Parsers V p p') (hq : C.Parsers W q q') :
    C.Parsers V (Parser.delimited s p q) (Parser.delimited s' p' q') := by
  intro i i' hi
  refine (hs hi).andThen fun _ hr hfollows => ?_
  refine .mono hfollows ((hp hr).andThen fun hv hr' hfollows' => ?_)
  exact ((hq hr').mono hfollows').map fun _ => hv

theorem preceded (hs : C.Parsers U s s') (hp : C.Parsers V p p') :
    C.Parsers V (Parser.preceded s p) (Parser.preceded s' p') := by
  intro i i' hi
  refine (hs hi).andThen fun _ hr hfollows => ?_
  exact (hp hr).mono hfollows

theorem terminated (hp : C.Parsers V p p') (hq : C.Parsers W q q') :
    C.Parsers V (Parser.terminated p q) (Parser.terminated p' q') := by
  intro i i' hi
  refine (hp hi).andThen fun hv hr hfollows => ?_
  exact ((hq hr).mono hfollows).map fun _ => hv

/-! ## Choices -/

theorem either {q : Parser ι ε α} {q' : Parser ι' ε' α'} (hp : C.Parsers V p p')
    (hq : C.Parsers V q q') : C.Parsers V (Parser.either p q) (Parser.either p' q') := by
  intro i i' hi
  refine (hp hi).handle .success fun _ => ?_
  exact hq hi

theorem choice (hp : C.Parsers V p p') :
    C.Parsers V (Parser.choice p) (Parser.choice p') := by
  intro i i' hi
  refine (hp hi).handle .success fun he => ?_
  exact .wrap .alt hi he

end Parsers

end ParseKit.Correspondence
