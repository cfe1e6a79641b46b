/-
  Correspondences: what two parses side by side have in common.

  A correspondence relates the inputs, the pieces, the symbols and the errors
  of two parses.  Two replies correspond if they are of one sort and what
  they carry is related; two parsers correspond if related inputs always
  bring corresponding replies.  Combinators go on after a reply by
  `Run.handle` alone, so `Runs.handle` is the one lemma that all of them
  share.  A correspondence of a kind of input with itself that relates equal
  things states an invariant of a single parse.
-/
import ParseKit.Proofs.Value.Related

set_option autoImplicit false

namespace ParseKit

/-! ## Equal inputs -/

theorem Parser.consumed?_congr {ι σ : Type} [Input ι σ] {i i' r r' : ι} (hi : i = i')
    (hr : r = r') : consumed? i r = consumed? i' r' := by
  rw [hi, hr]

/-- Equal inputs are split into the same parts, or neither can be split. -/
theorem Input.splitAt_congr {ι σ : Type} [Input ι σ] {i i' : ι} (hi : i = i') (n : Nat) :
    (isBoundary i n = true ∧ isBoundary i' n = true ∧ (splitAt i n).1 = (splitAt i' n).1) ∨
      (isBoundary i n = false ∧ isBoundary i' n = false ∧ True) := by
  subst hi
  cases hn : isBoundary i n with
  | true => exact .inl ⟨rfl, rfl, rfl⟩
  | false => exact .inr ⟨rfl, rfl, trivial⟩

/-! ## What a correspondence relates -/

/-- What related parses agree on.  Errors are related as errors of a run on an input, so that
where they lie can be compared with it. -/
structure Correspondence (ι σ ε ι' σ' ε' : Type) [Input ι σ] [Symbol σ] [ParseError ε ι]
    [Input ι' σ'] [Symbol σ'] [ParseError ε' ι'] where
  input : ι → ι' → Prop
  /-- Which inputs may be left over from an input, in the first parse. -/
  follows : ι → ι → Prop
  piece : ι → ι' → Prop
  symbol : σ → σ' → Prop
  error : ι → ε → ε' → Prop
  /-- Nothing is asked of the second run once the first one asks for more input. -/
  lax : Prop
  /-- Both runs may ask for more input. -/
  waits : Prop
  /-- The faults both runs may get stuck with. -/
  tolerates : Fault → Prop
  follows_refl : ∀ {i i'}, input i i' → follows i i
  follows_trans : ∀ {i j k}, follows i j → follows j k → follows i k
  faithful : Value.Faithful piece symbol
  error_mono : ∀ {i r e e'}, follows i r → error r e e' → error i e e'
  error_ofKind : ∀ {i i'} (kind : ErrorKind), input i i' →
    error i (ParseError.ofKind i kind) (ParseError.ofKind i' kind)
  error_wrap : ∀ {i i' e e'} (kind : ErrorKind), input i i' → error i e e' →
    error i (ParseError.wrap e i kind) (ParseError.wrap e' i' kind)
  consumed?_eq : ∀ {i i' r r'}, input i i' → input r r' → follows i r →
    Parser.consumed? i r = Parser.consumed? i' r'
  grown : ∀ {i i' r r'}, input i i' → input r r' → follows i r → Parser.consumed? i r = none →
    tolerates .grown
  /-- What lies between an input and what is left of it is a piece of both inputs or of none. -/
  spanned : ∀ {i i' r r' n}, input i i' → input r r' → follows i r → Parser.consumed? i r = some n →
    (Input.isBoundary i n = true ∧ Input.isBoundary i' n = true ∧
        piece (Input.splitAt i n).1 (Input.splitAt i' n).1) ∨
      (Input.isBoundary i n = false ∧ Input.isBoundary i' n = false ∧ tolerates .offBoundary)

namespace Correspondence

variable {ι σ ε ι' σ' ε' : Type} [Input ι σ] [Symbol σ] [ParseError ε ι]
  [Input ι' σ'] [Symbol σ'] [ParseError ε' ι'] (C : Correspondence ι σ ε ι' σ' ε')
  {α α' β β' : Type} {V : α → α' → Prop} {W : β → β' → Prop}

/-! ## Corresponding replies -/

/-- Replies to an input that are of one sort and carry related things. -/
inductive Replies (V : α → α' → Prop) (i : ι) : Reply ι ε α → Reply ι' ε' α' → Prop
  | success {v v' r r'} : V v v' → C.input r r' → C.follows i r →
    Replies V i (.success v r) (.success v' r')
  | recoverable {e e'} : C.error i e e' →
    Replies V i (.failure (.recoverable e)) (.failure (.recoverable e'))
  | fatal {e e'} : C.error i e e' → Replies V i (.failure (.fatal e)) (.failure (.fatal e'))
  | incomplete : C.waits → Replies V i (.failure .incomplete) (.failure .incomplete)
  | undecided (reply') : C.lax → Replies V i (.failure .incomplete) reply'
  | stuck {fault} : C.tolerates fault → Replies V i (.stuck fault) (.stuck fault)

/-- Runs with corresponding replies.  Logs are not compared. -/
def Runs (V : α → α' → Prop) (i : ι) (run : Run ι ε α) (run' : Run ι' ε' α') : Prop :=
  C.Replies V i run.reply run'.reply

/-- Parsers that correspond on all related inputs. -/
def Parsers (V : α → α' → Prop) (p : Parser ι ε α) (p' : Parser ι' ε' α') : Prop :=
  ∀ ⦃i i'⦄, C.input i i' → C.Runs V i (p i) (p' i')

/-- Parsers of values that correspond. -/
abbrev ValueParsers (p : Parser ι ε (Value ι σ)) (p' : Parser ι' ε' (Value ι' σ')) : Prop :=
  C.Parsers (Value.Related C.piece C.symbol) p p'

variable {C} {i r : ι} {i' r' : ι'} {run : Run ι ε α} {run' : Run ι' ε' α'}

/-- Runs that correspond in one way do so in another one that asks for no more. -/
theorem Runs.change {C' : Correspondence ι σ ε ι' σ' ε'} {V' : α → α' → Prop} {j : ι}
    (h : C.Runs V i run run')
    (hsuccess : ∀ {v v' r r'}, V v v' → C.input r r' → C.follows i r →
      V' v v' ∧ C'.input r r' ∧ C'.follows j r)
    (herror : ∀ {e e'}, C.error i e e' → C'.error j e e') (hlax : C.lax → C'.lax)
    (hwaits : C.waits → C'.waits) (htolerates : ∀ {fault}, C.tolerates fault → C'.tolerates fault) :
    C'.Runs V' j run run' := by
  unfold Runs at h ⊢
  generalize run.reply = reply at h ⊢
  generalize run'.reply = reply' at h ⊢
  cases h with
  | success hv hr hf =>
    obtain ⟨hv', hr', hf'⟩ := hsuccess hv hr hf
    exact .success hv' hr' hf'
  | recoverable he => exact .recoverable (herror he)
  | fatal he => exact .fatal (herror he)
  | incomplete h => exact .incomplete (hwaits h)
  | undecided _ h => exact .undecided _ (hlax h)
  | stuck hfault => exact .stuck (htolerates hfault)

/-- What holds of a run on a remainder holds of a run on the input it is a remainder of. -/
theorem Runs.mono (hfollows : C.follows i r) (h : C.Runs V r run run') : C.Runs V i run run' :=
  h.change (fun hv hr hf => ⟨hv, hr, C.follows_trans hfollows hf⟩) (C.error_mono hfollows) id id id

/-- Values that are related more loosely. -/
theorem Runs.imp {V' : α → α' → Prop} (h : C.Runs V i run run')
    (hV : ∀ {v v'}, V v v' → V' v v') : C.Runs V' i run run' :=
  h.change (fun hv hr hf => ⟨hV hv, hr, hf⟩) id id id id

theorem Runs.after (log log' : List Signal) (h : C.Runs V i run run') :
    C.Runs V i (run.after log) (run'.after log') := h

/-- Going on after corresponding replies, as a run on an earlier input `o` whose errors
include those of the runs so far. -/
theorem Runs.handle_of_mono {o : ι} {onSuccess : α → ι → Run ι ε β}
    {onSuccess' : α' → ι' → Run ι' ε' β'} {onMiss : ε → Run ι ε β}
    {onMiss' : ε' → Run ι' ε' β'} (hmono : ∀ {e e'}, C.error i e e' → C.error o e e')
    (h : C.Runs V i run run')
    (hsuccess : ∀ {v v' r r'}, V v v' → C.input r r' → C.follows i r →
      C.Runs W o (onSuccess v r) (onSuccess' v' r'))
    (hmiss : ∀ {e e'}, C.error o e e' → C.Runs W o (onMiss e) (onMiss' e')) :
    C.Runs W o (run.handle onSuccess onMiss) (run'.handle onSuccess' onMiss') := by
  rcases run with ⟨log, reply⟩
  rcases run' with ⟨log', reply'⟩
  unfold Runs at h
  cases h with
  | success hv hr hf => exact (hsuccess hv hr hf).after log log'
  | recoverable he => exact (hmiss (hmono he)).after log log'
  | fatal he => exact .fatal (hmono he)
  | incomplete hwaits => exact .incomplete hwaits
  | undecided _ hlax => exact .undecided _ hlax
  | stuck hfault => exact .stuck hfault

/-- Going on after corresponding replies. -/
theorem Runs.handle {onSuccess : α → ι → Run ι ε β} {onSuccess' : α' → ι' → Run ι' ε' β'}
    {onMiss : ε → Run ι ε β} {onMiss' : ε' → Run ι' ε' β'} (h : C.Runs V i run run')
    (hsuccess : ∀ {v v' r r'}, V v v' → C.input r r' → C.follows i r →
      C.Runs W i (onSuccess v r) (onSuccess' v' r'))
    (hmiss : ∀ {e e'}, C.error i e e' → C.Runs W i (onMiss e) (onMiss' e')) :
    C.Runs W i (run.handle onSuccess onMiss) (run'.handle onSuccess' onMiss') :=
  h.handle_of_mono (fun he => he) hsuccess hmiss

/-! ## Runs that are told apart by nothing but a reply -/

theorem Runs.success {v : α} {v' : α'} (hv : V v v') (hr : C.input r r') (hf : C.follows i r) :
    C.Runs V i (Run.success v r) (Run.success v' r') :=
  Replies.success hv hr hf

theorem Runs.recoverable {e : ε} {e' : ε'} (he : C.error i e e') :
    C.Runs V i (Run.recoverable e) (Run.recoverable e') :=
  Replies.recoverable he

theorem Runs.reject (kind : ErrorKind) (hi : C.input i i') :
    C.Runs V i (Run.reject i kind) (Run.reject i' kind) :=
  Replies.recoverable (C.error_ofKind kind hi)

theorem Runs.wrap {e : ε} {e' : ε'} (kind : ErrorKind) (hi : C.input i i')
    (he : C.error i e e') :
    C.Runs V i (Run.recoverable (ParseError.wrap e i kind))
      (Run.recoverable (ParseError.wrap e' i' kind)) :=
  Replies.recoverable (C.error_wrap kind hi he)

/-! ## Going on after a success -/

/-- Going on after a success of the first run that is known. -/
theorem Runs.andThen_of_success {onSuccess : α → ι → Run ι ε β}
    {onSuccess' : α' → ι' → Run ι' ε' β'} (h : C.Runs V i run run')
    (hsuccess : ∀ {v v' r r'}, run.reply = .success v r → V v v' → C.input r r' →
      C.follows i r → C.Runs W i (onSuccess v r) (onSuccess' v' r')) :
    C.Runs W i (run.andThen onSuccess) (run'.andThen onSuccess') := by
  rcases run with ⟨log, reply⟩
  rcases run' with ⟨log', reply'⟩
  unfold Runs at h
  cases h with
  | success hv hr hf => exact (hsuccess rfl hv hr hf).after log log'
  | recoverable he => exact .recoverable he
  | fatal he => exact .fatal he
  | incomplete hwaits => exact .incomplete hwaits
  | undecided _ hlax => exact .undecided _ hlax
  | stuck hfault => exact .stuck hfault

theorem Runs.andThen {onSuccess : α → ι → Run ι ε β} {onSuccess' : α' → ι' → Run ι' ε' β'}
    (h : C.Runs V i run run')
    (hsuccess : ∀ {v v' r r'}, V v v' → C.input r r' → C.follows i r →
      C.Runs W i (onSuccess v r) (onSuccess' v' r')) :
    C.Runs W i (run.andThen onSuccess) (run'.andThen onSuccess') :=
  h.andThen_of_success fun _ => hsuccess

theorem Runs.map {f : α → β} {f' : α' → β'} (h : C.Runs V i run run')
    (hf : ∀ {v v'}, V v v' → W (f v) (f' v')) : C.Runs W i (run.map f) (run'.map f') := by
  rcases run with ⟨log, reply⟩
  rcases run' with ⟨log', reply'⟩
  unfold Runs at h
  cases h with
  | success hv hr hfollows => exact .success (hf hv) hr hfollows
  | recoverable he => exact .recoverable he
  | fatal he => exact .fatal he
  | incomplete hwaits => exact .incomplete hwaits
  | undecided _ hlax => exact .undecided _ hlax
  | stuck hfault => exact .stuck hfault

/-- Runs correspond that do so once their values are changed. -/
theorem Runs.of_map {f : α → β} {f' : α' → β'} (hf : ∀ {v v'}, W (f v) (f' v') → V v v')
    (h : C.Runs W i (run.map f) (run'.map f')) : C.Runs V i run run' := by
  rcases run with ⟨log, reply⟩
  rcases run' with ⟨log', reply'⟩
  unfold Runs at h ⊢
  cases reply with
  | success v r =>
    cases reply' with
    | success v' r' =>
      cases h with
      | success hv hr hfollows => exact .success (hf hv) hr hfollows
    | failure failure' => cases h
    | stuck fault' => cases h
  | failure failure =>
    cases reply' with
    | success v' r' =>
      cases h with
      | undecided _ hlax => exact .undecided _ hlax
    | failure failure' =>
      cases h with
      | recoverable he => exact .recoverable he
      | fatal he => exact .fatal he
      | incomplete hwaits => exact .incomplete hwaits
      | undecided _ hlax => exact .undecided _ hlax
    | stuck fault' =>
      cases h with
      | undecided _ hlax => exact .undecided _ hlax
  | stuck fault =>
    cases reply' with
    | success v' r' => cases h
    | failure failure' => cases h
    | stuck fault' =>
      cases h with
      | stuck hfault => exact .stuck hfault

/-- Changing the errors of failures. -/
theorem Runs.mapFailure {f : ε → ε} {f' : ε' → ε'} (h : C.Runs V i run run')
    (hf : ∀ {e e'}, C.error i e e' → C.error i (f e) (f' e')) :
    C.Runs V i (run.mapFailure (Failure.map f)) (run'.mapFailure (Failure.map f')) := by
  rcases run with ⟨log, reply⟩
  rcases run' with ⟨log', reply'⟩
  unfold Runs at h
  cases h with
  | success hv hr hfollows => exact .success hv hr hfollows
  | recoverable he => exact .recoverable (hf he)
  | fatal he => exact .fatal (hf he)
  | incomplete hwaits => exact .incomplete hwaits
  | undecided _ hlax => exact .undecided _ hlax
  | stuck hfault => exact .stuck hfault

/-! ## Fewer inputs -/

/-- The same correspondence on some inputs of the first parse alone. -/
def restrict (C : Correspondence ι σ ε ι' σ' ε') (P : ι → Prop) :
    Correspondence ι σ ε ι' σ' ε' where
  input i i' := C.input i i' ∧ P i
  follows := C.follows
  piece := C.piece
  symbol := C.symbol
  error := C.error
  lax := C.lax
  waits := C.waits
  tolerates := C.tolerates
  follows_refl h := C.follows_refl h.1
  follows_trans := C.follows_trans
  faithful := C.faithful
  error_mono := C.error_mono
  error_ofKind kind h := C.error_ofKind kind h.1
  error_wrap kind h := C.error_wrap kind h.1
  consumed?_eq h hr := C.consumed?_eq h.1 hr.1
  grown h hr := C.grown h.1 hr.1
  spanned h hr := C.spanned h.1 hr.1

variable {P : ι → Prop}

theorem Runs.of_restrict (h : (C.restrict P).Runs V i run run') : C.Runs V i run run' :=
  h.change (fun hv hr hf => ⟨hv, hr.1, hf⟩) id id id id

/-- Nothing is lost on an input if all that may be left of it is among the fewer inputs. -/
theorem Runs.restrict (hP : ∀ {r}, C.follows i r → P r) (h : C.Runs V i run run') :
    (C.restrict P).Runs V i run run' :=
  h.change (fun hv hr hf => ⟨hv, ⟨hr, hP hf⟩, hf⟩) id id id id

/-! ## Progress -/

/-- Related inputs are shortened together. -/
theorem shortens_iff (hi : C.input i i') (hr : C.input r r') (hf : C.follows i r) :
    Input.length r < Input.length i ↔ Input.length r' < Input.length i' := by
  have h := C.consumed?_eq hi hr hf
  unfold Parser.consumed? at h
  split at h <;> split at h
  · have := Option.some.inj h
    omega
  · cases h
  · cases h
  · omega

/-- Related inputs stay as long as they were together. -/
theorem keeps_length_iff (hi : C.input i i') (hr : C.input r r') (hf : C.follows i r) :
    Input.length r = Input.length i ↔ Input.length r' = Input.length i' := by
  have h := C.consumed?_eq hi hr hf
  unfold Parser.consumed? at h
  split at h <;> split at h
  · have := Option.some.inj h
    omega
  · cases h
  · cases h
  · omega

/-- Going on behind remainders that are shorter than the inputs.  Behind any other two both
repetitions stall alike: with an error at `place`, or because the remainders are too long. -/
theorem Runs.unless_stalled {o place : ι} {place' : ι'} {event event' : Event} (kind : ErrorKind)
    {run : Input.length r < Input.length i → Run ι ε α}
    {run' : Input.length r' < Input.length i' → Run ι' ε' α'} (hi : C.input i i')
    (hr : C.input r r') (hf : C.follows i r) (hplace : C.input place place')
    (ho : C.follows o place) (h : ∀ hlt hlt', C.Runs V o (run hlt) (run' hlt')) :
    C.Runs V o (if hlt : Input.length r < Input.length i then run hlt
        else .stalled event kind place i r)
      (if hlt : Input.length r' < Input.length i' then run' hlt
        else .stalled event' kind place' i' r') := by
  rcases Nat.lt_trichotomy (Input.length r) (Input.length i) with hlt | hlength | hgrown
  · rw [dif_pos hlt, dif_pos ((shortens_iff hi hr hf).1 hlt)]
    exact h _ _
  · have hlength' := (keeps_length_iff hi hr hf).1 hlength
    rw [dif_neg (by omega), dif_neg (by omega), Run.stalled_of_eq hlength,
      Run.stalled_of_eq hlength']
    exact (Runs.reject kind hplace).mono ho
  · have hlt' := mt (shortens_iff hi hr hf).2 (Nat.lt_asymm hgrown)
    have hlength' := mt (keeps_length_iff hi hr hf).2 (Nat.ne_of_gt hgrown)
    rw [dif_neg (by omega), dif_neg hlt', Run.stalled_of_ne (by omega),
      Run.stalled_of_ne hlength']
    exact .stuck (C.grown hi hr hf (if_neg (by omega)))

end Correspondence

end ParseKit
