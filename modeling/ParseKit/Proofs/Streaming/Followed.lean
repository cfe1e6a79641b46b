/-
  Inputs with more behind them.

  A view is followed by some symbols to another view if the other one
  begins in the same place and shows those symbols behind the same ones.
  Two parses of such views stand side by side as long as no scanner looks
  beyond the shorter one: remainders and positions are followed by the same
  symbols, and pieces show the same.
-/
import ParseKit.Proofs.Confinement
import ParseKit.Proofs.Input.Slice
import ParseKit.Proofs.Input.Text
import ParseKit.Proofs.Scan.Finality

set_option autoImplicit false

namespace ParseKit

open LawfulInput

/-! ## Outcomes -/

/-- Errors of the same levels with related positions. -/
inductive Cause.Related {ι ι' : Type} (I : ι → ι' → Prop) : Cause ι → Cause ι' → Prop
  | root {i i'} (kind) : I i i' → Related I (.root i kind) (.root i' kind)
  | context {i i' e e'} (kind) : I i i' → Related I e e' →
    Related I (.context i kind e) (.context i' kind e')

/-- Answers of one sort that carry related things.  No answer asks for more input, and both may
only be stuck for want of room for what they count. -/
inductive Reply.Answers {ι ε α ι' ε' α' : Type} (V : α → α' → Prop) (I : ι → ι' → Prop)
    (E : ε → ε' → Prop) : Reply ι ε α → Reply ι' ε' α' → Prop
  | success {v v' r r'} : V v v' → I r r' → Answers V I E (.success v r) (.success v' r')
  | recoverable {e e'} : E e e' →
    Answers V I E (.failure (.recoverable e)) (.failure (.recoverable e'))
  | fatal {e e'} : E e e' → Answers V I E (.failure (.fatal e)) (.failure (.fatal e'))
  | unreserved : Answers V I E (.stuck .unreserved) (.stuck .unreserved)

theorem Reply.Answers.ne_incomplete {ι ε α ι' ε' α' : Type} {V : α → α' → Prop}
    {I : ι → ι' → Prop} {E : ε → ε' → Prop} {reply : Reply ι ε α} {reply' : Reply ι' ε' α'}
    (h : Answers V I E reply reply') :
    reply ≠ .failure .incomplete ∧ reply' ≠ .failure .incomplete := by
  cases h <;> simp

/-! ## Views followed by symbols -/

section

variable {ι σ : Type} [Input ι σ] [LawfulInput ι σ]

/-- A view and one that shows more symbols behind the same ones. -/
structure Followed (more : List σ) (i i' : ι) : Prop where
  valid : Valid i
  valid' : Valid i'
  origin_eq : origin? i' = origin? i
  symbols_eq : Input.symbols i' = Input.symbols i ++ more

/-- Two views of the same symbols in the same place. -/
abbrev SameView (i i' : ι) : Prop := Followed ([] : List σ) i i'

namespace Followed

variable {more : List σ} {i i' r r' : ι}

theorem length_eq (h : Followed more i i') :
    Input.length i' = Input.length i + (storage ι).extent more := by
  rw [LawfulInput.length_eq h.valid', LawfulInput.length_eq h.valid, h.symbols_eq,
    Storage.extent_append]

theorem consumed?_eq (h : Followed more i i') (hr : Followed more r r') :
    Parser.consumed? i r = Parser.consumed? i' r' := by
  rw [Parser.consumed?, Parser.consumed?, h.length_eq, hr.length_eq]
  by_cases hle : Input.length r ≤ Input.length i
  · rw [if_pos hle, if_pos (by omega)]
    exact congrArg some (by omega)
  · rw [if_neg hle, if_neg (by omega)]

theorem take_eq (h : Followed more i i') {count : Nat} (hcount : count ≤ (Input.symbols i).length) :
    (Input.symbols i').take count = (Input.symbols i).take count := by
  rw [h.symbols_eq, List.take_append_of_le_length hcount]

/-- Splits behind the same symbols take the same views off, and leave views that are followed by
the same symbols. -/
theorem split (h : Followed more i i') {count : Nat} (hcount : count ≤ (Input.symbols i).length) :
    SameView (parts count i).1 (parts count i').1 ∧
      Followed more (parts count i).2 (parts count i').2 := by
  have hvalid := valid_parts h.valid count
  have hvalid' := valid_parts h.valid' count
  have hsymbols := symbols_parts h.valid count
  have hsymbols' := symbols_parts h.valid' count
  have horigin := origin_parts h.valid count
  have horigin' := origin_parts h.valid' count
  constructor
  · refine ⟨hvalid.1, hvalid'.1, ?_, ?_⟩
    · rw [horigin.1, horigin'.1, h.origin_eq]
    · rw [hsymbols.1, hsymbols'.1, h.take_eq hcount, List.append_nil]
  · refine ⟨hvalid.2, hvalid'.2, ?_, ?_⟩
    · rw [horigin.2, horigin'.2, h.origin_eq, h.take_eq hcount]
    · rw [hsymbols.2, hsymbols'.2, h.symbols_eq, List.drop_append_of_le_length hcount]

/-- Boundaries of a view are boundaries of what goes on behind it. -/
theorem isBoundary (h : Followed more i i') {n : Nat} (hn : Input.isBoundary i n = true) :
    Input.isBoundary i' n = true ∧
      SameView (Input.splitAt i n).1 (Input.splitAt i' n).1 := by
  obtain ⟨count, hcount, rfl, hsplit⟩ := splitAt_eq_parts h.valid hn
  rw [← h.take_eq hcount]
  refine ⟨isBoundary_take h.valid' count, ?_⟩
  rw [h.take_eq hcount, hsplit, ← h.take_eq hcount]
  exact (h.split hcount).1

end Followed

/-- Text goes on with characters. -/
theorem followed_text_iff {more : List Char} {t t' : Text} :
    Followed more t t' ↔ t' = t.append ⟨more⟩ := by
  constructor
  · intro h
    have hchars := h.symbols_eq
    rw [Text.symbols_eq, Text.symbols_eq] at hchars
    exact congrArg Text.mk hchars
  · rintro rfl
    exact ⟨trivial, trivial, rfl, by rw [Text.symbols_eq, Text.symbols_eq]; rfl⟩

/-- A slice goes on with elements. -/
theorem followed_slice_iff {σ : Type} [Symbol σ] {more l l' : List σ} :
    Followed more l l' ↔ l' = l ++ more := by
  constructor
  · intro h
    simpa only [symbols_slice] using h.symbols_eq
  · rintro rfl
    exact ⟨trivial, trivial, rfl, by rw [symbols_slice, symbols_slice]⟩

theorem faithful_sameView [Symbol σ] :
    Value.Faithful (SameView : ι → ι → Prop) (Eq : σ → σ → Prop) where
  spell_piece h := by rw [Input.spell, Input.spell, h.symbols_eq, List.append_nil]
  length_piece h := h.length_eq.symm
  code_piece h := by rw [h.symbols_eq, List.append_nil]
  spell_symbol h := h ▸ rfl
  code_symbol h := h ▸ rfl

end

/-! ## Parses of followed views -/

variable {ι σ : Type} [Input ι σ] [LawfulInput ι σ] [Symbol σ] {more : List σ} {lax : Prop}

/-- Two parses of views, the second with some symbols behind the first.  Neither gets stuck but for
want of room. -/
def Correspondence.followed (ι : Type) {σ : Type} [Input ι σ] [LawfulInput ι σ] [Symbol σ]
    (more : List σ) (lax : Prop) : Correspondence ι σ (Cause ι) ι σ (Cause ι) where
  input := Followed more
  follows := IsRemainder
  piece := SameView
  symbol := Eq
  error _ := Cause.Related (Followed more)
  lax := lax
  waits := False
  tolerates fault := fault = .unreserved
  follows_refl h := .refl h.valid
  follows_trans := @IsRemainder.trans ι σ _ _
  faithful := faithful_sameView
  error_mono _ h := h
  error_ofKind kind h := .root kind h
  error_wrap kind h he := .context kind h he
  consumed?_eq h hr _ := h.consumed?_eq hr
  grown _ _ hfollows hnone := (hfollows.consumed?_ne_none hnone).elim
  spanned h _ hfollows hsome := by
    have hboundary := hfollows.isBoundary hsome
    exact .inl ⟨hboundary, h.isBoundary hboundary⟩

namespace Correspondence

/-- A verdict on symbols that are there does not depend on those that follow. -/
theorem followed_verdict {i i' : ι} (h : Followed more i i') (s : Scan) {v : Verdict}
    (hv : ∀ count, v = .takes count → count ≤ (Input.symbols i).length) :
    (followed ι more lax).Runs (Value.Related SameView Eq) i (v.run s.value i)
      (v.run s.value i') := by
  cases v with
  | takes count =>
    have hcount := hv count rfl
    have hsplit := h.split hcount
    have hvalue : Value.Related SameView Eq
        (s.value (parts count i).1 ((Input.symbols i).take count))
        (s.value (parts count i').1 ((Input.symbols i').take count)) := by
      rw [h.take_eq hcount]
      exact s.value_related (fun h => h ▸ rfl) hsplit.1 (List.forall₂_same.2 fun _ _ => rfl)
    exact .success hvalue hsplit.2 (isRemainder_parts h.valid count)
  | refuses kind => exact .reject kind h

/-- An expression in two modes on two views corresponds if its scanners do and nothing else in it
looks at the input. -/
theorem followed_eval {sort : Mode → Scan → Prop} {f f' : Mode → Mode} {e : Expr}
    (he : e.Every (Expr.LooksBy sort))
    (hscan : ∀ mode s, sort mode s →
      (followed ι more lax).ValueParsers (s.parser (f mode)) (s.parser (f' mode)))
    (env env' : Expr.Env ι σ (Cause ι)) :
    (followed ι more lax).ValueParsers ((e.mapMode f).eval env) ((e.mapMode f').eval env') := by
  refine eval_related (he.imp fun {part} hpart => ?_)
  cases part with
  | scan mode s => exact hscan mode s hpart
  | askForMore => exact hpart.elim
  | eof => exact hpart.elim
  | rest => exact hpart.elim
  | restLength => exact hpart.elim
  | mapError g e => exact hpart.elim
  | allConsuming e => exact hpart.elim
  | complete e => exact hpart.elim
  | count n e => exact fun _ => rfl
  | ref name => exact hpart.elim
  | _ => trivial

/-- Corresponding replies are answers once the first one does not ask for more input. -/
theorem answers_of_followed {α : Type} {V : α → α → Prop} {i : ι}
    {reply reply' : Reply ι (Cause ι) α} (h : (followed ι more lax).Replies V i reply reply')
    (hreply : lax → reply ≠ .failure .incomplete) :
    Reply.Answers V (Followed more) (Cause.Related (Followed more)) reply reply' := by
  cases h with
  | success hv hr _ => exact .success hv hr
  | recoverable he => exact .recoverable he
  | fatal he => exact .fatal he
  | incomplete hwaits => exact hwaits.elim
  | undecided _ hlax => exact (hreply hlax rfl).elim
  | stuck hfault =>
    cases hfault
    exact .unreserved

end Correspondence

/-- An expression that looks at its input through scanners alone never gets stuck if there is room
for what it counts. -/
theorem Expr.ends_of_looksBy {ε : Type} [ParseError ε ι] {sort : Mode → Scan → Prop} {e : Expr}
    (he : e.Every (LooksBy sort)) (hroom : e.Reservable) (env : Expr.Env ι σ ε) {i : ι}
    (hi : Valid i) (fault : Fault) : (e.eval env i).reply ≠ .stuck fault := by
  have hclosed : e.Every fun part => part.isRef = false := he.imp fun {part} hpart => by
    cases part with
    | ref name => exact hpart.elim
    | _ => rfl
  exact Correspondence.tolerates_of_stuck
    (Correspondence.confined_eval_of_closed (fun _ => False) env (.inl hroom) hclosed) hi

end ParseKit
