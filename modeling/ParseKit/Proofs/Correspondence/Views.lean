/-
  Views that show the same.

  Two views of different kinds stand side by side if they show symbols that
  are stored, read and spelled alike.  No parser tells such views apart, so
  what it makes of them is the same seen from anywhere: a standpoint maps
  the inputs and the pieces of both parses to common places, in a way that
  splits respect, and parses that begin in the same place end in the same
  place.
-/
import ParseKit.Proofs.Correspondence.Expr
import ParseKit.Proofs.Relocation
import ParseKit.Proofs.Scan.Judgement

set_option autoImplicit false

namespace ParseKit

open LawfulInput

/-! ## Symbols that are stored alike -/

section

variable {σ σ' : Type} [Symbol σ] [Symbol σ']

/-- A correspondence of symbols that keeps what parsers and values see of them. -/
structure Storage.Alike (st : Storage σ) (st' : Storage σ') (S : σ → σ' → Prop) : Prop where
  width_eq : ∀ {s s'}, S s s' → st.width s = st'.width s'
  code_eq : ∀ {s s'}, S s s' → Symbol.code s = Symbol.code s'
  char?_eq : ∀ {s s'}, S s s' → Symbol.char? s = Symbol.char? s'
  spell_eq : ∀ {l l'}, List.Forall₂ S l l' → Symbol.spell l = Symbol.spell l'

namespace Storage.Alike

theorem of_eq {st st' : Storage σ} (h : st = st') : st.Alike st' Eq where
  width_eq hs := h ▸ hs ▸ rfl
  code_eq hs := hs ▸ rfl
  char?_eq hs := hs ▸ rfl
  spell_eq hl := by
    rw [List.forall₂_eq_eq_eq] at hl
    rw [hl]

variable {st : Storage σ} {st' : Storage σ'} {S : σ → σ' → Prop} {l : List σ} {l' : List σ'}

theorem extent_eq (h : st.Alike st' S) (hl : List.Forall₂ S l l') :
    st.extent l = st'.extent l' := by
  induction hl with
  | nil => rfl
  | cons hs _ ih => rw [extent_cons, extent_cons, h.width_eq hs, ih]

theorem map_code_eq (h : st.Alike st' S) (hl : List.Forall₂ S l l') :
    l.map Symbol.code = l'.map Symbol.code := by
  induction hl with
  | nil => rfl
  | cons hs _ ih => rw [List.map_cons, List.map_cons, h.code_eq hs, ih]

end Storage.Alike

/-- A scanner judges corresponding symbols alike. -/
def Scan.JudgesAlike (st : Storage σ) (st' : Storage σ') (S : σ → σ' → Prop) (s : Scan) : Prop :=
  ∀ {l l'}, List.Forall₂ S l l' → s.judge st l = s.judge st' l'

/-- An expression all of whose scanners judge corresponding symbols alike. -/
def Expr.JudgesAlike (st : Storage σ) (st' : Storage σ') (S : σ → σ' → Prop) (e : Expr) : Prop :=
  e.Every fun part => ∀ mode s, part = .scan mode s → s.JudgesAlike st st' S

end

/-! ## Views side by side -/

section

variable {ι σ ι' σ' : Type} [Input ι σ] [LawfulInput ι σ] [Symbol σ]
  [Input ι' σ'] [LawfulInput ι' σ'] [Symbol σ']

/-- Valid views of corresponding symbols. -/
structure Alongside (S : σ → σ' → Prop) (i : ι) (i' : ι') : Prop where
  valid : Valid i
  valid' : Valid i'
  symbols : List.Forall₂ S (Input.symbols i) (Input.symbols i')

namespace Alongside

variable {S : σ → σ' → Prop} {i r : ι} {i' r' : ι'}

theorem length_eq (hS : (storage ι).Alike (storage ι') S) (h : Alongside S i i') :
    Input.length i = Input.length i' := by
  rw [LawfulInput.length_eq h.valid, LawfulInput.length_eq h.valid', hS.extent_eq h.symbols]

theorem isEmpty_eq (hS : (storage ι).Alike (storage ι') S) (h : Alongside S i i') :
    Input.isEmpty i = Input.isEmpty i' := by
  rw [Input.isEmpty, Input.isEmpty, h.length_eq hS]

theorem consumed?_eq (hS : (storage ι).Alike (storage ι') S) (h : Alongside S i i')
    (hr : Alongside S r r') : Parser.consumed? i r = Parser.consumed? i' r' := by
  rw [Parser.consumed?, Parser.consumed?, h.length_eq hS, hr.length_eq hS]

theorem extent_take_eq (hS : (storage ι).Alike (storage ι') S) (h : Alongside S i i')
    (count : Nat) :
    (storage ι).extent ((Input.symbols i).take count) =
      (storage ι').extent ((Input.symbols i').take count) :=
  hS.extent_eq (List.forall₂_take count h.symbols)

omit [Symbol σ] [Symbol σ'] in
/-- Views side by side split behind the same symbols into views side by side. -/
theorem parts (h : Alongside S i i') (count : Nat) :
    Alongside S (LawfulInput.parts count i).1 (LawfulInput.parts count i').1 ∧
      Alongside S (LawfulInput.parts count i).2 (LawfulInput.parts count i').2 := by
  have hvalid := valid_parts h.valid count
  have hvalid' := valid_parts h.valid' count
  have hsymbols := symbols_parts h.valid count
  have hsymbols' := symbols_parts h.valid' count
  constructor
  · refine ⟨hvalid.1, hvalid'.1, ?_⟩
    rw [hsymbols.1, hsymbols'.1]
    exact List.forall₂_take count h.symbols
  · refine ⟨hvalid.2, hvalid'.2, ?_⟩
    rw [hsymbols.2, hsymbols'.2]
    exact List.forall₂_drop count h.symbols

/-- Views side by side have the same boundaries. -/
theorem splitAt (hS : (storage ι).Alike (storage ι') S) (h : Alongside S i i') {n : Nat}
    (hn : Input.isBoundary i n = true) :
    Input.isBoundary i' n = true ∧ Alongside S (Input.splitAt i n).1 (Input.splitAt i' n).1 ∧
      Alongside S (Input.splitAt i n).2 (Input.splitAt i' n).2 := by
  obtain ⟨count, -, rfl, hsplit⟩ := splitAt_eq_parts h.valid hn
  have hparts := h.parts count
  rw [← hsplit, LawfulInput.parts, ← h.extent_take_eq hS count] at hparts
  refine ⟨?_, hparts⟩
  rw [h.extent_take_eq hS count]
  exact isBoundary_take h.valid' count

end Alongside

/-! ## Standpoints -/

/-- Where inputs and pieces of two parses are looked at from, so that those of the one can be
told equal to those of the other.  Splits at the same boundary lead to the same places. -/
structure Standpoint (ι ι' : Type) {σ σ' : Type} [Input ι σ] [LawfulInput ι σ] [Input ι' σ']
    [LawfulInput ι' σ'] (S : σ → σ' → Prop) (P Q : Type) where
  place : ι → P
  place' : ι' → P
  part : ι → Q
  part' : ι' → Q
  splitAt : ∀ {i i' n}, Alongside S i i' → place i = place' i' → Input.isBoundary i n = true →
    Alongside S (Input.splitAt i n).1 (Input.splitAt i' n).1 →
    Alongside S (Input.splitAt i n).2 (Input.splitAt i' n).2 →
      part (Input.splitAt i n).1 = part' (Input.splitAt i' n).1 ∧
        place (Input.splitAt i n).2 = place' (Input.splitAt i' n).2

variable {S : σ → σ' → Prop} {P Q : Type} {E : Type → Type} [∀ ι, ParseError (E ι) ι]
  [ErrorFamily E]

/-- Two parses of views side by side, seen from a standpoint. -/
def Correspondence.views (E : Type → Type) [∀ ι, ParseError (E ι) ι] [ErrorFamily E]
    (hS : (storage ι).Alike (storage ι') S) (v : Standpoint ι ι' S P Q) :
    Correspondence ι σ (E ι) ι' σ' (E ι') where
  input i i' := Alongside S i i' ∧ v.place i = v.place' i'
  follows := IsRemainder
  piece p p' := Alongside S p p' ∧ v.part p = v.part' p'
  symbol := S
  error _ e e' := ErrorFamily.map v.place e = ErrorFamily.map v.place' e' ∧
    ErrorFamily.map (fun i : ι => (Input.symbols i).map Symbol.code) e =
      ErrorFamily.map (fun i : ι' => (Input.symbols i).map Symbol.code) e'
  lax := False
  waits := True
  tolerates _ := True
  follows_refl h := .refl h.1.valid
  follows_trans := @IsRemainder.trans ι σ _ _
  faithful :=
    { spell_piece h := hS.spell_eq h.1.symbols
      length_piece h := h.1.length_eq hS
      code_piece h := hS.map_code_eq h.1.symbols
      spell_symbol h := hS.spell_eq (.cons h .nil)
      code_symbol h := hS.code_eq h }
  error_mono _ h := h
  error_ofKind kind h := by
    simp only [ErrorFamily.map_ofKind, h.2, hS.map_code_eq h.1.symbols, and_self]
  error_wrap kind h he := by
    simp only [ErrorFamily.map_wrap, h.2, hS.map_code_eq h.1.symbols, he.1, he.2, and_self]
  consumed?_eq h hr _ := h.1.consumed?_eq hS hr.1
  grown _ _ _ _ := trivial
  spanned h _ hfollows hsome := by
    have hboundary := hfollows.isBoundary hsome
    obtain ⟨hboundary', hhead, hrest⟩ := h.1.splitAt hS hboundary
    exact .inl ⟨hboundary, hboundary', hhead,
      (v.splitAt h.1 h.2 hboundary hhead hrest).1⟩

namespace Correspondence

variable {hS : (storage ι).Alike (storage ι') S} {v : Standpoint ι ι' S P Q}

/-- The parts of views side by side, seen from a standpoint. -/
theorem views_parts {i : ι} {i' : ι'} (h : (views E hS v).input i i') (count : Nat) :
    (views E hS v).piece (parts count i).1 (parts count i').1 ∧
      (views E hS v).input (parts count i).2 (parts count i').2 := by
  obtain ⟨hhead, hrest⟩ := h.1.parts count
  have hseen := v.splitAt (n := (storage ι).extent ((Input.symbols i).take count)) h.1 h.2
    (isBoundary_take h.1.valid count)
  rw [parts, parts, ← h.1.extent_take_eq hS count] at hhead hrest ⊢
  obtain ⟨hpart, hplace⟩ := hseen hhead hrest
  exact ⟨⟨hhead, hpart⟩, hrest, hplace⟩

theorem views_scan {s : Scan} (hs : s.JudgesAlike (storage ι) (storage ι') S) (mode : Mode) :
    (views E hS v).ValueParsers (s.parser mode) (s.parser mode) := by
  intro i i' h
  rw [Scan.parser_eq h.1.valid, Scan.parser_eq h.1.valid', ← hs h.1.symbols]
  generalize s.judge (storage ι) (Input.symbols i) = j
  refine Judgement.run_related ?_ (.incomplete trivial) mode
  cases j.verdict with
  | takes count =>
    have hparts := views_parts h count
    exact .success
      (s.value_related hS.char?_eq hparts.1 (List.forall₂_take count h.1.symbols)) hparts.2
      (isRemainder_parts h.1.valid count)
  | refuses kind => exact .reject kind h

theorem views_rest : (views E hS v).Parsers (views E hS v).piece Parser.rest Parser.rest := by
  intro i i' h
  have hparts := views_parts h (Input.symbols i).length
  unfold Parser.rest
  rw [Parser.cut_length h.1.valid, Parser.cut_length h.1.valid', ← h.1.symbols.length_eq]
  exact .success hparts.1 hparts.2 (isRemainder_parts h.1.valid _)

/-- An expression makes the same of views side by side if the rules it refers to do. -/
theorem views_eval {e : Expr} (he : e.JudgesAlike (storage ι) (storage ι') S)
    {env : Expr.Env ι σ (E ι)} {env' : Expr.Env ι' σ' (E ι')}
    (henv : ∀ name, (views E hS v).ValueParsers (env name) (env' name)) :
    (views E hS v).ValueParsers (e.eval env) (e.eval env') := by
  have hadmits : e.Every ((views E hS v).Admits env env' id id) := by
    refine Expr.Every.imp he fun {part} hpart => ?_
    cases part with
    | scan mode s => exact views_scan (hpart mode s rfl) mode
    | askForMore => exact .inr trivial
    | eof => exact fun h => h.1.isEmpty_eq hS
    | rest => exact views_rest
    | restLength => exact fun h => h.1.length_eq hS
    | mapError g e =>
      -- A change from outside sees the same of both errors, as it sees codes.
      intro _ error error' ⟨hplace, hcode⟩
      have hseen : ErrorMap.coded error = ErrorMap.coded error' := by
        rw [ErrorMap.coded_eq, ErrorMap.coded_eq, hcode]
      unfold ErrorMap.apply
      rw [hseen]
      exact ⟨by rw [g.map_change, g.map_change, hplace], by rw [g.map_change, g.map_change, hcode]⟩
    | allConsuming e => exact fun h => h.1.isEmpty_eq hS
    | complete e => exact id
    | count n e => exact fun _ => trivial
    | ref name => exact henv name
    | _ => trivial
  have heval := eval_related hadmits
  rwa [Expr.mapMode_id] at heval

theorem views_unfold {g : Grammar}
    (hg : ∀ rule ∈ g.rules, rule.2.JudgesAlike (storage ι) (storage ι') S) (depth : Nat)
    (name : String) :
    (views E hS v).ValueParsers (g.unfold (fun _ _ => .stuck .tooDeep) depth name)
      (g.unfold (fun _ _ => .stuck .tooDeep) depth name) :=
  unfold_related trivial (fun _ => trivial)
    (fun rule hrule _ _ => views_eval (hg rule hrule)) depth name

/-- Views side by side are as long as each other, so rules unfold as deeply on both. -/
theorem views_parse {g : Grammar}
    (hg : ∀ rule ∈ g.rules, rule.2.JudgesAlike (storage ι) (storage ι') S) {e : Expr}
    (he : e.JudgesAlike (storage ι) (storage ι') S) :
    (views E hS v).ValueParsers (g.parse e) (g.parse e) := by
  intro i i' h
  unfold Grammar.parse
  rw [h.1.length_eq hS]
  exact views_eval he (views_unfold hg _) h

/-- What parses of views side by side lead to is the same, seen from a standpoint that does not
tell pieces from other inputs. -/
theorem relocate_eq_of_views {τ : Type} {v : Standpoint ι ι' S P P} (hpart : v.part = v.place)
    (hpart' : v.part' = v.place') {g : σ → τ} {g' : σ' → τ} (hg : ∀ s s', S s s' → g s = g' s')
    {i : ι} {reply : Reply ι (E ι) (Value ι σ)} {reply' : Reply ι' (E ι') (Value ι' σ')}
    (h : (views E hS v).Replies (Value.Related (views E hS v).piece S) i reply reply') :
    reply.relocate v.place g = reply'.relocate v.place' g' := by
  cases h with
  | success hv hr _ =>
    have hpiece : ∀ p p', (views E hS v).piece p p' → v.place p = v.place' p' := by
      intro p p' hp
      rw [← hpart, ← hpart']
      exact hp.2
    exact congrArg₂ Reply.success (hv.map_eq hpiece hg) hr.2
  | recoverable he => exact congrArg (fun e => Reply.failure (.recoverable e)) he.1
  | fatal he => exact congrArg (fun e => Reply.failure (.fatal e)) he.1
  | incomplete _ => rfl
  | undecided _ hlax => exact hlax.elim
  | stuck _ => rfl

/-- Where parses of views side by side end, seen from a standpoint. -/
theorem map_places_eq_of_views {i : ι} {α α' : Type} {V : α → α' → Prop} {reply : Reply ι (E ι) α}
    {reply' : Reply ι' (E ι') α'} (h : (views E hS v).Replies V i reply reply') :
    reply.places.map v.place = reply'.places.map v.place' := by
  have herror : ∀ {e : E ι} {e' : E ι'}, ErrorFamily.map v.place e = ErrorFamily.map v.place' e' →
      ((ParseError.levels e).map Prod.snd).map v.place =
        ((ParseError.levels e').map Prod.snd).map v.place' := by
    intro e e' he
    have hlevels := congrArg (fun e => (ParseError.levels e).map Prod.snd) he
    simpa only [ErrorFamily.levels_map, List.map_map, Function.comp_def] using hlevels
  cases h with
  | success _ hr _ => exact congrArg (fun p => [p]) hr.2
  | recoverable he => exact herror he.1
  | fatal he => exact herror he.1
  | incomplete _ => rfl
  | undecided _ hlax => exact hlax.elim
  | stuck _ => rfl

end Correspondence

end

end ParseKit
