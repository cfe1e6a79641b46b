/-
  Parses stay inside their input.

  A parse of a valid input ends with a remainder that the input leaves behind
  a boundary, and on the way it never splits a view off a boundary and never
  finds a remainder longer than its input.  The invariant is a correspondence
  of a parse with itself: every input on the way is valid, and what is left
  of it is a remainder of it.
-/
import ParseKit.Grammar
import ParseKit.Proofs.Correspondence.Expr
import ParseKit.Proofs.Input.Text
import ParseKit.Proofs.Input.Window
import ParseKit.Proofs.Parser.Run
import ParseKit.Proofs.Scan.Judgement

set_option autoImplicit false

namespace ParseKit

open LawfulInput

variable {ι σ ε : Type} [Input ι σ] [LawfulInput ι σ] [Symbol σ] [ParseError ε ι]

/-! ## Invariants of one parse -/

/-- A parse beside itself: only equal things are related, and what is left of an input may be any
remainder of it. -/
structure Correspondence.Invariant (C : Correspondence ι σ ε ι σ ε) : Prop where
  input_eq : ∀ {i i'}, C.input i i' → Valid i ∧ i = i'
  input_rest : ∀ {i r}, C.input i i → IsRemainder i r → C.input r r ∧ C.follows i r
  piece_eq : C.piece = Eq
  symbol_eq : C.symbol = Eq
  not_lax : ¬ C.lax
  waits : C.waits

namespace Correspondence.Invariant

variable {C : Correspondence ι σ ε ι σ ε}

theorem scan (h : C.Invariant) (mode : Mode) (s : Scan) :
    C.ValueParsers (s.parser mode) (s.parser mode) := by
  intro i i' hi
  obtain ⟨hvalid, rfl⟩ := h.input_eq hi
  rw [Scan.parser_eq hvalid, h.piece_eq, h.symbol_eq]
  generalize s.judge (storage ι) (Input.symbols i) = j
  refine Judgement.run_related ?_ (.incomplete h.waits) mode
  cases j.verdict with
  | takes count =>
    obtain ⟨hrest, hfollows⟩ := h.input_rest hi (isRemainder_parts hvalid count)
    exact .success (Value.related_refl _) hrest hfollows
  | refuses kind => exact .reject kind hi

theorem rest (h : C.Invariant) : C.Parsers C.piece Parser.rest Parser.rest := by
  intro i i' hi
  obtain ⟨hvalid, rfl⟩ := h.input_eq hi
  obtain ⟨hrest, hfollows⟩ :=
    h.input_rest hi (isRemainder_parts hvalid (Input.symbols i).length)
  unfold Parser.rest
  rw [Parser.cut_length hvalid, h.piece_eq]
  exact .success rfl hrest hfollows

/-- Changes of errors and references aside, every part of an expression is admitted, if there is
room for what it counts or a lack of room is tolerated. -/
theorem admits (h : C.Invariant) {env env' : Expr.Env ι σ ε} {e : Expr}
    (hroom : e.HasRoom ∨ C.tolerates .unreserved)
    (hmap : ∀ g part, e = .mapError g part →
      ∀ {i e e'}, C.error i e e' → C.error i (g.apply e) (g.apply e'))
    (href : ∀ name, e = .ref name → C.ValueParsers (env name) (env' name)) :
    C.Admits env env' id id e := by
  cases e with
  | scan mode s => exact h.scan mode s
  | askForMore => exact .inr h.waits
  | eof => exact fun hi => (h.input_eq hi).2 ▸ rfl
  | rest => exact h.rest
  | restLength => exact fun hi => (h.input_eq hi).2 ▸ rfl
  | mapError g e => exact hmap g e rfl
  | allConsuming e => exact fun hi => (h.input_eq hi).2 ▸ rfl
  | complete e => exact h.not_lax
  | count n e => exact fun hlt => hroom.resolve_left (Nat.not_le.2 hlt)
  | ref name => exact href name rfl
  | _ => trivial

end Correspondence.Invariant

/-! ## Confinement -/

/-- Whether room can be reserved for all the values that the rules of a grammar count. -/
def Grammar.Reservable (g : Grammar) : Prop := ∀ rule ∈ g.rules, rule.2.Reservable

/-- A parse beside itself, on valid inputs, leaving remainders. -/
def Correspondence.confined (ι σ ε : Type) [Input ι σ] [LawfulInput ι σ] [Symbol σ]
    [ParseError ε ι] (tolerates : Fault → Prop) : Correspondence ι σ ε ι σ ε where
  input i i' := Valid i ∧ i = i'
  follows := IsRemainder
  piece := Eq
  symbol := Eq
  error _ := Eq
  lax := False
  waits := True
  tolerates := tolerates
  follows_refl h := .refl h.1
  follows_trans := @IsRemainder.trans ι σ _ _
  faithful := .equal
  error_mono _ h := h
  error_ofKind _ h := h.2 ▸ rfl
  error_wrap _ h he := h.2 ▸ he ▸ rfl
  consumed?_eq h hr _ := h.2 ▸ hr.2 ▸ rfl
  grown _ _ hfollows hnone := absurd hnone hfollows.consumed?_ne_none
  spanned {i i' r r' n} h _ hfollows hsome := by
    obtain ⟨-, rfl⟩ := h
    have hboundary := hfollows.isBoundary hsome
    exact .inl ⟨hboundary, hboundary, rfl⟩

namespace Correspondence

variable {tolerates : Fault → Prop}

theorem confined_invariant : (confined ι σ ε tolerates).Invariant where
  input_eq := id
  input_rest _ hrest := ⟨⟨hrest.valid, rfl⟩, hrest⟩
  piece_eq := rfl
  symbol_eq := rfl
  not_lax := id
  waits := trivial

/-- An expression is confined if the rules it refers to are. -/
theorem confined_eval {env env' : Expr.Env ι σ ε} {e : Expr}
    (hroom : e.Reservable ∨ tolerates .unreserved)
    (h : e.Every fun part => ∀ name, part = .ref name →
      (confined ι σ ε tolerates).ValueParsers (env name) (env' name)) :
    (confined ι σ ε tolerates).ValueParsers (e.eval env) (e.eval env') := by
  have hparts : e.Every fun part => part.HasRoom ∨ tolerates .unreserved :=
    hroom.elim (fun hroom => hroom.imp .inl)
      fun htolerated => Expr.every_of_forall (fun _ => .inr htolerated) e
  have heval := eval_related ((hparts.and h).imp fun ⟨hroom, href⟩ =>
    confined_invariant.admits hroom (fun _ _ _ {_ _ _} he => congrArg _ he) href)
  rwa [Expr.mapMode_id] at heval

/-- An expression without references is confined, whatever the rules. -/
theorem confined_eval_of_closed (tolerates : Fault → Prop) (env : Expr.Env ι σ ε) {e : Expr}
    (hroom : e.Reservable ∨ tolerates .unreserved) (h : e.Every fun part => part.isRef = false) :
    (confined ι σ ε tolerates).ValueParsers (e.eval env) (e.eval env) := by
  refine confined_eval hroom (h.imp fun hpart name hname => ?_)
  rw [hname] at hpart
  cases hpart

theorem confined_unfold (hundefined : ∀ name, tolerates (.undefinedRule name))
    (hdeep : tolerates .tooDeep) {g : Grammar} (hroom : g.Reservable ∨ tolerates .unreserved)
    (depth : Nat) (name : String) :
    (confined ι σ ε tolerates).ValueParsers (g.unfold (fun _ _ => .stuck .tooDeep) depth name)
      (g.unfold (fun _ _ => .stuck .tooDeep) depth name) :=
  unfold_related hdeep hundefined
    (fun rule hrule _ _ henv => confined_eval (hroom.imp_left fun h => h rule hrule)
      (Expr.every_of_forall (fun _ name _ => henv name) rule.2))
    depth name

/-- Rules may refer to each other too deeply or be missing, and there may be no room for what is
counted; nothing else goes wrong. -/
theorem confined_parse (hundefined : ∀ name, tolerates (.undefinedRule name))
    (hdeep : tolerates .tooDeep) {g : Grammar} {e : Expr}
    (hroom : g.Reservable ∧ e.Reservable ∨ tolerates .unreserved) :
    (confined ι σ ε tolerates).ValueParsers (g.parse e) (g.parse e) :=
  fun i _ h => h.2 ▸ confined_eval (hroom.imp_left And.right)
    (Expr.every_of_forall
      (fun _ name _ => confined_unfold hundefined hdeep (hroom.imp_left And.left)
        (g.depthBound (Input.length i)) name) e)
    ⟨h.1, rfl⟩

/-- Confined parsers get stuck with tolerated faults only. -/
theorem tolerates_of_stuck {α : Type} {V : α → α → Prop} {p : Parser ι ε α}
    (h : (confined ι σ ε tolerates).Parsers V p p) {i : ι} (hi : Valid i) {fault : Fault}
    (hstuck : (p i).reply = .stuck fault) : tolerates fault := by
  have hrun := h ⟨hi, rfl⟩
  unfold Runs at hrun
  rw [hstuck] at hrun
  cases hrun with
  | stuck hfault => exact hfault

/-- Confined parsers leave remainders. -/
theorem isRemainder_of_success {α : Type} {V : α → α → Prop} {p : Parser ι ε α}
    (h : (confined ι σ ε tolerates).Parsers V p p) {i r : ι} {v : α} (hi : Valid i)
    (hsuccess : (p i).reply = .success v r) : IsRemainder i r := by
  have hrun := h ⟨hi, rfl⟩
  unfold Runs at hrun
  rw [hsuccess] at hrun
  cases hrun with
  | success _ _ hfollows => exact hfollows

end Correspondence

/-! ## Recognition -/

omit [LawfulInput ι σ] [Symbol σ] [ParseError ε ι] in
/-- A recognized piece ends where the recognizing parser has left off. -/
theorem Parser.recognize_success {α : Type} {p : Parser ι ε α} {i piece r : ι}
    (h : (Parser.recognize p i).reply = .success piece r) :
    ∃ n, Parser.consumed? i r = some n ∧ piece = (Input.splitAt i n).1 := by
  unfold Parser.recognize Run.andThen Run.handle at h
  cases hreply : (p i).reply with
  | failure f => cases f <;> simp [hreply, Run.recoverable, Run.failure, Run.after] at h
  | stuck fault => simp [hreply] at h
  | success v r' =>
    cases hconsumed : Parser.consumed? i r' with
    | none => simp [hreply, hconsumed, Run.stuck, Run.after] at h
    | some n =>
      by_cases hn : Input.isBoundary i n = true
      · simp only [hreply, hconsumed, Parser.cut, hn, if_true, Run.success, Run.after,
          Reply.success.injEq] at h
        obtain ⟨rfl, rfl⟩ := h
        exact ⟨n, hconsumed, rfl⟩
      · simp [hreply, hconsumed, Parser.cut, hn, Run.stuck, Run.after] at h

namespace Parser

variable {α : Type} {p : Parser ι ε α} {i : ι}

omit [Symbol σ] [ParseError ε ι] in
/-- The part before the remainder of a success is recognized. -/
theorem recognize_of_success (hi : Valid i) {value : α} {n : Nat}
    (hn : Input.isBoundary i n = true) (h : (p i).reply = .success value (Input.splitAt i n).2) :
    (recognize p i).reply = .success (Input.splitAt i n).1 (Input.splitAt i n).2 := by
  rw [recognize, Run.reply_andThen_of_success h, consumed?_splitAt hi hn]
  simp only [cut, hn, if_true]
  rfl

omit [LawfulInput ι σ] [Symbol σ] [ParseError ε ι] in
theorem recognize_of_failure {f : Failure ε} (h : (p i).reply = .failure f) :
    (recognize p i).reply = .failure f :=
  Run.reply_andThen_of_failure h

end Parser

/-! ## Parses of a grammar -/

/-- **No parse leaves its input.**  A successful parse of a valid input leaves what the input
leaves behind some boundary of it.  No split on the way is off a boundary and no remainder on the
way is longer than its input: a parse gets stuck on its rules alone, or where more values are to be
counted than there can be room for, and without references and such counts it never does.  What is
recognized is the part before the boundary behind which the remainder lies. -/
theorem Grammar.parse_confined (g : Grammar) (e : Expr) {i : ι} (hi : Valid i) :
    (∀ v r, (g.parse e i : Run ι ε _).reply = .success v r →
      ∃ n ≤ Input.length i, Input.isBoundary i n = true ∧ r = (Input.splitAt i n).2) ∧
    (∀ fault, (g.parse e i : Run ι ε _).reply = .stuck fault →
      fault = .tooDeep ∨ (∃ name, fault = .undefinedRule name) ∨
        fault = .unreserved ∧ ¬ (g.Reservable ∧ e.Reservable)) ∧
    ((e.Every fun part => part.isRef = false) → e.Reservable →
      ∀ fault, (g.parse e i : Run ι ε _).reply ≠ .stuck fault) ∧
    (∀ v r, (g.parse (.recognize e) i : Run ι ε _).reply = .success v r →
      ∃ n ≤ Input.length i, Input.isBoundary i n = true ∧
        v = .piece (Input.splitAt i n).1 ∧ r = (Input.splitAt i n).2) := by
  have hconfined : ∀ e,
      (Correspondence.confined ι σ ε fun _ => True).ValueParsers (g.parse e) (g.parse e) :=
    fun _ => Correspondence.confined_parse (fun _ => trivial) trivial (.inr trivial)
  refine ⟨?_, ?_, ?_, ?_⟩
  · intro v r h
    obtain ⟨-, n, hn, hr⟩ := Correspondence.isRemainder_of_success (hconfined e) hi h
    exact ⟨n, le_length_of_isBoundary hi hn, hn, hr⟩
  · intro fault h
    have hfaults : (Correspondence.confined ι σ ε fun fault =>
        fault = .tooDeep ∨ (∃ name, fault = .undefinedRule name) ∨
          fault = .unreserved ∧ ¬ (g.Reservable ∧ e.Reservable)).ValueParsers
            (g.parse e) (g.parse e) :=
      Correspondence.confined_parse (fun name => .inr (.inl ⟨name, rfl⟩)) (.inl rfl)
        ((Classical.em _).imp_right fun hroom => .inr (.inr ⟨rfl, hroom⟩))
    exact Correspondence.tolerates_of_stuck hfaults hi h
  · intro hclosed hroom fault h
    exact Correspondence.tolerates_of_stuck
      (Correspondence.confined_eval_of_closed (fun _ => False) _ (.inl hroom) hclosed) hi h
  · intro v r h
    obtain ⟨n, hconsumed, hn, hr⟩ :=
      (Correspondence.isRemainder_of_success (hconfined _) hi h).consumed?_eq
    obtain ⟨piece, hpiece, rfl⟩ := Reply.map_eq_success h
    obtain ⟨k, hk, rfl⟩ := Parser.recognize_success hpiece
    obtain rfl : k = n := Option.some.inj (hk.symm.trans hconsumed)
    exact ⟨k, le_length_of_isBoundary hi hn, hn, rfl, hr⟩

/-- One character of two bytes, taken from a window that begins behind another one. -/
theorem Grammar.parse_confined_window :
    Valid (⟨⟨['n', 'é', '1']⟩, 1, 4⟩ : Window Text) ∧
    ∃ n ≤ 3, Input.isBoundary (⟨⟨['n', 'é', '1']⟩, 1, 4⟩ : Window Text) n = true ∧
      (⟨⟨['n', 'é', '1']⟩, 3, 4⟩ : Window Text) =
        (Input.splitAt (⟨⟨['n', 'é', '1']⟩, 1, 4⟩ : Window Text) n).2 := by
  have hwhole : Valid (Window.whole (⟨['n', 'é', '1']⟩ : Text)) := Window.valid_whole trivial
  have hvalid : Valid (⟨⟨['n', 'é', '1']⟩, 1, 4⟩ : Window Text) :=
    (valid_splitAt hwhole (n := 1) (by decide)).2
  refine ⟨hvalid, ?_⟩
  exact (Grammar.parse_confined (ε := Cause (Window Text)) ⟨[]⟩ (.scan .streaming (.take 1))
    hvalid).1 (.piece ⟨⟨['n', 'é', '1']⟩, 1, 3⟩) _ rfl

end ParseKit
