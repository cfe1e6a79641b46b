/-
  Buffers, windows and views are interchangeable.

  A parse of a window sees what the window shows and nothing else of the
  buffer.  Seen as symbols, it ends as the parse of the part of the buffer
  does that the window is on; seen as places in the buffer, it ends where the
  parse of a fresh copy of that part ends, moved behind the start of the
  window.
-/
import ParseKit.Proofs.Correspondence.Views
import ParseKit.Proofs.Input.Text
import ParseKit.Proofs.Input.Window

set_option autoImplicit false

namespace ParseKit

open LawfulInput

/-! ## Seen as symbols -/

/-- A view is looked at as the symbols it shows. -/
def Standpoint.shown (ι ι' : Type) {σ : Type} [Input ι σ] [LawfulInput ι σ] [Input ι' σ]
    [LawfulInput ι' σ] : Standpoint ι ι' (Eq : σ → σ → Prop) (List σ) (List σ) where
  place := Input.symbols
  place' := Input.symbols
  part := Input.symbols
  part' := Input.symbols
  splitAt _ _ _ hhead hrest :=
    ⟨List.forall₂_eq_eq_eq ▸ hhead.symbols, List.forall₂_eq_eq_eq ▸ hrest.symbols⟩

section

variable {σ : Type} [Symbol σ] {E : Type → Type} [∀ ι, ParseError (E ι) ι] [ErrorFamily E]

/-- Equal symbols stored in the same way are judged in the same way. -/
theorem Expr.judgesAlike_of_eq {st st' : Storage σ} (h : st = st') (e : Expr) :
    e.JudgesAlike st st' Eq := by
  refine every_of_forall (fun part mode s _ l l' hl => ?_) e
  rw [List.forall₂_eq_eq_eq] at hl
  rw [h, hl]

variable {ι ι' : Type} [Input ι σ] [LawfulInput ι σ] [Input ι' σ] [LawfulInput ι' σ]
  {i : ι} {i' : ι'}

/-- Two views of the same symbols, stored in the same way, are parsed alike from any standpoint. -/
theorem Correspondence.views_parse_of_eq {P Q : Type} (v : Standpoint ι ι' (Eq : σ → σ → Prop) P Q)
    (hstorage : storage ι = storage ι') (g : Grammar) (e : Expr) (hi : Valid i) (hi' : Valid i')
    (hsymbols : Input.symbols i = Input.symbols i') (hplace : v.place i = v.place' i') :
    (views E (.of_eq hstorage) v).Runs (Value.Related (views E (.of_eq hstorage) v).piece Eq) i
      (g.parse e i) (g.parse e i') := by
  have hsame : List.Forall₂ Eq (Input.symbols i) (Input.symbols i') := by
    rw [List.forall₂_eq_eq_eq, hsymbols]
  exact views_parse (fun rule _ => rule.2.judgesAlike_of_eq hstorage) (e.judgesAlike_of_eq hstorage)
    ⟨⟨hi, hi', hsame⟩, hplace⟩

/-- Parses of two views of the same symbols, stored in the same way, show the same. -/
theorem Grammar.relocate_symbols_eq (g : Grammar) (e : Expr) (hi : Valid i) (hi' : Valid i')
    (hstorage : storage ι = storage ι') (hsymbols : Input.symbols i = Input.symbols i') :
    (g.parse e i : Run ι (E ι) _).reply.relocate Input.symbols id =
      (g.parse e i' : Run ι' (E ι') _).reply.relocate Input.symbols id :=
  Correspondence.relocate_eq_of_views (v := .shown ι ι') rfl rfl (fun _ _ h => h)
    (Correspondence.views_parse_of_eq (.shown ι ι') hstorage g e hi hi' hsymbols hsymbols)

end

/-! ## Seen as places in a buffer -/

namespace Window

variable {κ σ : Type} [Input κ σ] [LawfulInput κ σ]

/-- The window on the same units of a part of a buffer that begins at `origin`, as a window of
the buffer. -/
def movedInto (buffer : κ) (origin : Nat) (w : Window κ) : Window κ :=
  ⟨buffer, w.start + origin, w.stop + origin⟩

theorem wellFormed_of_isBoundary {buffer : κ} {start stop : Nat} (hbuffer : Valid buffer)
    (hle : start ≤ stop) (hstart : Input.isBoundary buffer start = true)
    (hstop : Input.isBoundary buffer stop = true) : (⟨buffer, start, stop⟩ : Window κ).WellFormed :=
  ⟨hle, le_length_of_isBoundary hbuffer hstop, hstart, hstop⟩

/-- The window on all of a buffer shows all of its symbols. -/
theorem symbols_whole {buffer : κ} (h : Valid buffer) :
    Input.symbols (whole buffer) = Input.symbols buffer := by
  have hsymbols : Input.symbols buffer = [] ++ (Input.symbols buffer ++ []) := by
    rw [List.nil_append, List.append_nil]
  exact (valid_view (w := whole buffer) h hsymbols rfl (length_eq h)).2

/-- The windows of a buffer beside those of a copy of its part that begins at `origin`. -/
def besideCopy (buffer : κ) (origin : Nat) :
    Standpoint (Window κ) (Window κ) (Eq : σ → σ → Prop) (Window κ) (Window κ) where
  place := id
  place' := movedInto buffer origin
  part := id
  part' := movedInto buffer origin
  splitAt {w w' n} _ hplace _ _ _ := by
    obtain rfl : w = movedInto buffer origin w' := hplace
    have hmoved : w'.start + origin + n = w'.start + n + origin := Nat.add_right_comm ..
    exact ⟨congrArg (Window.mk buffer (w'.start + origin)) hmoved,
      congrArg (fun start => Window.mk buffer start (w'.stop + origin)) hmoved⟩

/-- A window of a buffer that begins at `start` or behind it and ends at `stop`. -/
def EndsAt (buffer : κ) (start stop : Nat) (w : Window κ) : Prop :=
  w.buffer = buffer ∧ start ≤ w.start ∧ w.stop = stop ∧ w.start + Input.length w = stop

/-- The windows that end at a fixed place, with no regard to pieces. -/
def endingAt (buffer : κ) (start stop : Nat) :
    Standpoint (Window κ) (Window κ) (Eq : σ → σ → Prop) Prop Unit where
  place := EndsAt buffer start stop
  place' _ := True
  part _ := ()
  part' _ := ()
  splitAt {w w' n} hw hplace hn _ _ := by
    refine ⟨rfl, eq_true ?_⟩
    obtain ⟨hbuffer, hstart, hstop, hlength⟩ := of_eq_true hplace
    have hle : n ≤ w.stop - w.start := le_length_of_isBoundary hw.valid hn
    change w.start + (w.stop - w.start) = stop at hlength
    refine ⟨hbuffer, ?_, hstop, ?_⟩
    · change start ≤ w.start + n
      omega
    · change w.start + n + (w.stop - (w.start + n)) = stop
      omega

end Window

/-! ## Interchange -/

variable {κ σ : Type} [Input κ σ] [LawfulInput κ σ] [Symbol σ] {E : Type → Type}
  [∀ ι, ParseError (E ι) ι] [ErrorFamily E]

/-- **A window stands for the part of the buffer it is on.**  A parse of a window from boundary
`a` to boundary `b` of a buffer has the outcome of the parse of the part of the buffer between the
two, if pieces, remainder and positions are compared by their symbols; it has the outcome of the
parse of a fresh buffer that holds this part alone, moved by `a`; its remainder, or every position
of its error, ends at `b`; and any window of whatever buffer that shows the same symbols has the
same outcome, compared by symbols. -/
theorem Grammar.parse_interchangeable (g : Grammar) (e : Expr) {buffer : κ} {a b : Nat}
    (hbuffer : Valid buffer) (hle : a ≤ b) (ha : Input.isBoundary buffer a = true)
    (hb : Input.isBoundary buffer b = true) :
    let parsed (w : Window κ) : Reply (Window κ) (E (Window κ)) (Value (Window κ) σ) :=
      (g.parse e w).reply
    (parsed ⟨buffer, a, b⟩).relocate Input.symbols id =
        (g.parse e (Input.between buffer a b) : Run κ (E κ) _).reply.relocate Input.symbols id ∧
      parsed ⟨buffer, a, b⟩ =
        (parsed (.whole (Input.between buffer a b))).relocate (.movedInto buffer a) id ∧
      (∀ w ∈ (parsed ⟨buffer, a, b⟩).places,
        w.buffer = buffer ∧ a ≤ w.start ∧ w.stop = b ∧ w.start + Input.length w = b) ∧
      ∀ w : Window κ, Valid w → Input.symbols w = Input.symbols (Input.between buffer a b) →
        (parsed w).relocate Input.symbols id =
          (parsed ⟨buffer, a, b⟩).relocate Input.symbols id := by
  intro parsed
  have hwellFormed := Window.wellFormed_of_isBoundary hbuffer hle ha hb
  have hwindow : Valid (⟨buffer, a, b⟩ : Window κ) := ⟨hwellFormed, hbuffer⟩
  have hpart : Valid (Input.between buffer a b) :=
    Window.valid_view_of_wellFormed hwellFormed hbuffer
  have hlength : Input.length (Input.between buffer a b) = b - a :=
    (length_eq hpart).trans (Window.length_view hwellFormed hbuffer).symm
  refine ⟨?_, ?_, ?_, ?_⟩
  · exact g.relocate_symbols_eq e hwindow hpart rfl rfl
  · have hsymbols : Input.symbols (⟨buffer, a, b⟩ : Window κ) =
        Input.symbols (Window.whole (Input.between buffer a b)) :=
      (Window.symbols_whole hpart).symm
    have hplace : (⟨buffer, a, b⟩ : Window κ) =
        .movedInto buffer a (.whole (Input.between buffer a b)) := by
      unfold Window.movedInto Window.whole
      rw [Nat.zero_add, hlength, Nat.sub_add_cancel hle]
    have hviews := Correspondence.views_parse_of_eq (E := E) (Window.besideCopy buffer a) rfl g e
      hwindow (Window.valid_whole hpart) hsymbols hplace
    have heq := Correspondence.relocate_eq_of_views rfl rfl (fun _ _ h => h) hviews
    exact (Reply.relocate_id _).symm.trans heq
  · -- The parse beside itself: what holds of the place of its input holds of all its places.
    have hends : Window.EndsAt buffer a b ⟨buffer, a, b⟩ :=
      ⟨rfl, Nat.le_refl a, rfl, Nat.add_sub_cancel' hle⟩
    have hviews := Correspondence.views_parse_of_eq (E := E) (Window.endingAt buffer a b) rfl g e
      hwindow hwindow rfl (eq_true hends)
    have hplaces := Correspondence.map_places_eq_of_views hviews
    intro w hw
    have hmem : Window.EndsAt buffer a b w ∈
        (parsed ⟨buffer, a, b⟩).places.map fun _ => True :=
      hplaces ▸ List.mem_map_of_mem hw
    obtain ⟨-, -, htrue⟩ := List.mem_map.1 hmem
    exact of_eq_true htrue.symm
  · intro w hw hsymbols
    exact g.relocate_symbols_eq e hw hwindow rfl hsymbols

/-- A window behind one character on two more, the first of two bytes and the second no digit:
the error lies in the whole buffer where the copy of the window tells. -/
theorem Grammar.parse_interchangeable_accent :
    Valid (⟨['n', 'é', 'x', '1']⟩ : Text) ∧
    Input.isBoundary (⟨['n', 'é', 'x', '1']⟩ : Text) 1 = true ∧
    Input.isBoundary (⟨['n', 'é', 'x', '1']⟩ : Text) 4 = true ∧
    (Grammar.parse ⟨[("digits", .scan .complete .digit1)]⟩
        (.context .user (.preceded (.scan .streaming (.take 1)) (.ref "digits")))
        (⟨⟨['n', 'é', 'x', '1']⟩, 1, 4⟩ : Window Text) :
          Run _ (Cause _) (Value (Window Text) Char)).reply =
      .failure (.recoverable (.context ⟨⟨['n', 'é', 'x', '1']⟩, 1, 4⟩ .user
        (.root ⟨⟨['n', 'é', 'x', '1']⟩, 3, 4⟩ .digit))) := by
  have hstart : Input.isBoundary (⟨['n', 'é', 'x', '1']⟩ : Text) 1 = true := by decide
  have hstop : Input.isBoundary (⟨['n', 'é', 'x', '1']⟩ : Text) 4 = true := by decide
  have hcopy : (Grammar.parse ⟨[("digits", .scan .complete .digit1)]⟩
        (.context .user (.preceded (.scan .streaming (.take 1)) (.ref "digits")))
        (Window.whole (Input.between (⟨['n', 'é', 'x', '1']⟩ : Text) 1 4)) :
          Run _ (Cause _) (Value (Window Text) Char)).reply =
      .failure (.recoverable (.context ⟨⟨['é', 'x']⟩, 0, 3⟩ .user
        (.root ⟨⟨['é', 'x']⟩, 2, 3⟩ .digit))) := rfl
  obtain ⟨-, hmoved, -, -⟩ := Grammar.parse_interchangeable (E := Cause)
    ⟨[("digits", .scan .complete .digit1)]⟩
    (.context .user (.preceded (.scan .streaming (.take 1)) (.ref "digits")))
    trivial (by decide) hstart hstop
  exact ⟨trivial, hstart, hstop, hmoved.trans (congrArg (Reply.relocate _ id) hcopy)⟩

end ParseKit
