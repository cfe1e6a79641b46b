/-
  ASCII text and ASCII bytes are parsed alike.

  A kind of symbol shows ASCII if its symbols for the codes below 128 take
  one storage unit, stand for the characters with those codes and are stored
  in the bytes with those codes.  Nothing a scanner looks at tells such
  symbols from ASCII characters: a pattern is compared with bytes, a test
  sees a code, a class or a character.  What the kinds of symbols do beyond
  ASCII plays no part, even for patterns and sets that name more.
-/
import ParseKit.Proofs.Correspondence.Views
import ParseKit.Proofs.Input.Slice
import ParseKit.Proofs.Interchange

set_option autoImplicit false

namespace ParseKit

open LawfulInput

/-! ## Symbols that show ASCII -/

section

variable {σ : Type} [Symbol σ]

/-- Symbols for the ASCII characters that are stored, read and spelled as these. -/
structure Storage.ShowsAscii (st : Storage σ) (embed : Ascii → σ) : Prop where
  width_eq : ∀ a, st.width (embed a) = 1
  code_eq : ∀ a, Symbol.code (embed a) = Symbol.code a
  char?_eq : ∀ a, Symbol.char? (embed a) = Symbol.char? a
  standsFor_eq : ∀ a c, Symbol.standsFor (embed a) c = Symbol.standsFor a c
  bytes?_eq : ∀ l : List Ascii, st.bytes? (l.map embed) = some (l.map Ascii.toByte)
  spell_eq : ∀ l : List Ascii, Symbol.spell (l.map embed) = Symbol.spell l

/-- The symbol for an ASCII character beside the character. -/
def Ascii.Shown (embed : Ascii → σ) (a : Ascii) (s : σ) : Prop := s = embed a

omit [Symbol σ] in
theorem Ascii.forall₂_shown_iff {embed : Ascii → σ} {l : List Ascii} {l' : List σ} :
    List.Forall₂ (Shown embed) l l' ↔ l' = l.map embed := by
  constructor
  · intro h
    induction h with
    | nil => rfl
    | cons hs _ ih => rw [hs, ih, List.map_cons]
  · rintro rfl
    exact List.forall₂_map_right_iff.2 (List.forall₂_same.2 fun _ _ => rfl)

namespace Storage.ShowsAscii

variable {st : Storage σ} {embed : Ascii → σ}

theorem alike (h : st.ShowsAscii embed) :
    (storage (List Ascii)).Alike st (Ascii.Shown embed) where
  width_eq hs := hs ▸ (h.width_eq _).symm
  code_eq hs := hs ▸ (h.code_eq _).symm
  char?_eq hs := hs ▸ (h.char?_eq _).symm
  spell_eq hl := Ascii.forall₂_shown_iff.1 hl ▸ (h.spell_eq _).symm

/-- Symbols pass a test as the characters do. -/
theorem holds_eq (h : st.ShowsAscii embed) (p : Pred) (a : Ascii) :
    p.holds (embed a) = p.holds a := by
  induction p with
  | any => rfl
  | none => rfl
  | inClass cls => rw [Pred.holds, Pred.holds, Symbol.isIn, Symbol.isIn, h.char?_eq]
  | standsFor c => exact h.standsFor_eq a c
  | member set =>
    cases set with
    | text chars =>
      exact congrArg chars.any (funext (h.standsFor_eq a))
    | codes members => exact congrArg members.contains (h.code_eq a)
  | code test => exact congrArg test (h.code_eq a)
  | not p ih => rw [Pred.holds, Pred.holds, ih]
  | or p q ihp ihq => rw [Pred.holds, Pred.holds, ihp, ihq]

omit [Symbol σ] in
theorem runLength_map {accepts : σ → Bool} {accepts' : Ascii → Bool}
    (haccepts : ∀ a, accepts (embed a) = accepts' a) (l : List Ascii) :
    Judgement.runLength accepts (l.map embed) = Judgement.runLength accepts' l := by
  obtain rfl : accepts ∘ embed = accepts' := funext haccepts
  rw [Judgement.runLength, Judgement.runLength, List.takeWhile_map, List.length_map]

omit [Symbol σ] in
theorem ofOne_map {accepts : σ → Bool} {accepts' : Ascii → Bool}
    (haccepts : ∀ a, accepts (embed a) = accepts' a) (kind : ErrorKind) (l : List Ascii) :
    Judgement.ofOne accepts kind (l.map embed) = Judgement.ofOne accepts' kind l := by
  cases l with
  | nil => rfl
  | cons a l => rw [List.map_cons, Judgement.ofOne, Judgement.ofOne, haccepts]

theorem countAt_map (h : st.ShowsAscii embed) (n : Nat) (l : List Ascii) :
    st.countAt n (l.map embed) = (storage (List Ascii)).countAt n l := by
  have hextent : ∀ k, (storage (List Ascii)).extent (l.take k) = st.extent ((l.map embed).take k) :=
    fun k => h.alike.extent_eq (List.forall₂_take k (Ascii.forall₂_shown_iff.2 rfl))
  refine Option.ext fun k => ?_
  rw [countAt_eq_some, countAt_eq_some, hextent, List.length_map]

/-- Scanners judge the symbols as they judge the characters. -/
theorem judge_map (h : st.ShowsAscii embed) (s : Scan) (l : List Ascii) :
    s.judge st (l.map embed) = s.judge (storage (List Ascii)) l := by
  cases s with
  | tag rule pattern =>
    have hbytes : (storage (List Ascii)).bytes? l = some (l.map Ascii.toByte) :=
      bytes?_elements l
    simp only [Scan.judge, Judgement.ofTag, h.bytes?_eq, hbytes, h.countAt_map]
  | take count => rw [Scan.judge, Scan.judge, Judgement.ofTake, Judgement.ofTake, List.length_map]
  | run accepts nonempty =>
    simp only [Scan.judge, Judgement.ofRun, runLength_map (h.holds_eq accepts), List.length_map]
  | bounded min max accepts =>
    simp only [Scan.judge, Judgement.ofBounded, ← List.map_take,
      runLength_map (h.holds_eq accepts), List.length_map]
  | one accepts kind => exact ofOne_map (h.holds_eq accepts) kind l
  | char c => exact ofOne_map (fun a => h.standsFor_eq a c) .char l

/-- No expression tells the symbols from the characters. -/
theorem judgesAlike (h : st.ShowsAscii embed) (e : Expr) :
    e.JudgesAlike (storage (List Ascii)) st (Ascii.Shown embed) := by
  refine Expr.every_of_forall (fun part mode s _ l l' hl => ?_) e
  rw [Ascii.forall₂_shown_iff.1 hl, h.judge_map]

end Storage.ShowsAscii

end

/-! ## Characters and bytes -/

namespace Ascii

theorem toNat_toChar (a : Ascii) : a.toChar.toNat = a.code.val := by
  have hvalid : a.code.val.isValidChar := .inl (Nat.lt_trans a.code.isLt (by decide))
  rw [toChar, Char.ofNat, dif_pos hvalid]
  rfl

theorem toNat_toByte (a : Ascii) : a.toByte.toNat = a.code.val :=
  Nat.mod_eq_of_lt (Nat.lt_trans a.code.isLt (by decide))

/-- The UTF-8 form of an ASCII character is its byte. -/
theorem utf8EncodeChar_toChar (a : Ascii) : String.utf8EncodeChar a.toChar = [a.toByte] := by
  have hcode : a.toChar.val.toNat = a.code.val := a.toNat_toChar
  have hle : a.code.val ≤ 127 := Nat.le_of_lt_succ a.code.isLt
  rw [String.utf8EncodeChar]
  simp only [hcode, hle, if_true]
  rfl

theorem latin_toByte (a : Ascii) : Symbol.latin a.toByte = a.toChar := by
  rw [Symbol.latin, toNat_toByte, toChar]

end Ascii

theorem Storage.showsAscii_utf8 : Storage.utf8.ShowsAscii Ascii.toChar where
  width_eq a := by
    have hlength := String.length_utf8EncodeChar a.toChar
    rw [a.utf8EncodeChar_toChar] at hlength
    exact hlength.symm
  code_eq a := a.toNat_toChar
  char?_eq _ := rfl
  standsFor_eq _ _ := rfl
  bytes?_eq l := by
    have hbytes : (l.map Ascii.toChar).flatMap String.utf8EncodeChar = l.map Ascii.toByte := by
      rw [List.flatMap_map, List.map_eq_flatMap]
      exact congrArg l.flatMap (funext Ascii.utf8EncodeChar_toChar)
    exact congrArg some hbytes
  spell_eq _ := rfl

theorem Storage.showsAscii_bytes :
    (Storage.elements (some id) : Storage UInt8).ShowsAscii Ascii.toByte where
  width_eq _ := rfl
  code_eq a := a.toNat_toByte
  char?_eq a := congrArg some a.latin_toByte
  standsFor_eq a c := by
    change (decide (a.toByte.toNat < 128) && Symbol.latin a.toByte == c) = (a.toChar == c)
    rw [a.toNat_toByte, a.latin_toByte, decide_eq_true a.code.isLt, Bool.true_and]
  bytes?_eq l := by
    rw [bytes?_elements, Option.map_some, List.map_id]
  spell_eq l := by
    have hlatin : Symbol.latin ∘ Ascii.toByte = Ascii.toChar := funext Ascii.latin_toByte
    change String.ofList ((l.map Ascii.toByte).map Symbol.latin) =
      String.ofList (l.map Ascii.toChar)
    rw [List.map_map, hlatin]

/-! ## Parses of the same ASCII text -/

section

variable {ι σ : Type} [Input ι σ] [LawfulInput ι σ] [Symbol σ]

/-- A slice of ASCII characters and a view of the symbols for them are looked at as the symbols. -/
def Standpoint.ascii (ι : Type) {σ : Type} [Input ι σ] [LawfulInput ι σ] (embed : Ascii → σ) :
    Standpoint (List Ascii) ι (Ascii.Shown embed) (List σ) (List σ) where
  place := List.map embed
  place' := Input.symbols
  part := List.map embed
  part' := Input.symbols
  splitAt {t _ n} _ _ _ hhead hrest := by
    have hhead := hhead.symbols
    have hrest := hrest.symbols
    rw [symbols_slice] at hhead hrest
    exact ⟨(Ascii.forall₂_shown_iff.1 hhead).symm, (Ascii.forall₂_shown_iff.1 hrest).symm⟩

/-- The offsets a window lies between. -/
def Window.span {ι : Type} (w : Window ι) : Nat × Nat := (w.start, w.stop)

/-- Windows are looked at as the offsets they lie between. -/
def Standpoint.offsets (ι : Type) {σ : Type} [Input ι σ] [LawfulInput ι σ] (embed : Ascii → σ) :
    Standpoint (Window (List Ascii)) (Window ι) (Ascii.Shown embed) (Nat × Nat) (Nat × Nat) where
  place := Window.span
  place' := Window.span
  part := Window.span
  part' := Window.span
  splitAt {w w' n} _ hplace _ _ _ := by
    obtain ⟨hstart, hstop⟩ := Prod.ext_iff.1 hplace
    exact ⟨congrArg₂ Prod.mk hstart (congrArg (· + n) hstart),
      congrArg₂ Prod.mk (congrArg (· + n) hstart) hstop⟩

variable {E : Type → Type} [∀ ι, ParseError (E ι) ι] [ErrorFamily E] {embed : Ascii → σ}

/-- Parses of ASCII characters and of the symbols for them are the same from any standpoint that
does not tell pieces from other inputs. -/
theorem Grammar.relocate_shown_eq {κ P : Type} [Input κ Ascii] [LawfulInput κ Ascii]
    (hstorage : storage κ = storage (List Ascii)) (h : (storage ι).ShowsAscii embed)
    (v : Standpoint κ ι (Ascii.Shown embed) P P) (hpart : v.part = v.place)
    (hpart' : v.part' = v.place') (g : Grammar) (e : Expr) {t : κ} {i : ι}
    (hview : Alongside (Ascii.Shown embed) t i) (hplace : v.place t = v.place' i) :
    (g.parse e i : Run ι (E ι) _).reply.relocate v.place' id =
      (g.parse e t : Run κ (E κ) _).reply.relocate v.place embed := by
  have halike : (storage κ).Alike (storage ι) (Ascii.Shown embed) := hstorage ▸ h.alike
  have hjudges : ∀ e : Expr, e.JudgesAlike (storage κ) (storage ι) (Ascii.Shown embed) :=
    hstorage ▸ h.judgesAlike
  have hviews : (Correspondence.views E halike v).Runs (Value.Related _ _) t (g.parse e t)
      (g.parse e i) :=
    Correspondence.views_parse (fun rule _ => hjudges rule.2) (hjudges e) ⟨hview, hplace⟩
  exact (Correspondence.relocate_eq_of_views hpart hpart' (fun _ _ hs => hs.symm) hviews).symm

/-- A view of the symbols for an ASCII text is parsed as the text. -/
theorem Grammar.relocate_ascii_eq (h : (storage ι).ShowsAscii embed) (g : Grammar) (e : Expr)
    {t : List Ascii} {i : ι} (hi : Valid i) (hsymbols : Input.symbols i = t.map embed) :
    (g.parse e i : Run ι (E ι) _).reply.relocate Input.symbols id =
      (g.parse e t : Run (List Ascii) (E (List Ascii)) _).reply.relocate (List.map embed)
        embed := by
  have hview : Alongside (Ascii.Shown embed) t i := by
    refine ⟨trivial, hi, Ascii.forall₂_shown_iff.2 ?_⟩
    rw [hsymbols, symbols_slice]
  exact relocate_shown_eq rfl h (.ascii ι embed) rfl rfl g e hview hsymbols.symm

/-- The windows on all of two buffers, a text and the symbols for it, are parsed alike. -/
theorem Grammar.relocate_ascii_window_eq (h : (storage ι).ShowsAscii embed) (g : Grammar) (e : Expr)
    {t : List Ascii} {i : ι} (hi : Valid i) (hsymbols : Input.symbols i = t.map embed) :
    (g.parse e (Window.whole i) : Run (Window ι) (E (Window ι)) _).reply.relocate
        Window.span id =
      (g.parse e (Window.whole t) : Run (Window (List Ascii)) (E (Window (List Ascii)))
        _).reply.relocate Window.span embed := by
  have hshown : Alongside (Ascii.Shown embed) t i := by
    refine ⟨trivial, hi, Ascii.forall₂_shown_iff.2 ?_⟩
    rw [hsymbols, symbols_slice]
  have hview : Alongside (Ascii.Shown embed) (Window.whole t) (Window.whole i) := by
    refine ⟨Window.valid_whole trivial, Window.valid_whole hi, ?_⟩
    rw [Window.symbols_whole hi, Window.symbols_whole trivial]
    exact hshown.symbols
  -- A window stores its symbols as its buffer does.
  have hstorage : storage (Window (List Ascii)) = storage (List Ascii) := rfl
  have hwindow : (storage (Window ι)).ShowsAscii embed := h
  exact relocate_shown_eq hstorage hwindow (.offsets ι embed) rfl rfl g e hview
    (congrArg (Prod.mk 0) (hshown.length_eq h.alike))

end

variable {E : Type → Type} [∀ ι, ParseError (E ι) ι] [ErrorFamily E]

/-- **ASCII is parsed alike as text and as bytes.**  On the characters and on the bytes of an ASCII
text, given as slices or as windows on all of a buffer, every grammar replies as on the text itself:
the same sort of reply, with characters or bytes in the place of the symbols, and views that show
the same in the place of every piece, of the remainder and of every position.  Windows agree in the
offsets of all these as well. -/
theorem Grammar.ascii_parsed_alike (g : Grammar) (e : Expr) (t : List Ascii) :
    let text : Text := ⟨t.map Ascii.toChar⟩
    let bytes : List UInt8 := t.map Ascii.toByte
    let parsed : Reply _ (E (List Ascii)) (Value (List Ascii) Ascii) := (g.parse e t).reply
    let inWindow : Reply _ (E (Window (List Ascii))) (Value (Window (List Ascii)) Ascii) :=
      (g.parse e (Window.whole t)).reply
    let windowOnText : Reply _ (E (Window Text)) (Value (Window Text) Char) :=
      (g.parse e (Window.whole text)).reply
    let windowOnBytes : Reply _ (E (Window (List UInt8))) (Value (Window (List UInt8)) UInt8) :=
      (g.parse e (Window.whole bytes)).reply
    ((g.parse e text : Run _ (E Text) _).reply.relocate Input.symbols id =
        parsed.relocate (List.map Ascii.toChar) Ascii.toChar ∧
      windowOnText.relocate Input.symbols id =
        parsed.relocate (List.map Ascii.toChar) Ascii.toChar ∧
      windowOnText.relocate Window.span id = inWindow.relocate Window.span Ascii.toChar) ∧
    (g.parse e bytes : Run _ (E (List UInt8)) _).reply.relocate Input.symbols id =
        parsed.relocate (List.map Ascii.toByte) Ascii.toByte ∧
      windowOnBytes.relocate Input.symbols id =
        parsed.relocate (List.map Ascii.toByte) Ascii.toByte ∧
      windowOnBytes.relocate Window.span id = inWindow.relocate Window.span Ascii.toByte := by
  intro text bytes parsed inWindow windowOnText windowOnBytes
  have htext : Input.symbols text = t.map Ascii.toChar := Text.symbols_eq text
  have hbytes : Input.symbols bytes = t.map Ascii.toByte := symbols_slice bytes
  have hwindow : (storage (Window Text)).ShowsAscii Ascii.toChar := Storage.showsAscii_utf8
  have hwindow' : (storage (Window (List UInt8))).ShowsAscii Ascii.toByte :=
    Storage.showsAscii_bytes
  refine ⟨⟨?_, ?_, ?_⟩, ?_, ?_, ?_⟩
  · exact relocate_ascii_eq Storage.showsAscii_utf8 g e trivial htext
  · exact relocate_ascii_eq hwindow g e (Window.valid_whole trivial)
      ((Window.symbols_whole trivial).trans htext)
  · exact relocate_ascii_window_eq Storage.showsAscii_utf8 g e trivial htext
  · exact relocate_ascii_eq Storage.showsAscii_bytes g e trivial hbytes
  · exact relocate_ascii_eq hwindow' g e (Window.valid_whole trivial)
      ((Window.symbols_whole trivial).trans hbytes)
  · exact relocate_ascii_window_eq Storage.showsAscii_bytes g e trivial hbytes

end ParseKit
