/-
  Literal patterns.

  A literal pattern is compared byte by byte and matches if it is a beginning
  of the bytes of its input, but for a match that would end inside a
  character.  On text a pattern that spells characters never does: it is
  matched as its characters are, one after the other, whichever mode the
  scanners are in and whether or not letter case matters.
-/
import ParseKit.Proofs.Scan.Spelling
import ParseKit.Proofs.Sequence

set_option autoImplicit false

namespace ParseKit

open LawfulInput

/-! ## Letters in either case -/

/-- The symbols that stand for a character but for the case of an ASCII letter. -/
def Pred.inEitherCase (c : Char) : Pred := .or (.standsFor c.toLower) (.standsFor c.toUpper)

theorem toNat_toLower (c : Char) :
    c.toLower.toNat = if 65 ≤ c.toNat ∧ c.toNat ≤ 90 then c.toNat + 32 else c.toNat := by
  have hupper : c.val ≥ 'A'.val ∧ c.val ≤ 'Z'.val ↔ 65 ≤ c.toNat ∧ c.toNat ≤ 90 := by
    rw [ge_iff_le, UInt32.le_iff_toNat_le, UInt32.le_iff_toNat_le]
    rfl
  unfold Char.toLower
  simp only [hupper]
  split
  · rename_i h
    change (c.val + 32).toNat = _
    rw [UInt32.toNat_add, Char.toNat_val]
    exact Nat.mod_eq_of_lt (Nat.lt_of_le_of_lt (Nat.add_le_add_right h.2 32) (by decide))
  · rfl

theorem toNat_toUpper (c : Char) :
    c.toUpper.toNat = if 97 ≤ c.toNat ∧ c.toNat ≤ 122 then c.toNat - 32 else c.toNat := by
  have hlower : c.val ≥ 'a'.val ∧ c.val ≤ 'z'.val ↔ 97 ≤ c.toNat ∧ c.toNat ≤ 122 := by
    rw [ge_iff_le, UInt32.le_iff_toNat_le, UInt32.le_iff_toNat_le]
    rfl
  unfold Char.toUpper
  simp only [hlower]
  split
  · rename_i h
    change (c.val + ('A'.val - 'a'.val)).toNat = _
    have hshift : ('A'.val - 'a'.val).toNat = 4294967264 := by decide
    rw [UInt32.toNat_add, Char.toNat_val, hshift]
    omega
  · rfl

/-- Characters are the same but for the case of an ASCII letter just if the one is the other in
lower or in upper case. -/
theorem toLower_eq_toLower_iff {c d : Char} :
    c.toLower = d.toLower ↔ c = d.toLower ∨ c = d.toUpper := by
  simp only [← Char.toNat_inj, toNat_toLower, toNat_toUpper]
  grind

theorem Storage.ReadsAs.holds_inEitherCase {σ : Type} [Symbol σ] {st : Storage σ} {read : σ → Char}
    (h : st.ReadsAs read) (c : Char) (s : σ) :
    (Pred.inEitherCase c).holds s = true ↔ (read s).toLower = c.toLower := by
  rw [toLower_eq_toLower_iff, Pred.inEitherCase, Pred.holds, Pred.holds, Pred.holds,
    h.standsFor_eq, h.standsFor_eq, Bool.or_eq_true, beq_iff_eq, beq_iff_eq]

/-! ## Characters in turn -/

namespace Parser

variable {ι σ ε : Type} [Input ι σ] [LawfulInput ι σ] [Symbol σ] {read : σ → Char}

/-- Parsers of one letter each carry out the judgement on the pattern they spell together. -/
theorem carriesOut_inTurn (hread : (storage ι).ReadsAs read) {κ : Type} {A : κ → Type}
    {p : (k : κ) → Parser ι ε (A k)} {mode : Mode} {rule : CaseRule} {one : Char → κ}
    {accepts : Char → σ → Bool} (hp : ∀ c, (p (one c)).TakesOne mode (accepts c))
    (haccepts : ∀ c s, accepts c s = true ↔
      Comparison.letter rule (read s) = Comparison.letter rule c)
    (cs : List Char) {i : ι} (hi : Valid i) :
    (inTurn p (cs.map one) i).reply.CarriesOut mode
      (.ofTag (storage ι) rule (Text.utf8 cs) (Input.symbols i)) i := by
  induction cs generalizing i with
  | nil =>
    rw [Judgement.ofTag_nil hread]
    exact .takes_none hi _ (.inl rfl) rfl
  | cons c cs ih =>
    rw [List.map_cons, inTurn]
    cases hsymbols : Input.symbols i with
    | nil =>
      rw [Judgement.ofTag_of_nil hread]
      obtain ⟨hmode, e, h⟩ | ⟨hmode, h⟩ := (hp c).of_nil hi hsymbols
      · rw [Run.reply_andThen_of_failure h]
        exact .refuses e (.inr hmode) rfl
      · rw [Run.reply_andThen_of_failure h]
        exact .asks rfl hmode
    | cons s l =>
      cases hs : accepts c s with
      | true =>
        obtain ⟨value, h⟩ := (hp c).of_accepted hi hsymbols hs
        obtain ⟨hvalid, hrest, -⟩ := behind_first hi hsymbols
        have hbehind := ih hvalid
        rw [hrest] at hbehind
        rw [Run.reply_andThen_of_success h, Judgement.ofTag_cons hread ((haccepts c s).1 hs)]
        exact (hbehind.map _).behind hi
      | false =>
        obtain ⟨e, h⟩ := (hp c).of_refused hi hsymbols hs
        have hne : Comparison.letter rule (read s) ≠ Comparison.letter rule c := by
          intro heq
          rw [(haccepts c s).2 heq] at hs
          cases hs
        rw [Run.reply_andThen_of_failure h, Judgement.ofTag_cons_refused hread hne]
        exact .refuses e (.inl rfl) rfl

end Parser

namespace Expr

variable {ι σ ε : Type} [Input ι σ] [LawfulInput ι σ] [Symbol σ] [ParseError ε ι]
  {read : σ → Char}

theorem takesOne_char (env : Env ι σ ε) (mode : Mode) (c : Char) :
    Parser.TakesOne ((scan mode (.char c)).eval env) mode fun s : σ => Symbol.standsFor s c :=
  (Parser.takesOne_char mode c).map Value.char

theorem takesOne_satisfy (env : Env ι σ ε) (mode : Mode) (p : Pred) :
    Parser.TakesOne ((scan mode (.satisfy p)).eval env) mode p.holds :=
  (Parser.takesOne_one mode p.holds .char).map Value.symbol

/-- A pattern that spells characters is matched as its characters are in turn. -/
theorem agrees_tag_tuple (hread : (storage ι).ReadsAs read) {i : ι} (hi : Valid i)
    {env : Env ι σ ε} {mode : Mode} {rule : CaseRule} {one : Char → Expr}
    {accepts : Char → σ → Bool} (hone : ∀ c, Parser.TakesOne ((one c).eval env) mode (accepts c))
    (haccepts : ∀ c s, accepts c s = true ↔
      Comparison.letter rule (read s) = Comparison.letter rule c)
    (cs : List Char) :
    ((scan mode (.tag rule (Text.utf8 cs))).eval env i).reply.Agrees
      ((recognize (tuple (cs.map one))).eval env i).reply := by
  have hcarries : ((tuple (cs.map one)).eval env i).reply.CarriesOut mode
      (.ofTag (storage ι) rule (Text.utf8 cs) (Input.symbols i)) i := by
    rw [eval_tuple]
    exact (Parser.carriesOut_inTurn hread hone haccepts cs hi).map _
  have hagrees := Parser.agrees_recognize hi hcarries
  rw [← Parser.tag_eq hi] at hagrees
  exact hagrees.map Value.piece

end Expr

/-! ## Patterns of any bytes -/

namespace Comparison

theorem agree_comm (rule : CaseRule) (a b : List UInt8) : agree rule a b = agree rule b a := by
  induction a generalizing b with
  | nil => cases b <;> rfl
  | cons x a ih =>
    cases b with
    | nil => rfl
    | cons y b =>
      have hsame : sameByte rule x y = sameByte rule y x :=
        Bool.eq_iff_iff.2 (by rw [sameByte_iff, sameByte_iff, eq_comm])
      have h := ih b
      simp only [agree, List.zip_cons_cons, List.all_cons] at h ⊢
      rw [h, hsame]

theorem ofBytes_eq_found_iff {rule : CaseRule} {input pattern : List UInt8} {n : Nat} :
    ofBytes rule input pattern = .found n ↔
      agree rule input pattern = true ∧ pattern.length ≤ input.length ∧ n = pattern.length := by
  rw [ofBytes_eq]
  by_cases hlt : input.length < pattern.length
  · cases agree rule input pattern <;> simp [hlt, Nat.not_le.2 hlt]
  · cases agree rule input pattern <;> simp [hlt, Nat.not_lt.1 hlt, eq_comm]

/-- A pattern is found exactly where it is a beginning. -/
theorem prefix_iff_ofBytes {rule : CaseRule} {input pattern : List UInt8} :
    pattern.map (fold rule) <+: input.map (fold rule) ↔
      ofBytes rule input pattern = .found pattern.length := by
  rw [ofBytes_eq_found_iff, agree_comm]
  constructor
  · intro h
    have hle : pattern.length ≤ input.length := by simpa using h.length_le
    rw [← agree_iff_prefix hle] at h
    exact ⟨h, hle, rfl⟩
  · rintro ⟨hagree, hle, -⟩
    rwa [← agree_iff_prefix hle]

end Comparison

section

variable {ι σ ε : Type} [Input ι σ] {i : ι} {bytes : List UInt8}

theorem Input.compare_of_found (hbytes : Input.bytes i = some bytes) {rule : CaseRule}
    {pattern : List UInt8} {n : Nat} (h : Comparison.ofBytes rule bytes pattern = .found n) :
    Input.compare rule i pattern = if Input.isBoundary i n then .found n else .mismatch := by
  rw [Input.compare, hbytes]
  simp only [h]

theorem Input.compare_of_not_found (hbytes : Input.bytes i = some bytes) {rule : CaseRule}
    {pattern : List UInt8} (h : ∀ n, Comparison.ofBytes rule bytes pattern ≠ .found n) :
    Input.compare rule i pattern = Comparison.ofBytes rule bytes pattern := by
  rw [Input.compare, hbytes]
  cases hcompare : Comparison.ofBytes rule bytes pattern with
  | found n => exact (h n hcompare).elim
  | tooShort => simp only [hcompare]
  | mismatch => simp only [hcompare]

/-- A literal pattern is taken where it is a beginning of the bytes and ends between symbols. -/
theorem Parser.tag_success_iff [ParseError ε ι] (hbytes : Input.bytes i = some bytes)
    {mode : Mode} {rule : CaseRule} {pattern : List UInt8} {piece rest : ι} :
    (tag mode rule pattern i : Run ι ε ι).reply = .success piece rest ↔
      pattern.map (Comparison.fold rule) <+: bytes.map (Comparison.fold rule) ∧
        Input.isBoundary i pattern.length = true ∧
        Input.splitAt i pattern.length = (piece, rest) := by
  rw [Comparison.prefix_iff_ofBytes, tag]
  cases hcompare : Comparison.ofBytes rule bytes pattern with
  | found n =>
    obtain ⟨-, -, rfl⟩ := Comparison.ofBytes_eq_found_iff.1 hcompare
    rw [Input.compare_of_found hbytes hcompare]
    cases hboundary : Input.isBoundary i pattern.length with
    | true => simp [cut, hboundary, Run.success, Prod.ext_iff]
    | false => simp [Run.reject, Run.recoverable, Run.failure]
  | tooShort =>
    rw [Input.compare_of_not_found hbytes (by simp [hcompare]), hcompare]
    cases mode <;> simp [Mode.atEnd, Run.reject, Run.recoverable, Run.failure]
  | mismatch =>
    rw [Input.compare_of_not_found hbytes (by simp [hcompare]), hcompare]
    simp [Run.reject, Run.recoverable, Run.failure]

variable [LawfulInput ι σ]

/-- That a match ends inside a character is never a reason against a pattern that spells
characters. -/
theorem Storage.ReadsAs.compare_utf8 [Symbol σ] {read : σ → Char} (h : (storage ι).ReadsAs read)
    (hi : Valid i) (hbytes : Input.bytes i = some bytes) (rule : CaseRule) (cs : List Char) :
    Input.compare rule i (Text.utf8 cs) = Comparison.ofBytes rule bytes (Text.utf8 cs) := by
  cases hcompare : Comparison.ofBytes rule bytes (Text.utf8 cs) with
  | tooShort => rw [Input.compare_of_not_found hbytes (by simp [hcompare]), hcompare]
  | mismatch => rw [Input.compare_of_not_found hbytes (by simp [hcompare]), hcompare]
  | found n =>
    rw [Input.compare_of_found hbytes hcompare]
    obtain ⟨hagree, hle, rfl⟩ := Comparison.ofBytes_eq_found_iff.1 hcompare
    rw [bytes_eq hi] at hbytes
    rw [(storage ι).length_of_bytes? hbytes] at hle
    obtain rfl : (Input.symbols i).flatMap (fun s => String.utf8EncodeChar (read s)) = bytes := by
      rw [Storage.bytes?, h.encode?_eq] at hbytes
      exact Option.some.inj hbytes
    obtain ⟨count, hcount⟩ := h.exists_countAt hagree hle
    exact if_pos ((isBoundary_iff_countAt hi).2 (by rw [hcount]; rfl))

end

/-! ## Bytes -/

/-- A kind of input whose symbols are the bytes it is stored in. -/
class ByteInput (ι : Type) [Input ι UInt8] [LawfulInput ι UInt8] : Prop where
  encode?_eq : (storage ι).encode? = some fun b => [b]

instance : ByteInput (List UInt8) where
  encode?_eq := rfl

instance {ι : Type} [Input ι UInt8] [LawfulInput ι UInt8] [ByteInput ι] :
    ByteInput (Window ι) where
  encode?_eq := ByteInput.encode?_eq (ι := ι)

namespace ByteInput

variable {ι : Type} [Input ι UInt8] [LawfulInput ι UInt8] [ByteInput ι]

theorem bytes?_eq (l : List UInt8) : (storage ι).bytes? l = some l := by
  rw [Storage.bytes?, encode?_eq, Option.map_some, List.flatMap_singleton']

/-- Bytes may be split everywhere. -/
theorem isBoundary_of_le {i : ι} (hi : Valid i) {n : Nat} (hn : n ≤ (Input.symbols i).length) :
    Input.isBoundary i n = true := by
  refine (isBoundary_iff hi).2 ⟨_, _, (List.take_append_drop n _).symm, ?_⟩
  rw [← (storage ι).length_of_bytes? (bytes?_eq _), List.length_take, Nat.min_eq_left hn]

end ByteInput

namespace Expr

/-- **Literal patterns.**  On text, in both modes, taking a pattern that spells characters agrees
with recognizing these characters one after the other, and without regard to case with recognizing
symbols that read as these characters up to the case of ASCII letters: both succeed with the same
piece and the same rest, both fail recoverably, or both ask for more input.  For such a pattern it
is the bytes that decide, and never where a match would end.

A pattern of any bytes is taken from text exactly if it is a beginning of the bytes of the text, up
to the case of ASCII letters where case is ignored, and ends on a boundary between characters; from
bytes exactly if it is a beginning of these.  It takes just as many bytes as it has. -/
theorem literal_patterns {ι σ ε κ δ : Type} [Input ι σ] [LawfulInput ι σ] [Symbol σ] [TextInput ι]
    [ParseError ε ι] [Input κ UInt8] [LawfulInput κ UInt8] [ByteInput κ] [ParseError δ κ]
    {i : ι} (hi : Valid i) {k : κ} (hk : Valid k) (env : Env ι σ ε) (mode : Mode) :
    (∀ cs : List Char,
      ((scan mode (.tag .exact (Text.utf8 cs))).eval env i).reply.Agrees
        ((recognize (tuple (cs.map fun c => scan mode (.char c)))).eval env i).reply) ∧
    (∀ (c : Char) (s : σ), (Pred.inEitherCase c).holds s = true ↔
      ∃ x, Symbol.char? s = some x ∧ x.toLower = c.toLower) ∧
    (∀ cs : List Char,
      ((scan mode (.tag .ignored (Text.utf8 cs))).eval env i).reply.Agrees
        ((recognize (tuple (cs.map fun c =>
          scan mode (.satisfy (.inEitherCase c))))).eval env i).reply) ∧
    (∃ bytes, Input.bytes i = some bytes ∧
      (∀ rule cs, Input.compare rule i (Text.utf8 cs) =
        Comparison.ofBytes rule bytes (Text.utf8 cs)) ∧
      ∀ rule pattern piece rest,
        ((Parser.tag mode rule pattern i : Run ι ε ι).reply = .success piece rest ↔
          pattern.map (Comparison.fold rule) <+: bytes.map (Comparison.fold rule) ∧
            Input.isBoundary i pattern.length = true ∧
            Input.splitAt i pattern.length = (piece, rest)) ∧
        ((Parser.tag mode rule pattern i : Run ι ε ι).reply = .success piece rest →
          Input.bytes piece = some (bytes.take pattern.length) ∧
            Input.bytes rest = some (bytes.drop pattern.length))) ∧
    ∀ rule pattern piece rest,
      ((Parser.tag mode rule pattern k : Run κ δ κ).reply = .success piece rest ↔
        pattern.map (Comparison.fold rule) <+: (Input.symbols k).map (Comparison.fold rule) ∧
          Input.splitAt k pattern.length = (piece, rest)) ∧
      ((Parser.tag mode rule pattern k : Run κ δ κ).reply = .success piece rest →
        Input.symbols piece = (Input.symbols k).take pattern.length ∧
          Input.symbols rest = (Input.symbols k).drop pattern.length) := by
  obtain ⟨read, hread⟩ := TextInput.exists_readsAs (ι := ι) (σ := σ)
  have hbytes : Input.bytes i =
      some ((Input.symbols i).flatMap fun s => String.utf8EncodeChar (read s)) := by
    rw [bytes_eq hi, Storage.bytes?, hread.encode?_eq]
    rfl
  have hbytes' : Input.bytes k = some (Input.symbols k) := by
    rw [bytes_eq hk, ByteInput.bytes?_eq]
  refine ⟨fun cs => ?_, fun c s => ?_, fun cs => ?_, ⟨_, hbytes, ?_, ?_⟩, ?_⟩
  · refine agrees_tag_tuple hread hi (takesOne_char env mode) (fun c s => ?_) cs
    rw [hread.standsFor_eq, beq_iff_eq]
    rfl
  · rw [hread.holds_inEitherCase, hread.char?_eq]
    simp
  · have hcase : ∀ c s, (Pred.inEitherCase c).holds s = true ↔
        Comparison.letter .ignored (read s) = Comparison.letter .ignored c :=
      hread.holds_inEitherCase
    exact agrees_tag_tuple hread hi (fun c => takesOne_satisfy env mode (.inEitherCase c)) hcase cs
  · exact hread.compare_utf8 hi hbytes
  · refine fun rule pattern piece rest => ⟨Parser.tag_success_iff hbytes, fun h => ?_⟩
    obtain ⟨-, hboundary, hsplit⟩ := (Parser.tag_success_iff hbytes).1 h
    have hparts := bytes_splitAt hi hbytes hboundary
    rwa [hsplit] at hparts
  · refine fun rule pattern piece rest => ⟨?_, fun h => ?_⟩
    · rw [Parser.tag_success_iff hbytes']
      refine and_congr_right fun hprefix => and_iff_right (ByteInput.isBoundary_of_le hk ?_)
      simpa using hprefix.length_le
    · obtain ⟨-, hboundary, hsplit⟩ := (Parser.tag_success_iff hbytes').1 h
      have hparts := bytes_splitAt hk hbytes' hboundary
      have hvalid := valid_splitAt hk hboundary
      rw [hsplit] at hparts hvalid
      rw [bytes_eq hvalid.1, bytes_eq hvalid.2, ByteInput.bytes?_eq, ByteInput.bytes?_eq] at hparts
      exact ⟨Option.some.inj hparts.1, Option.some.inj hparts.2⟩

/-- A letter of two bytes and one in upper case: they are recognized as the pattern is found, in
lower case too if case is ignored, and a third letter is asked for.  The first byte alone is taken
from bytes and not from text. -/
theorem literal_patterns_accent :
    let w : Window Text := ⟨⟨['n', 'é', 'A']⟩, 1, 4⟩
    let bytes : List UInt8 := [0xC3, 0xA9, 0x41]
    let env : Env (Window Text) Char (Cause (Window Text)) := fun _ _ => .stuck .tooDeep
    let letters (cs : List Char) : Expr := tuple (cs.map fun c => scan .streaming (.char c))
    let lettersInEitherCase (cs : List Char) : Expr :=
      tuple (cs.map fun c => scan .streaming (.satisfy (.inEitherCase c)))
    Valid w ∧ Valid bytes ∧
    ((recognize (letters ['é', 'A'])).eval env w).reply = .success (.piece w) ⟨w.buffer, 4, 4⟩ ∧
    ((recognize (lettersInEitherCase ['é', 'a'])).eval env w).reply =
      .success (.piece w) ⟨w.buffer, 4, 4⟩ ∧
    ((recognize (letters ['é', 'A', 'b'])).eval env w).reply = .failure .incomplete ∧
    (∀ piece rest, (Parser.tag .streaming .exact [0xC3] w : Run _ (Cause (Window Text)) _).reply ≠
      .success piece rest) ∧
    (Parser.tag .streaming .exact [0xC3] bytes : Run _ (Cause (List UInt8)) _).reply =
      .success [0xC3] [0xA9, 0x41] := by
  intro w bytes env letters lettersInEitherCase
  have hvalid : Valid w := (valid_splitAt (Window.valid_whole trivial) (n := 1) (by decide)).2
  have hbytes : Valid bytes := trivial
  obtain ⟨hexact, -, hignored, ⟨_, -, -, htext⟩, hslice⟩ :=
    literal_patterns (δ := Cause (List UInt8)) hvalid hbytes env .streaming
  refine ⟨hvalid, hbytes, (hexact ['é', 'A']).eq_of_success rfl,
    (hignored ['é', 'a']).eq_of_success rfl, (hexact ['é', 'A', 'b']).eq_of_incomplete rfl, ?_,
    (hslice .exact [0xC3] _ _).1.2 ⟨by decide, rfl⟩⟩
  intro piece rest hreply
  exact nomatch ((htext .exact [0xC3] piece rest).1.1 hreply).2.1

end Expr

end ParseKit
