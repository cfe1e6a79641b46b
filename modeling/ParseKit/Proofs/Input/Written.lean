/-
  Texts that are written in inputs.

  A text is written in an input if the input is stored as its UTF-8 form,
  whether the symbols of the input are characters or bytes.  What a parser
  has to know of a text can then be told by its bytes: which bytes are its
  digits, and which texts it begins with.
-/
import ParseKit.Proofs.LiteralPatterns

set_option autoImplicit false

namespace ParseKit

open LawfulInput

/-! ## Beginnings of texts -/

theorem utf8EncodeChar_append_inj {c d : Char} {x y : List UInt8}
    (h : String.utf8EncodeChar c ++ x = String.utf8EncodeChar d ++ y) : c = d ∧ x = y := by
  have hc := ByteArray.utf8DecodeChar?_utf8EncodeChar_append (b := x.toByteArray) (c := c)
  rw [← List.toByteArray_append, h, List.toByteArray_append,
    ByteArray.utf8DecodeChar?_utf8EncodeChar_append] at hc
  obtain rfl : d = c := Option.some.inj hc
  exact ⟨rfl, List.append_cancel_left h⟩

theorem Text.utf8_append (cs ds : List Char) : utf8 (cs ++ ds) = utf8 cs ++ utf8 ds :=
  List.flatMap_append

theorem Text.utf8_ne_nil {cs : List Char} (h : cs ≠ []) : utf8 cs ≠ [] := by
  obtain ⟨c, cs, rfl⟩ := List.exists_cons_of_ne_nil h
  exact List.append_ne_nil_of_left_ne_nil String.utf8EncodeChar_ne_nil _

/-- A text that begins with the bytes of another begins with its characters. -/
theorem Text.exists_of_utf8_eq_append {cs ds : List Char} {left : List UInt8}
    (h : utf8 cs = utf8 ds ++ left) : ∃ more, cs = ds ++ more ∧ left = utf8 more := by
  induction ds generalizing cs with
  | nil => exact ⟨cs, rfl, h.symm⟩
  | cons d ds ih =>
    rw [utf8, utf8, List.flatMap_cons, List.append_assoc] at h
    cases cs with
    | nil =>
      have hnil := congrArg List.length h
      have hpos := List.length_pos_of_ne_nil (String.utf8EncodeChar_ne_nil (c := d))
      rw [List.length_append, List.flatMap_nil, List.length_nil] at hnil
      omega
    | cons c cs =>
      rw [List.flatMap_cons] at h
      obtain ⟨rfl, hrest⟩ := utf8EncodeChar_append_inj h
      obtain ⟨more, rfl, hleft⟩ := ih hrest
      exact ⟨more, rfl, hleft⟩

/-! ## Digits -/

/-- Whether the first of some symbols is a digit. -/
def Symbol.startsWithDigit {σ : Type} [Symbol σ] (l : List σ) : Bool :=
  l.head?.any (Symbol.isIn .digit)

theorem Symbol.takeWhile_isIn_digit_eq_nil {σ : Type} [Symbol σ] {l : List σ} :
    l.takeWhile (Symbol.isIn .digit) = [] ↔ Symbol.startsWithDigit l = false := by
  cases l with
  | nil => exact ⟨fun _ => rfl, fun _ => rfl⟩
  | cons s l => cases hs : Symbol.isIn .digit s <;> simp [startsWithDigit, hs]

/-- Digits in front of what does not begin with one are the longest run of digits. -/
theorem Symbol.takeWhile_isIn_digit_append {σ : Type} [Symbol σ] {d l : List σ}
    (hd : ∀ s ∈ d, Symbol.isIn .digit s = true) (hl : Symbol.startsWithDigit l = false) :
    (d ++ l).takeWhile (Symbol.isIn .digit) = d := by
  rw [List.takeWhile_append_of_pos hd, takeWhile_isIn_digit_eq_nil.2 hl, List.append_nil]

/-- The first byte of every symbol tells whether the symbol is a digit, and a digit has no other
byte. -/
def Storage.LeadTellsDigit {σ : Type} [Symbol σ] (encode : σ → List UInt8) : Prop :=
  ∀ s, ∃ b tail, encode s = b :: tail ∧ Symbol.isIn .digit b = Symbol.isIn .digit s ∧
    (Symbol.isIn .digit s = true → tail = [])

theorem isDigit_eq_false_of_le {c : Char} (hc : 128 ≤ c.toNat) : c.isDigit = false := by
  refine Bool.eq_false_iff.2 fun h => ?_
  have hle : c.toNat ≤ 57 :=
    UInt32.le_iff_toNat_le.1 (of_decide_eq_true (Bool.and_eq_true_iff.1 h).2)
  omega

theorem Symbol.toNat_latin (b : UInt8) : (latin b).toNat = b.toNat := by
  have hvalid : b.toNat.isValidChar := .inl (Nat.lt_trans b.toNat_lt (by decide))
  rw [latin, Char.ofNat, dif_pos hvalid]
  rfl

/-- A byte that is a digit is the form of one. -/
theorem Symbol.utf8EncodeChar_latin {b : UInt8} (hb : Symbol.isIn .digit b = true) :
    String.utf8EncodeChar (latin b) = [b] := by
  have hlt : b.toNat < 128 := by
    refine Nat.lt_of_not_le fun hle => ?_
    have hdigit : (latin b).isDigit = true := hb
    rw [isDigit_eq_false_of_le ((toNat_latin b).symm ▸ hle)] at hdigit
    cases hdigit
  let a : Ascii := ⟨⟨b.toNat, hlt⟩⟩
  have hbyte : a.toByte = b := UInt8.toNat_inj.1 a.toNat_toByte
  rw [← hbyte, Ascii.latin_toByte, Ascii.utf8EncodeChar_toChar]

theorem Storage.leadTellsDigit_utf8EncodeChar : LeadTellsDigit String.utf8EncodeChar := by
  intro c
  rcases Nat.lt_or_ge c.toNat 128 with hlt | hge
  · obtain ⟨a, rfl⟩ : ∃ a : Ascii, a.toChar = c := ⟨⟨⟨c.toNat, hlt⟩⟩, Char.ofNat_toNat c⟩
    refine ⟨_, [], Ascii.utf8EncodeChar_toChar _, ?_, fun _ => rfl⟩
    exact congrArg Char.isDigit a.latin_toByte
  · obtain ⟨b, tail, hencode⟩ := List.exists_cons_of_ne_nil (String.utf8EncodeChar_ne_nil (c := c))
    have hb : 128 ≤ b.toNat := le_toNat_of_mem_utf8EncodeChar hge (by simp [hencode])
    have hlatin : Symbol.isIn .digit b = false :=
      isDigit_eq_false_of_le ((Symbol.toNat_latin b).symm ▸ hb)
    have hc : Symbol.isIn .digit c = false := isDigit_eq_false_of_le hge
    exact ⟨b, tail, hencode, hlatin.trans hc.symm, fun h => nomatch hc.symm.trans h⟩

/-- The digits that some bytes begin with are those of the symbols the bytes are of. -/
theorem Storage.LeadTellsDigit.takeWhile_flatMap {σ : Type} [Symbol σ] {encode : σ → List UInt8}
    (h : LeadTellsDigit encode) (l : List σ) :
    (l.flatMap encode).takeWhile (Symbol.isIn .digit) =
      (l.takeWhile (Symbol.isIn .digit)).flatMap encode := by
  induction l with
  | nil => rfl
  | cons s l ih =>
    obtain ⟨b, tail, hencode, hdigit, htail⟩ := h s
    rw [List.flatMap_cons, hencode, List.cons_append, List.takeWhile_cons, List.takeWhile_cons,
      hdigit]
    cases hs : Symbol.isIn .digit s with
    | false => rfl
    | true =>
      obtain rfl := htail hs
      rw [if_pos rfl, if_pos rfl, List.nil_append, ih, List.flatMap_cons, hencode]
      rfl

/-- A text begins with a digit just if its bytes do. -/
theorem Text.startsWithDigit_utf8 (cs : List Char) :
    Symbol.startsWithDigit (utf8 cs) = Symbol.startsWithDigit cs := by
  cases cs with
  | nil => rfl
  | cons c cs =>
    obtain ⟨b, tail, hencode, hdigit, -⟩ := Storage.leadTellsDigit_utf8EncodeChar c
    rw [utf8, List.flatMap_cons, hencode, List.cons_append, Symbol.startsWithDigit,
      Symbol.startsWithDigit, List.head?_cons, List.head?_cons, Option.any_some, Option.any_some,
      hdigit]

/-- A text of digits is written in bytes that are digits. -/
theorem Text.isIn_digit_of_mem_utf8 {cs : List Char} (hcs : ∀ c ∈ cs, c.isDigit = true) {b : UInt8}
    (hb : b ∈ utf8 cs) : Symbol.isIn .digit b = true := by
  obtain ⟨c, hc, hb⟩ := List.mem_flatMap.1 hb
  obtain ⟨b', tail, hencode, hdigit, htail⟩ := Storage.leadTellsDigit_utf8EncodeChar c
  have hc : Symbol.isIn .digit c = true := hcs c hc
  obtain rfl := htail hc
  rw [hencode, List.mem_singleton] at hb
  rw [hb, hdigit, hc]

/-- Bytes that are digits are a text of digits. -/
theorem Text.exists_of_digits {bytes : List UInt8}
    (h : ∀ b ∈ bytes, Symbol.isIn .digit b = true) :
    ∃ cs, utf8 cs = bytes ∧ ∀ c ∈ cs, c.isDigit = true := by
  refine ⟨bytes.map Symbol.latin, ?_, fun c hc => ?_⟩
  · have hform : ∀ b ∈ bytes, String.utf8EncodeChar (Symbol.latin b) = [b] :=
      fun b hb => Symbol.utf8EncodeChar_latin (h b hb)
    rw [utf8, List.flatMap_map, List.flatMap_congr hform, List.flatMap_singleton']
  · obtain ⟨b, hb, rfl⟩ := List.mem_map.1 hc
    exact h b hb

/-! ## Kinds of input that texts are written in -/

/-- The input is stored as the UTF-8 form of a text. -/
def Input.HasText {ι σ : Type} [Input ι σ] (i : ι) (cs : List Char) : Prop :=
  Input.bytes i = some (Text.utf8 cs)

/-- A kind of input that is stored as bytes, where the characters of a text end at boundaries and
digits are told by their bytes. -/
class WrittenInput (ι : Type) {σ : Type} [Input ι σ] [LawfulInput ι σ] [Symbol σ] : Prop where
  exists_encode : ∃ encode, (storage ι).encode? = some encode ∧ Storage.LeadTellsDigit encode
  isBoundary_utf8 : ∀ {i : ι} {bytes : List UInt8}, Valid i → Input.bytes i = some bytes →
    ∀ cs, Text.utf8 cs <+: bytes → Input.isBoundary i (Text.utf8 cs).length = true

instance {ι σ : Type} [Input ι σ] [LawfulInput ι σ] [Symbol σ] [TextInput ι] : WrittenInput ι where
  exists_encode := by
    obtain ⟨read, hread⟩ := TextInput.exists_readsAs (ι := ι) (σ := σ)
    refine ⟨_, hread.encode?_eq, fun s => ?_⟩
    have hdigit : Symbol.isIn .digit s = Symbol.isIn .digit (read s) := by
      rw [Symbol.isIn, Symbol.isIn, hread.char?_eq]
      rfl
    rw [hdigit]
    exact Storage.leadTellsDigit_utf8EncodeChar (read s)
  isBoundary_utf8 {i bytes} hi hbytes cs hbegins := by
    obtain ⟨read, hread⟩ := TextInput.exists_readsAs (ι := ι) (σ := σ)
    have hfound := Comparison.prefix_iff_ofBytes.1 (hbegins.map (Comparison.fold .exact))
    have hcompare := hread.compare_utf8 hi hbytes .exact cs
    rw [Input.compare_of_found hbytes hfound, hfound] at hcompare
    by_contra hboundary
    rw [if_neg hboundary] at hcompare
    cases hcompare

instance {ι : Type} [Input ι UInt8] [LawfulInput ι UInt8] [ByteInput ι] : WrittenInput ι where
  exists_encode := ⟨_, ByteInput.encode?_eq, fun b => ⟨b, [], rfl, rfl, fun _ => rfl⟩⟩
  isBoundary_utf8 {i bytes} hi hbytes cs hbegins := by
    rw [bytes_eq hi, ByteInput.bytes?_eq] at hbytes
    cases hbytes
    exact ByteInput.isBoundary_of_le hi hbegins.length_le

theorem WrittenInput.exists_bytes {ι σ : Type} [Input ι σ] [LawfulInput ι σ] [Symbol σ]
    [WrittenInput ι] {i : ι} (hi : Valid i) : ∃ bytes, Input.bytes i = some bytes := by
  obtain ⟨encode, hencode, -⟩ := exists_encode (ι := ι) (σ := σ)
  exact ⟨_, by rw [bytes_eq hi, Storage.bytes?, hencode, Option.map_some]⟩

/-- The digits in front of an input take up as many units as its bytes begin with digits. -/
theorem WrittenInput.extent_digits {ι σ : Type} [Input ι σ] [LawfulInput ι σ] [Symbol σ]
    [WrittenInput ι] {i : ι} {bytes : List UInt8} (hi : Valid i)
    (hbytes : Input.bytes i = some bytes) :
    (storage ι).extent ((Input.symbols i).take
        (Judgement.runLength (Symbol.isIn .digit) (Input.symbols i))) =
      (bytes.takeWhile (Symbol.isIn .digit)).length := by
  obtain ⟨encode, hencode, hlead⟩ := exists_encode (ι := ι) (σ := σ)
  have hflat : ∀ l, (storage ι).bytes? l = some (l.flatMap encode) := fun l => by
    rw [Storage.bytes?, hencode]
    rfl
  obtain rfl : (Input.symbols i).flatMap encode = bytes := by
    rw [bytes_eq hi, hflat] at hbytes
    exact Option.some.inj hbytes
  rw [hlead.takeWhile_flatMap, ← Judgement.takeWhile_eq_take,
    (storage ι).length_of_bytes? (hflat _)]

end ParseKit
