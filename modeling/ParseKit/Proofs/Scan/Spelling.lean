/-
  Patterns that spell characters.

  The UTF-8 form of a character tells the character, and turning ASCII upper
  case to lower case comes to the same before and after encoding.  The first
  bytes of two characters tell how long both forms are, and forms of one
  length agree only if the characters do.  So a pattern that is the UTF-8
  form of some characters is judged against a text one character after the
  other: the judgement on a first character and the rest of the pattern is
  the judgement on the rest behind that character.
-/
import ParseKit.Proofs.Ascii
import ParseKit.Proofs.Scan.CarriedOut
import ParseKit.Proofs.Streaming.Continued

set_option autoImplicit false

namespace ParseKit

open LawfulInput

/-! ## Letters and their bytes -/

theorem utf8EncodeChar_injective {c d : Char}
    (h : String.utf8EncodeChar c = String.utf8EncodeChar d) : c = d := by
  have hc := ByteArray.utf8DecodeChar?_utf8EncodeChar_append (b := .empty) (c := c)
  rw [h, ByteArray.utf8DecodeChar?_utf8EncodeChar_append] at hc
  exact (Option.some.inj hc).symm

/-- A character beyond ASCII has no byte of an ASCII character. -/
theorem le_toNat_of_mem_utf8EncodeChar {c : Char} (hc : 128 ≤ c.toNat) {b : UInt8}
    (hb : b ∈ String.utf8EncodeChar c) : 128 ≤ b.toNat := by
  have hbyte : ∀ m, 128 ≤ m → m < 256 → 128 ≤ (UInt8.ofNat m).toNat := by
    intro m hle hlt
    rwa [UInt8.toNat_ofNat', Nat.mod_eq_of_lt hlt]
  have hval : ¬ c.val.toNat ≤ 127 := Nat.not_le.2 hc
  unfold String.utf8EncodeChar at hb
  dsimp only at hb
  rw [if_neg hval] at hb
  split at hb
  · simp only [List.mem_cons, List.not_mem_nil, or_false] at hb
    rcases hb with rfl | rfl <;> exact hbyte _ (by omega) (by omega)
  · split at hb
    · simp only [List.mem_cons, List.not_mem_nil, or_false] at hb
      rcases hb with rfl | rfl | rfl <;> exact hbyte _ (by omega) (by omega)
    · simp only [List.mem_cons, List.not_mem_nil, or_false] at hb
      rcases hb with rfl | rfl | rfl | rfl <;> exact hbyte _ (by omega) (by omega)

/-! ## Members of a set and its bytes -/

/-- The byte of an ASCII character is in the UTF-8 form of that character only. -/
theorem Ascii.toByte_mem_utf8EncodeChar_iff (a : Ascii) (c : Char) :
    a.toByte ∈ String.utf8EncodeChar c ↔ a.toChar = c := by
  rcases Nat.lt_or_ge c.toNat 128 with hlt | hge
  · obtain ⟨a', rfl⟩ : ∃ a' : Ascii, a'.toChar = c := ⟨⟨⟨c.toNat, hlt⟩⟩, Char.ofNat_toNat c⟩
    rw [utf8EncodeChar_toChar, List.mem_singleton, ← UInt8.toNat_inj, ← Char.toNat_inj]
    simp only [toNat_toByte, toNat_toChar]
  · constructor
    · intro hmem
      have hle := le_toNat_of_mem_utf8EncodeChar hge hmem
      rw [toNat_toByte] at hle
      exact absurd a.code.isLt (Nat.not_lt.2 hle)
    · rintro rfl
      rw [toNat_toChar] at hge
      exact absurd a.code.isLt (Nat.not_lt.2 hge)

/-- An ASCII character is a member of a text just if its byte is one of the bytes of the text. -/
theorem SymbolSet.contains_text_ascii (chars : List Char) (a : Ascii) :
    (SymbolSet.text chars).contains a = (Text.utf8 chars).contains a.toByte := by
  rw [Bool.eq_iff_iff, List.contains_iff_mem, Text.utf8, List.mem_flatMap, contains,
    List.any_eq_true]
  refine exists_congr fun c => and_congr_right fun _ => ?_
  rw [Ascii.toByte_mem_utf8EncodeChar_iff]
  exact beq_iff_eq

/-- A byte is a member of a text just if it is an ASCII character and one of the bytes of the
text. -/
theorem SymbolSet.contains_text_byte (chars : List Char) (b : UInt8) :
    (SymbolSet.text chars).contains b =
      (decide (b.toNat < 128) && (Text.utf8 chars).contains b) := by
  by_cases hb : b.toNat < 128
  · obtain ⟨a, rfl⟩ : ∃ a : Ascii, a.toByte = b := ⟨⟨⟨b.toNat, hb⟩⟩, UInt8.ofNat_toNat⟩
    rw [decide_eq_true hb, Bool.true_and, ← contains_text_ascii]
    exact Storage.showsAscii_bytes.holds_eq (.member (.text chars)) _
  · have hnone : ∀ c, Symbol.standsFor b c = false := fun c => by
      change (decide (b.toNat < 128) && Symbol.latin b == c) = false
      rw [decide_eq_false hb, Bool.false_and]
    rw [decide_eq_false hb, Bool.false_and, contains, List.any_eq_false]
    exact fun c _ => Bool.eq_false_iff.1 (hnone c)

namespace Comparison

/-- A character as it counts in a comparison. -/
def letter : CaseRule → Char → Char
  | .exact, c => c
  | .ignored, c => c.toLower

/-- Turning upper case to lower case comes to the same before and after encoding. -/
theorem map_fold_utf8EncodeChar (rule : CaseRule) (c : Char) :
    (String.utf8EncodeChar c).map (fold rule) = String.utf8EncodeChar (letter rule c) := by
  have hascii : ∀ n < 128, (String.utf8EncodeChar (.ofNat n)).map lowerByte =
      String.utf8EncodeChar (Char.ofNat n).toLower := by decide
  cases rule with
  | exact => exact List.map_id _
  | ignored =>
    rcases Nat.lt_or_ge c.toNat 128 with hlt | hge
    · have h := hascii c.toNat hlt
      rwa [Char.ofNat_toNat] at h
    · -- Neither the character nor any of its bytes is a letter in upper case.
      have hlower : c.toLower = c := by
        refine dif_neg fun h => ?_
        have hle : c.toNat ≤ 90 := UInt32.le_iff_toNat_le.1 h.2
        omega
      have hbytes : ∀ b ∈ String.utf8EncodeChar c, fold .ignored b = b := by
        intro b hb
        have hle := le_toNat_of_mem_utf8EncodeChar hge hb
        refine if_neg fun h => ?_
        have hle' : b.toNat ≤ 90 :=
          UInt8.le_iff_toNat_le.1 (of_decide_eq_true (Bool.and_eq_true_iff.1 h).2)
        omega
      rw [letter, hlower]
      exact (List.map_congr_left hbytes).trans (List.map_id _)

/-- Heads of one length are compared with each other. -/
theorem agree_append_append {rule : CaseRule} {a b : List UInt8} (h : a.length = b.length)
    (x y : List UInt8) : agree rule (a ++ x) (b ++ y) = (agree rule a b && agree rule x y) := by
  rw [agree, List.zip_append h, List.all_append]
  rfl

/-- Forms of different lengths differ in their first bytes. -/
theorem agree_utf8EncodeChar_of_length_ne (rule : CaseRule) {c d : Char}
    (h : (String.utf8EncodeChar c).length ≠ (String.utf8EncodeChar d).length)
    (x y : List UInt8) :
    agree rule (String.utf8EncodeChar c ++ x) (String.utf8EncodeChar d ++ y) = false := by
  obtain ⟨b, tail, hc⟩ := List.exists_cons_of_ne_nil (String.utf8EncodeChar_ne_nil (c := c))
  obtain ⟨b', tail', hd⟩ := List.exists_cons_of_ne_nil (String.utf8EncodeChar_ne_nil (c := d))
  have hfirst : sameByte rule b b' = false := by
    refine Bool.eq_false_iff.2 fun hsame => h ?_
    have hwidth := Storage.leadTellsWidth_utf8 _ rfl rule c d b b' tail tail' hc hd
      (sameByte_iff.1 hsame)
    rwa [← Storage.utf8.length_encode rfl, ← Storage.utf8.length_encode rfl] at hwidth
  rw [hc, hd, List.cons_append, List.cons_append, agree, List.zip_cons_cons, List.all_cons,
    hfirst, Bool.false_and]

/-- The UTF-8 forms of characters are compared character by character. -/
theorem agree_utf8EncodeChar (rule : CaseRule) (c d : Char) (x y : List UInt8) :
    agree rule (String.utf8EncodeChar c ++ x) (String.utf8EncodeChar d ++ y) =
      (letter rule c == letter rule d && agree rule x y) := by
  have hletter : (String.utf8EncodeChar c).map (fold rule) =
      (String.utf8EncodeChar d).map (fold rule) ↔ letter rule c = letter rule d := by
    rw [map_fold_utf8EncodeChar, map_fold_utf8EncodeChar]
    exact ⟨utf8EncodeChar_injective, congrArg _⟩
  by_cases hlength : (String.utf8EncodeChar c).length = (String.utf8EncodeChar d).length
  · rw [agree_append_append hlength]
    refine congrArg (· && _) (Bool.eq_iff_iff.2 ?_)
    rw [beq_iff_eq, ← hletter, agree_iff_prefix (Nat.le_of_eq hlength)]
    exact ⟨fun h => h.eq_of_length (by simpa using hlength), fun h => h ▸ List.prefix_rfl⟩
  · have hne : letter rule c ≠ letter rule d := fun h =>
      hlength (by simpa using congrArg List.length (hletter.2 h))
    rw [beq_false_of_ne hne, Bool.false_and, agree_utf8EncodeChar_of_length_ne rule hlength]

end Comparison

/-! ## Text -/

/-- Every symbol reads as a character, stands for it alone and is stored in its UTF-8 form. -/
structure Storage.ReadsAs {σ : Type} [Symbol σ] (st : Storage σ) (read : σ → Char) : Prop where
  encode?_eq : st.encode? = some fun s => String.utf8EncodeChar (read s)
  char?_eq : ∀ s : σ, Symbol.char? s = some (read s)
  standsFor_eq : ∀ (s : σ) (c : Char), Symbol.standsFor s c = (read s == c)

/-- A kind of input that is text. -/
class TextInput (ι : Type) {σ : Type} [Input ι σ] [LawfulInput ι σ] [Symbol σ] : Prop where
  exists_readsAs : ∃ read, (storage ι).ReadsAs read

instance : TextInput Text where
  exists_readsAs := ⟨id, rfl, fun _ => rfl, fun _ _ => rfl⟩

instance : TextInput (List Ascii) where
  exists_readsAs := by
    refine ⟨Ascii.toChar, ?_, fun _ => rfl, fun _ _ => rfl⟩
    have hbyte : (fun a : Ascii => [a.toByte]) = fun a => String.utf8EncodeChar a.toChar :=
      funext fun a => a.utf8EncodeChar_toChar.symm
    exact congrArg some hbyte

instance {ι σ : Type} [Input ι σ] [LawfulInput ι σ] [Symbol σ] [TextInput ι] :
    TextInput (Window ι) where
  exists_readsAs := TextInput.exists_readsAs (ι := ι)

/-! ## Patterns judged character by character -/

theorem length_utf8_cons (c : Char) (cs : List Char) :
    (Text.utf8 (c :: cs)).length = (String.utf8EncodeChar c).length + (Text.utf8 cs).length := by
  rw [Text.utf8, List.flatMap_cons, List.length_append]
  rfl

namespace Storage

variable {σ : Type} {st : Storage σ} {read : σ → Char} {rule : CaseRule}

theorem countAt_cons (st : Storage σ) (s : σ) (n : Nat) (l : List σ) :
    st.countAt (st.width s + n) (s :: l) = (st.countAt n l).map (1 + ·) := by
  obtain ⟨k, hk⟩ : ∃ k, st.width s + n = k + 1 :=
    Nat.exists_eq_add_one.2 (Nat.add_pos_left (st.width_pos s) n)
  have hsub : k + 1 - st.width s = n := by omega
  rw [hk, countAt, if_pos (by omega), hsub]
  exact congrArg (Option.map · _) (funext fun m => Nat.add_comm m 1)

/-- The letters of a text, as they are compared with a pattern. -/
theorem agree_utf8_cons (rule : CaseRule) (s : σ) (l : List σ) (c : Char) (cs : List Char) :
    Comparison.agree rule ((s :: l).flatMap fun s => String.utf8EncodeChar (read s))
        (Text.utf8 (c :: cs)) =
      (Comparison.letter rule (read s) == Comparison.letter rule c &&
        Comparison.agree rule (l.flatMap fun s => String.utf8EncodeChar (read s))
          (Text.utf8 cs)) := by
  rw [List.flatMap_cons, Text.utf8, List.flatMap_cons]
  exact Comparison.agree_utf8EncodeChar ..

namespace ReadsAs

variable [Symbol σ]

/-- Letters that are equal in a comparison take as many bytes. -/
theorem width_eq (h : st.ReadsAs read) {s : σ} {c : Char}
    (hs : Comparison.letter rule (read s) = Comparison.letter rule c) :
    st.width s = (String.utf8EncodeChar c).length := by
  have hforms := congrArg (fun d => (String.utf8EncodeChar d).length) hs
  simp only [← Comparison.map_fold_utf8EncodeChar, List.length_map] at hforms
  exact (st.length_encode h.encode?_eq s).symm.trans hforms

/-- A pattern that spells characters ends where a character ends. -/
theorem exists_countAt (h : st.ReadsAs read) {l : List σ} {cs : List Char}
    (hagree : Comparison.agree rule (l.flatMap fun s => String.utf8EncodeChar (read s))
      (Text.utf8 cs) = true)
    (hle : (Text.utf8 cs).length ≤ st.extent l) :
    ∃ count, st.countAt (Text.utf8 cs).length l = some count := by
  induction cs generalizing l with
  | nil => exact ⟨0, by rw [Text.utf8, List.flatMap_nil, List.length_nil, countAt]⟩
  | cons c cs ih =>
    rw [length_utf8_cons] at hle ⊢
    cases l with
    | nil =>
      have hpos : 0 < (String.utf8EncodeChar c).length :=
        List.length_pos_of_ne_nil String.utf8EncodeChar_ne_nil
      rw [extent_nil] at hle
      omega
    | cons s l =>
      rw [agree_utf8_cons, Bool.and_eq_true, beq_iff_eq] at hagree
      rw [← h.width_eq hagree.1, extent_cons] at hle
      obtain ⟨count, hcount⟩ := ih hagree.2 (by omega)
      rw [← h.width_eq hagree.1, st.countAt_cons, hcount]
      exact ⟨1 + count, rfl⟩

end ReadsAs

end Storage

namespace Judgement

variable {σ : Type} [Symbol σ] {st : Storage σ} {read : σ → Char} {rule : CaseRule}

/-- No pattern is left: nothing is taken. -/
theorem ofTag_nil (h : st.ReadsAs read) (l : List σ) :
    ofTag st rule (Text.utf8 []) l = ⟨.takes 0, true⟩ := by
  rw [ofTag_eq h.encode?_eq]
  simp [Text.utf8, Comparison.agree, Storage.countAt]

/-- No symbol is left: the rest of the pattern may follow. -/
theorem ofTag_of_nil (h : st.ReadsAs read) (c : Char) (cs : List Char) :
    ofTag st rule (Text.utf8 (c :: cs)) [] = ⟨.refuses .tag, false⟩ := by
  have hpos : 0 < (Text.utf8 (c :: cs)).length := by
    rw [length_utf8_cons]
    exact Nat.add_pos_left (List.length_pos_of_ne_nil String.utf8EncodeChar_ne_nil) _
  rw [ofTag_eq h.encode?_eq, Storage.extent_nil, if_pos hpos]
  rfl

/-- A symbol that reads as the first letter is taken, and the rest of the pattern is judged behind
it. -/
theorem ofTag_cons (h : st.ReadsAs read) {s : σ} {c : Char}
    (hs : Comparison.letter rule (read s) = Comparison.letter rule c) (cs : List Char)
    (l : List σ) :
    ofTag st rule (Text.utf8 (c :: cs)) (s :: l) = (ofTag st rule (Text.utf8 cs) l).behind := by
  have hbehind : ∀ counted : Option Nat,
      (⟨((counted.map (1 + ·)).map .takes).getD (.refuses .tag), true⟩ : Judgement) =
        behind ⟨(counted.map .takes).getD (.refuses .tag), true⟩ := by
    intro counted
    cases counted <;> rfl
  rw [ofTag_eq h.encode?_eq, ofTag_eq h.encode?_eq, Storage.agree_utf8_cons, hs, beq_self_eq_true,
    Bool.true_and, length_utf8_cons, ← h.width_eq hs, st.countAt_cons, hbehind,
    Storage.extent_cons, apply_ite behind, apply_ite behind]
  simp only [Nat.add_lt_add_iff_left]
  rfl

theorem ofTag_cons_refused (h : st.ReadsAs read) {s : σ} {c : Char}
    (hs : Comparison.letter rule (read s) ≠ Comparison.letter rule c) (cs : List Char)
    (l : List σ) :
    ofTag st rule (Text.utf8 (c :: cs)) (s :: l) = ⟨.refuses .tag, true⟩ := by
  rw [ofTag_eq h.encode?_eq, Storage.agree_utf8_cons, beq_false_of_ne hs, Bool.false_and]
  rfl

end Judgement

end ParseKit
