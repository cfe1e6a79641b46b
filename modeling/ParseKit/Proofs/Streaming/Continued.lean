/-
  Inputs that can go on.

  Behind every valid view any symbols may follow, and the first byte of a
  symbol tells how many bytes it has.  So what begins as some symbols do can
  be completed to their bytes (`Storage.exists_completion`), and a pattern
  that symbols spell can be completed wherever the input agrees with it so
  far.
-/
import ParseKit.Proofs.Input.Window
import ParseKit.Proofs.Streaming.Followed

set_option autoImplicit false

namespace ParseKit

open LawfulInput

/-! ## First bytes -/

namespace Storage

variable {σ : Type} {st : Storage σ}

/-- The first byte of a symbol tells how many bytes it has, in upper case as in lower case. -/
def LeadTellsWidth (st : Storage σ) : Prop :=
  ∀ encode, st.encode? = some encode → ∀ rule s t b b' tail tail',
    encode s = b :: tail → encode t = b' :: tail' →
      Comparison.fold rule b = Comparison.fold rule b' → st.width s = st.width t

/-- Some symbols have the bytes of a pattern, but for the case where it does not matter. -/
def Spells (st : Storage σ) (rule : CaseRule) (pattern : List UInt8) : Prop :=
  ∃ l bytes, st.bytes? l = some bytes ∧
    bytes.map (Comparison.fold rule) = pattern.map (Comparison.fold rule)

/-- A symbol has a first byte. -/
theorem exists_encode_eq_cons (st : Storage σ) {encode : σ → List UInt8}
    (hencode : st.encode? = some encode) (s : σ) : ∃ b tail, encode s = b :: tail := by
  refine List.exists_cons_of_ne_nil fun hnil => ?_
  have hpos := st.width_pos s
  rw [← st.length_encode hencode, hnil] at hpos
  cases hpos

/-- What begins as the bytes of some symbols can go on to have those bytes. -/
theorem exists_completion (hlead : st.LeadTellsWidth) {encode : σ → List UInt8}
    (hencode : st.encode? = some encode) {rule : CaseRule} {l k : List σ}
    (h : (l.flatMap encode).map (Comparison.fold rule) <+:
      (k.flatMap encode).map (Comparison.fold rule)) :
    ∃ m, ((l ++ m).flatMap encode).map (Comparison.fold rule) =
      (k.flatMap encode).map (Comparison.fold rule) := by
  induction l generalizing k with
  | nil => exact ⟨k, rfl⟩
  | cons s l ih =>
    obtain ⟨b, tail, hs⟩ := st.exists_encode_eq_cons hencode s
    cases k with
    | nil => simp [hs] at h
    | cons t k =>
      obtain ⟨b', tail', ht⟩ := st.exists_encode_eq_cons hencode t
      rw [List.flatMap_cons, List.flatMap_cons, List.map_append, List.map_append] at h
      -- The symbols have the same first byte, hence as many bytes, and these agree.
      have hfold : Comparison.fold rule b = Comparison.fold rule b' := by
        rw [hs, ht] at h
        exact (List.cons_prefix_cons.1 h).1
      have hlength : ((encode s).map (Comparison.fold rule)).length =
          ((encode t).map (Comparison.fold rule)).length := by
        rw [List.length_map, List.length_map, st.length_encode hencode, st.length_encode hencode]
        exact hlead encode hencode rule s t b b' tail tail' hs ht hfold
      obtain ⟨more, hmore⟩ := h
      rw [List.append_assoc] at hmore
      obtain ⟨hhead, hrest⟩ := List.append_inj hmore hlength
      obtain ⟨m, hm⟩ := ih ⟨more, hrest⟩
      refine ⟨m, ?_⟩
      rw [List.cons_append, List.flatMap_cons, List.flatMap_cons, List.map_append,
        List.map_append, hm, hhead]

/-! ## Kinds of storage -/

/-- The number of bytes of a UTF-8 form with a first byte. -/
def leadWidth (b : UInt8) : Nat :=
  if b.toNat < 128 then 1 else if b.toNat < 224 then 2 else if b.toNat < 240 then 3 else 4

theorem leadWidth_eq_length {c : Char} {b : UInt8} {tail : List UInt8}
    (h : String.utf8EncodeChar c = b :: tail) : leadWidth b = (b :: tail).length := by
  have hone : ∀ n < 128, leadWidth (.ofNat n) = 1 := by decide
  have htwo : ∀ n < 32, leadWidth (.ofNat (n + 192)) = 2 := by decide
  have hthree : ∀ n < 16, leadWidth (.ofNat (n + 224)) = 3 := by decide
  have hfour : ∀ n < 8, leadWidth (.ofNat (n + 240)) = 4 := by decide
  unfold String.utf8EncodeChar at h
  dsimp only at h
  split at h
  · cases h
    exact hone c.val.toNat (by omega)
  · split at h
    · cases h
      exact htwo (c.val.toNat / 64 % 32) (Nat.mod_lt _ (by omega))
    · split at h
      · cases h
        exact hthree (c.val.toNat / 4096 % 16) (Nat.mod_lt _ (by omega))
      · cases h
        exact hfour (c.val.toNat / 262144 % 8) (Nat.mod_lt _ (by omega))

/-- Letters of both cases take one byte. -/
theorem leadWidth_fold (rule : CaseRule) (b : UInt8) :
    leadWidth (Comparison.fold rule b) = leadWidth b := by
  cases rule with
  | exact => rfl
  | ignored =>
    rw [Comparison.fold, Comparison.lowerByte]
    split
    · rename_i h
      simp only [Bool.and_eq_true, decide_eq_true_eq, UInt8.le_iff_toNat_le] at h
      have hle : b.toNat ≤ 90 := h.2
      have hlower : (b + 32).toNat = b.toNat + 32 := by
        rw [UInt8.toNat_add]
        exact Nat.mod_eq_of_lt (Nat.lt_of_le_of_lt (Nat.add_le_add_right hle 32) (by decide))
      rw [leadWidth, leadWidth, if_pos (by omega), if_pos (by omega)]
    · rfl

theorem leadTellsWidth_utf8 : Storage.utf8.LeadTellsWidth := by
  rintro encode hencode rule s t b b' tail tail' hs ht hfold
  have hwidth : ∀ {c b tail}, encode c = b :: tail → Storage.utf8.width c = leadWidth b := by
    intro c b tail hc
    rw [← Storage.utf8.length_encode hencode, hc]
    cases hencode
    exact (leadWidth_eq_length hc).symm
  rw [hwidth hs, hwidth ht, ← leadWidth_fold rule b, hfold, leadWidth_fold]

theorem leadTellsWidth_elements (byte? : Option (σ → UInt8)) :
    (elements byte?).LeadTellsWidth :=
  fun _ _ _ _ _ _ _ _ _ _ _ _ => rfl

/-- Bytes spell every pattern. -/
theorem spells_bytes (rule : CaseRule) (pattern : List UInt8) :
    (elements (some id) : Storage UInt8).Spells rule pattern :=
  ⟨pattern, pattern, by rw [bytes?_elements, Option.map_some, List.map_id], rfl⟩

/-- ASCII characters spell the patterns without a byte above 127. -/
theorem spells_ascii (rule : CaseRule) {pattern : List UInt8}
    (h : ∀ b ∈ pattern, b.toNat < 128) :
    (elements (some Ascii.toByte)).Spells rule pattern := by
  refine ⟨pattern.attach.map fun b => ⟨⟨b.val.toNat, h b.val b.property⟩⟩, pattern, ?_, rfl⟩
  have hbyte : ∀ b : { b // b ∈ pattern }, Ascii.toByte ⟨⟨b.val.toNat, h b.val b.property⟩⟩ =
      b.val := fun b => UInt8.ofNat_toNat
  simp [bytes?_elements, Function.comp_def, hbyte]

/-- Text spells the patterns that are the UTF-8 form of some text. -/
theorem spells_utf8 (rule : CaseRule) (l : List Char) :
    Storage.utf8.Spells rule (l.flatMap String.utf8EncodeChar) :=
  ⟨l, _, rfl, rfl⟩

end Storage

/-! ## Kinds of input -/

/-- A kind of input with views that go on with any symbols. -/
class ContinuableInput (ι : Type) {σ : Type} [Input ι σ] [LawfulInput ι σ] : Prop where
  exists_followed : ∀ {i : ι} (more : List σ), Valid i → ∃ i', Followed more i i'
  leadTellsWidth : (storage ι).LeadTellsWidth

instance : ContinuableInput Text where
  exists_followed {t} more _ := ⟨t.append ⟨more⟩, followed_text_iff.2 rfl⟩
  leadTellsWidth := Storage.leadTellsWidth_utf8

instance {σ : Type} [Symbol σ] : ContinuableInput (List σ) where
  exists_followed {l} more _ := ⟨l ++ more, followed_slice_iff.2 rfl⟩
  leadTellsWidth := Storage.leadTellsWidth_elements _

/-- A window goes on in a buffer that has the symbols up to its stop and then others. -/
instance {ι σ : Type} [Input ι σ] [LawfulInput ι σ] [ContinuableInput ι] :
    ContinuableInput (Window ι) where
  exists_followed {w} more hw := by
    obtain ⟨before, shown, after, hsymbols, hstart, hstop⟩ :=
      Window.exists_symbols_buffer hw.1 hw.2
    have hupto : Input.symbols w.buffer = (before ++ shown) ++ after := by
      rw [hsymbols, List.append_assoc]
    have hview := Window.valid_view hw.2 hsymbols hstart hstop
    have hhead := symbols_splitAt hw.2 hupto
    have hvalid := valid_splitAt hw.2 ((isBoundary_iff hw.2).2 ⟨_, _, hupto, rfl⟩)
    obtain ⟨buffer, hbuffer⟩ := ContinuableInput.exists_followed more hvalid.1
    have hsymbols' : Input.symbols buffer = before ++ ((shown ++ more) ++ []) := by
      rw [hbuffer.symbols_eq, hhead.1, List.append_nil, List.append_assoc]
    let w' : Window ι := ⟨buffer, w.start, (storage ι).extent (before ++ (shown ++ more))⟩
    have hview' := Window.valid_view (w := w') hbuffer.valid' hsymbols' hstart rfl
    refine ⟨w', hw, ⟨Window.wellFormed_of_symbols hbuffer.valid' hsymbols' hstart rfl,
      hbuffer.valid'⟩, rfl, ?_⟩
    exact hview'.2.trans (congrArg (· ++ more) hview.2.symm)
  leadTellsWidth := ContinuableInput.leadTellsWidth (ι := ι)

end ParseKit
