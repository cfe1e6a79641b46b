/-
  Text is a lawful input: characters stored in the bytes of their UTF-8 form.
-/
import ParseKit.Input.Text
import ParseKit.Proofs.Input.Lawful

set_option autoImplicit false

namespace ParseKit

/-- Characters take the bytes of their UTF-8 form. -/
def Storage.utf8 : Storage Char where
  width := Char.utf8Size
  encode? := some String.utf8EncodeChar
  width_pos := Char.utf8Size_pos
  length_encode h c := by
    cases h
    exact String.length_utf8EncodeChar c

namespace Text

theorem width_eq_extent (cs : List Char) : width cs = Storage.utf8.extent cs := by
  induction cs with
  | nil => rfl
  | cons c cs ih => rw [width, ih, Storage.extent_cons, Storage.utf8]

theorem indexedFrom_eq_place (offset : Nat) (cs : List Char) :
    indexedFrom offset cs = Storage.utf8.place offset cs := by
  induction cs generalizing offset with
  | nil => rfl
  | cons c cs ih => rw [indexedFrom, ih, Storage.place, Storage.utf8]

@[simp]
theorem symbols_eq (t : Text) : Input.symbols t = t.chars := by
  change (indexedFrom 0 t.chars).map (·.2) = t.chars
  rw [indexedFrom_eq_place, Storage.map_snd_place]

theorem splitBytes_zero (cs : List Char) : splitBytes cs 0 = ([], cs) := by
  cases cs with
  | nil => rfl
  | cons c cs =>
    have := c.utf8Size_pos
    rw [splitBytes, if_neg (by omega)]

/-- Splitting behind a run of characters gives back the run and what follows it. -/
theorem splitBytes_extent (taken left : List Char) :
    splitBytes (taken ++ left) (Storage.utf8.extent taken) = (taken, left) := by
  induction taken with
  | nil => exact splitBytes_zero left
  | cons c cs ih =>
    have hwidth : Storage.utf8.width c = c.utf8Size := rfl
    rw [List.cons_append, splitBytes, Storage.extent_cons, hwidth, if_pos (by omega),
      Nat.add_sub_cancel_left, ih]

theorem onBoundary_iff {cs : List Char} {n : Nat} :
    onBoundary cs n = true ↔
      ∃ taken left, cs = taken ++ left ∧ Storage.utf8.extent taken = n := by
  constructor
  · intro h
    refine ⟨_, _, (splitBytes_append cs n).symm, ?_⟩
    rw [← width_eq_extent, width_splitBytes h]
  · rintro ⟨taken, left, rfl, rfl⟩
    induction taken with
    | nil => simp [onBoundary]
    | cons c cs ih =>
      have hpos := c.utf8Size_pos
      have hwidth : Storage.utf8.width c = c.utf8Size := rfl
      obtain ⟨n, hn⟩ : ∃ n, c.utf8Size + Storage.utf8.extent cs = n + 1 :=
        ⟨c.utf8Size + Storage.utf8.extent cs - 1, by omega⟩
      have hrest : n + 1 - c.utf8Size = Storage.utf8.extent cs := by omega
      rw [List.cons_append, Storage.extent_cons, hwidth, hn, onBoundary, hrest, ih,
        Bool.and_true, decide_eq_true_eq]
      omega

end Text

open Text in
instance : LawfulInput Text Char where
  storage := .utf8
  Valid _ := True
  origin? _ := none
  indexed_eq {t} _ := by rw [symbols_eq, ← indexedFrom_eq_place]; rfl
  length_eq {t} _ := by rw [symbols_eq, ← width_eq_extent]; rfl
  bytes_eq {t} _ := by rw [symbols_eq]; rfl
  position_eq _ _ := rfl
  sliceIndex_eq _ _ := rfl
  isBoundary_iff {t n} _ := by rw [symbols_eq]; exact onBoundary_iff
  valid_splitAt _ _ := ⟨trivial, trivial⟩
  symbols_splitAt {t taken left} _ h := by
    rw [symbols_eq] at h
    simp only [symbols_eq]
    change (splitBytes t.chars _).1 = taken ∧ (splitBytes t.chars _).2 = left
    rw [h, splitBytes_extent]
    exact ⟨rfl, rfl⟩
  origin_splitAt _ _ := ⟨rfl, rfl⟩
  splitAt_zero {t} _ := by
    change Text.mk (splitBytes t.chars 0).2 = t
    rw [splitBytes_zero]
  splitAt_splitAt {t n k} _ hn hk := by
    obtain ⟨taken, left, hchars, rfl⟩ := onBoundary_iff.1 hn
    have hleft : (splitBytes t.chars (Storage.utf8.extent taken)).2 = left := by
      rw [hchars, splitBytes_extent]
    obtain ⟨taken', left', hchars', rfl⟩ := onBoundary_iff.1 hk
    change (splitBytes t.chars _).2 = _ at hchars'
    change Text.mk (splitBytes (splitBytes t.chars _).2 _).2 = Text.mk (splitBytes t.chars _).2
    rw [hchars', splitBytes_extent, ← Storage.extent_append, hchars, ← hleft, hchars',
      ← List.append_assoc, splitBytes_extent]

end ParseKit
