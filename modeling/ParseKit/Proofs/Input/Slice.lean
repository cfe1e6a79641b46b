/-
  Slices are lawful inputs: every element is one storage unit.
-/
import ParseKit.Input.Slice
import ParseKit.Proofs.Input.Lawful

set_option autoImplicit false

namespace ParseKit

variable {σ : Type}

/-- Elements take one unit each, and one byte each if they have one. -/
def Storage.elements (byte? : Option (σ → UInt8)) : Storage σ where
  width _ := 1
  encode? := byte?.map fun byte s => [byte s]
  width_pos _ := Nat.one_pos
  length_encode h s := by
    obtain ⟨byte, -, rfl⟩ := Option.map_eq_some_iff.1 h
    rfl

namespace Storage

variable {byte? : Option (σ → UInt8)}

@[simp]
theorem extent_elements (l : List σ) : (elements byte?).extent l = l.length := by
  induction l with
  | nil => rfl
  | cons s l ih =>
    rw [extent_cons, ih, List.length_cons, elements, Nat.add_comm]

theorem number_eq_place (offset : Nat) (l : List σ) :
    Indexed.number offset l = (elements byte?).place offset l := by
  induction l generalizing offset with
  | nil => rfl
  | cons s l ih => rw [Indexed.number, ih, place, elements]

theorem bytes?_elements (l : List σ) :
    (elements byte?).bytes? l = byte?.map fun byte => l.map byte := by
  cases byte? with
  | none => rfl
  | some byte => exact congrArg some (List.map_eq_flatMap ..).symm

end Storage

namespace Indexed

theorem firstOffset_number (p : σ → Bool) (offset : Nat) (l : List σ) :
    firstOffset p (number offset l) = (l.findIdx? p).map (offset + ·) := by
  induction l generalizing offset with
  | nil => rfl
  | cons s l ih =>
    rw [number, firstOffset, List.findIdx?_cons, ih]
    by_cases hs : p s = true
    · simp [hs]
    · simp [hs, Function.comp_def, Nat.add_assoc, Nat.add_comm 1]

end Indexed

variable [Symbol σ]

@[simp]
theorem symbols_slice (l : List σ) : Input.symbols l = l := by
  have hplace : Indexed.number 0 l = (Storage.elements none).place 0 l :=
    Storage.number_eq_place 0 l
  change (Indexed.number 0 l).map (·.2) = l
  rw [hplace, Storage.map_snd_place]

theorem isBoundary_slice_iff {l : List σ} {n : Nat} :
    Input.isBoundary l n = true ↔ n ≤ l.length :=
  decide_eq_true_iff

instance : LawfulInput (List σ) σ where
  storage := .elements (Symbol.byte? (σ := σ))
  Valid _ := True
  origin? _ := none
  indexed_eq {l} _ := by rw [symbols_slice]; exact Storage.number_eq_place 0 l
  length_eq {l} _ := by rw [symbols_slice, Storage.extent_elements]; rfl
  bytes_eq {l} _ := by rw [symbols_slice, Storage.bytes?_elements]; rfl
  position_eq {l} p _ := by
    change l.findIdx? p = Indexed.firstOffset p (Indexed.number 0 l)
    simp [Indexed.firstOffset_number]
  sliceIndex_eq {l} count _ := by
    have h := Indexed.offsetAfter_place (.elements (Symbol.byte? (σ := σ))) count 0 l
    rw [← Storage.number_eq_place, Storage.extent_elements, Storage.extent_elements,
      Nat.zero_add, Nat.zero_add, List.length_take] at h
    change (if count ≤ l.length then some count else none) =
      Indexed.offsetAfter l.length count (Indexed.number 0 l)
    rw [h]
    by_cases hcount : count ≤ l.length
    · rw [if_pos hcount, if_pos hcount, Nat.min_eq_left hcount]
    · rw [if_neg hcount, if_neg hcount]
  isBoundary_iff {l n} _ := by
    rw [symbols_slice, isBoundary_slice_iff]
    constructor
    · intro h
      refine ⟨l.take n, l.drop n, (List.take_append_drop n l).symm, ?_⟩
      rw [Storage.extent_elements, List.length_take, Nat.min_eq_left h]
    · rintro ⟨taken, left, rfl, rfl⟩
      simp
  valid_splitAt _ _ := ⟨trivial, trivial⟩
  symbols_splitAt {l taken left} _ h := by
    rw [symbols_slice] at h
    rw [symbols_slice, symbols_slice, Storage.extent_elements]
    subst h
    exact ⟨List.take_left, List.drop_left⟩
  origin_splitAt _ _ := ⟨rfl, rfl⟩
  splitAt_zero _ := rfl
  splitAt_splitAt {l n k} _ _ _ := List.drop_drop

end ParseKit
