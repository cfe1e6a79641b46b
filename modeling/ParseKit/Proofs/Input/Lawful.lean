/-
  Lawful inputs: what every kind of input promises.

  A view is determined by where it begins and by its list of symbols; the
  offsets, boundaries and splits of a view are those of the list, measured
  in the storage units of each symbol.  `LawfulInput` states this for a kind
  of input, and the other modules see an input through it only.
-/
import ParseKit.Input.Compare
import ParseKit.Parser.Basic

set_option autoImplicit false

namespace ParseKit

/-! ## Storage of symbols -/

/-- How the symbols of a kind of input are stored. -/
structure Storage (σ : Type) where
  /-- The number of storage units of one symbol. -/
  width : σ → Nat
  /-- The bytes of one symbol, for kinds that are stored as bytes. -/
  encode? : Option (σ → List UInt8)
  width_pos : ∀ s, 0 < width s
  length_encode : ∀ {encode}, encode? = some encode → ∀ s, (encode s).length = width s

namespace Storage

variable {σ : Type} (st : Storage σ)

/-- The number of storage units of a run of symbols. -/
def extent : List σ → Nat
  | [] => 0
  | s :: rest => st.width s + extent rest

/-- The symbols with their offsets, the first at `offset`. -/
def place (offset : Nat) : List σ → List (Nat × σ)
  | [] => []
  | s :: rest => (offset, s) :: place (offset + st.width s) rest

/-- The bytes of a run of symbols, for kinds that are stored as bytes. -/
def bytes? (symbols : List σ) : Option (List UInt8) :=
  st.encode?.map fun encode => symbols.flatMap encode

/-- The number of symbols at the head of a run that take up exactly so many storage units. -/
def countAt : Nat → List σ → Option Nat
  | 0, _ => some 0
  | _ + 1, [] => none
  | n + 1, s :: rest =>
    if st.width s ≤ n + 1 then (countAt (n + 1 - st.width s) rest).map (· + 1) else none

@[simp]
theorem extent_nil : st.extent [] = 0 := rfl

@[simp]
theorem extent_cons (s : σ) (rest : List σ) :
    st.extent (s :: rest) = st.width s + st.extent rest := rfl

@[simp]
theorem extent_append (l m : List σ) : st.extent (l ++ m) = st.extent l + st.extent m := by
  induction l with
  | nil => simp
  | cons s l ih => simp [ih, Nat.add_assoc]

theorem extent_eq_zero {l : List σ} : st.extent l = 0 ↔ l = [] := by
  cases l with
  | nil => simp
  | cons s l =>
    have := st.width_pos s
    simp only [extent_cons, reduceCtorEq, iff_false]
    omega

@[simp]
theorem map_snd_place (offset : Nat) (l : List σ) : (st.place offset l).map (·.2) = l := by
  induction l generalizing offset with
  | nil => rfl
  | cons s l ih => simp [place, ih]

/-- The bytes of a run take up as many storage units as the run. -/
theorem length_of_bytes? {l : List σ} {bytes : List UInt8} (h : st.bytes? l = some bytes) :
    bytes.length = st.extent l := by
  obtain ⟨encode, hencode, rfl⟩ := Option.map_eq_some_iff.1 h
  induction l with
  | nil => rfl
  | cons s l ih =>
    have hrest : st.bytes? l = some (l.flatMap encode) := by simp [bytes?, hencode]
    rw [List.flatMap_cons, List.length_append, st.length_encode hencode, ih hrest, extent_cons]

/-- Two heads of one run are heads of each other: the narrower one comes first. -/
theorem prefix_of_extent_le {l left m right : List σ} (h : l ++ left = m ++ right)
    (hle : st.extent l ≤ st.extent m) : l <+: m := by
  rcases List.append_eq_append_iff.1 h with ⟨extra, hm, -⟩ | ⟨extra, hl, -⟩
  · exact ⟨extra, hm.symm⟩
  · have hextra : st.extent extra = 0 := by
      have := congrArg st.extent hl
      rw [extent_append] at this
      omega
    rw [st.extent_eq_zero.1 hextra, List.append_nil] at hl
    exact ⟨[], by rw [hl, List.append_nil]⟩

/-- Symbols are counted right: a count is found exactly where a head has the extent. -/
theorem countAt_eq_some {n k : Nat} {l : List σ} :
    st.countAt n l = some k ↔ k ≤ l.length ∧ st.extent (l.take k) = n := by
  fun_induction countAt st n l generalizing k with
  | case1 l =>
    constructor
    · intro h
      cases h
      simp
    · rintro ⟨hk, hextent⟩
      have htake := st.extent_eq_zero.1 hextent
      rcases List.take_eq_nil_iff.1 htake with hzero | hnil
      · rw [hzero]
      · subst hnil
        simp only [List.length_nil, Nat.le_zero_eq] at hk
        rw [hk]
  | case2 n => simp
  | case3 n s rest hwidth ih =>
    cases k with
    | zero => simp
    | succ k =>
      simp only [Option.map_eq_some_iff, Nat.add_right_cancel_iff, exists_eq_right, ih,
        List.length_cons, Nat.add_le_add_iff_right, List.take_succ_cons, extent_cons]
      refine and_congr_right fun _ => ?_
      omega
  | case4 n s rest hwidth =>
    constructor
    · intro h
      cases h
    · rintro ⟨-, hextent⟩
      cases k with
      | zero => simp at hextent
      | succ k =>
        rw [List.take_succ_cons, extent_cons] at hextent
        omega

end Storage

/-! ## Scans over placed symbols -/

namespace Indexed

variable {σ : Type} (st : Storage σ)

/-- The first offset that passes a test lies behind the symbols that do not. -/
theorem firstOffset_place (p : σ → Bool) (offset : Nat) (l : List σ) :
    firstOffset p (st.place offset l) =
      if (l.takeWhile (!p ·)).length < l.length
      then some (offset + st.extent (l.takeWhile (!p ·))) else none := by
  induction l generalizing offset with
  | nil => rfl
  | cons s l ih =>
    rw [Storage.place, firstOffset, ih]
    by_cases hs : p s = true <;> simp [hs, Nat.add_assoc]

/-- The offset after some symbols lies behind exactly those. -/
theorem offsetAfter_place (count offset : Nat) (l : List σ) :
    offsetAfter (offset + st.extent l) count (st.place offset l) =
      if count ≤ l.length then some (offset + st.extent (l.take count)) else none := by
  induction l generalizing count offset with
  | nil => cases count <;> simp [Storage.place, offsetAfter]
  | cons s l ih =>
    cases count with
    | zero => simp [Storage.place, offsetAfter]
    | succ count =>
      have h := ih count (offset + st.width s)
      simp only [Nat.add_assoc] at h
      simp [Storage.place, offsetAfter, h]

end Indexed

/-! ## The laws -/

/-- A kind of input that behaves as its list of symbols does.  Only valid views promise
anything; splitting at a boundary keeps a view valid. -/
class LawfulInput (ι : Type) (σ : outParam Type) [Input ι σ] where
  storage : Storage σ
  Valid : ι → Prop
  /-- Where a view begins in its buffer, for kinds that keep the buffer. -/
  origin? : ι → Option Nat
  indexed_eq : ∀ {i : ι}, Valid i → Input.indexed i = storage.place 0 (Input.symbols i)
  length_eq : ∀ {i : ι}, Valid i → Input.length i = storage.extent (Input.symbols i)
  bytes_eq : ∀ {i : ι}, Valid i → Input.bytes i = storage.bytes? (Input.symbols i)
  position_eq : ∀ {i : ι} (p : σ → Bool), Valid i →
    Input.position p i = Indexed.firstOffset p (Input.indexed i)
  sliceIndex_eq : ∀ {i : ι} (count : Nat), Valid i →
    Input.sliceIndex count i = Indexed.offsetAfter (Input.length i) count (Input.indexed i)
  isBoundary_iff : ∀ {i : ι} {n : Nat}, Valid i →
    (Input.isBoundary i n = true ↔
      ∃ taken left, Input.symbols i = taken ++ left ∧ storage.extent taken = n)
  valid_splitAt : ∀ {i : ι} {n : Nat}, Valid i → Input.isBoundary i n = true →
    Valid (Input.splitAt i n).1 ∧ Valid (Input.splitAt i n).2
  symbols_splitAt : ∀ {i : ι} {taken left : List σ}, Valid i →
    Input.symbols i = taken ++ left →
    Input.symbols (Input.splitAt i (storage.extent taken)).1 = taken ∧
      Input.symbols (Input.splitAt i (storage.extent taken)).2 = left
  origin_splitAt : ∀ {i : ι} {n : Nat}, Valid i → Input.isBoundary i n = true →
    origin? (Input.splitAt i n).1 = origin? i ∧
      origin? (Input.splitAt i n).2 = (origin? i).map (· + n)
  splitAt_zero : ∀ {i : ι}, Valid i → (Input.splitAt i 0).2 = i
  splitAt_splitAt : ∀ {i : ι} {n k : Nat}, Valid i → Input.isBoundary i n = true →
    Input.isBoundary (Input.splitAt i n).2 k = true →
    (Input.splitAt (Input.splitAt i n).2 k).2 = (Input.splitAt i (n + k)).2

namespace LawfulInput

variable {ι σ : Type} [Input ι σ] [LawfulInput ι σ] {i : ι} {n k : Nat}

/-! ## Boundaries -/

/-- There is a boundary behind any number of symbols. -/
theorem isBoundary_take (hi : Valid i) (n : Nat) :
    Input.isBoundary i ((storage ι).extent ((Input.symbols i).take n)) = true :=
  (isBoundary_iff hi).2 ⟨_, (Input.symbols i).drop n, (List.take_append_drop ..).symm, rfl⟩

/-- Every boundary lies behind a number of symbols. -/
theorem exists_take_of_isBoundary (hi : Valid i) (hn : Input.isBoundary i n = true) :
    ∃ count, count ≤ (Input.symbols i).length ∧
      (storage ι).extent ((Input.symbols i).take count) = n := by
  obtain ⟨taken, left, happ, hextent⟩ := (isBoundary_iff hi).1 hn
  refine ⟨taken.length, ?_, ?_⟩
  · rw [happ, List.length_append]
    omega
  · rw [happ, List.take_left, hextent]

theorem isBoundary_zero (hi : Valid i) : Input.isBoundary i 0 = true :=
  isBoundary_take hi 0

theorem le_length_of_isBoundary (hi : Valid i) (hn : Input.isBoundary i n = true) :
    n ≤ Input.length i := by
  obtain ⟨taken, left, happ, rfl⟩ := (isBoundary_iff hi).1 hn
  rw [length_eq hi, happ, Storage.extent_append]
  omega

theorem isBoundary_iff_countAt (hi : Valid i) :
    Input.isBoundary i n = true ↔ ((storage ι).countAt n (Input.symbols i)).isSome := by
  rw [Option.isSome_iff_exists]
  constructor
  · intro h
    obtain ⟨count, hcount, hextent⟩ := exists_take_of_isBoundary hi h
    exact ⟨count, (storage ι).countAt_eq_some.2 ⟨hcount, hextent⟩⟩
  · rintro ⟨count, h⟩
    have hcount := (storage ι).countAt_eq_some.1 h
    rw [← hcount.2]
    exact isBoundary_take hi count

/-- The offset behind some symbols is what these symbols take up, if there are so many. -/
theorem sliceIndex_eq_ite (hi : Valid i) (count : Nat) :
    Input.sliceIndex count i =
      if count ≤ (Input.symbols i).length
      then some ((storage ι).extent ((Input.symbols i).take count)) else none := by
  have hindex := Indexed.offsetAfter_place (storage ι) count 0 (Input.symbols i)
  rw [Nat.zero_add, Nat.zero_add, ← length_eq hi, ← indexed_eq hi] at hindex
  rw [sliceIndex_eq count hi, hindex]

/-- A view is empty exactly if it has no symbols. -/
theorem isEmpty_iff (hi : Valid i) : Input.isEmpty i = true ↔ Input.symbols i = [] := by
  rw [Input.isEmpty, beq_iff_eq, length_eq hi, Storage.extent_eq_zero]

/-! ## Splits -/

/-- The parts of a view before and behind some of its symbols. -/
def parts (count : Nat) (i : ι) : ι × ι :=
  Input.splitAt i ((storage ι).extent ((Input.symbols i).take count))

theorem valid_parts (hi : Valid i) (count : Nat) :
    Valid (parts count i).1 ∧ Valid (parts count i).2 :=
  valid_splitAt hi (isBoundary_take hi count)

theorem symbols_parts (hi : Valid i) (count : Nat) :
    Input.symbols (parts count i).1 = (Input.symbols i).take count ∧
      Input.symbols (parts count i).2 = (Input.symbols i).drop count :=
  symbols_splitAt hi (List.take_append_drop ..).symm

theorem origin_parts (hi : Valid i) (count : Nat) :
    origin? (parts count i).1 = origin? i ∧
      origin? (parts count i).2 =
        (origin? i).map (· + (storage ι).extent ((Input.symbols i).take count)) :=
  origin_splitAt hi (isBoundary_take hi count)

/-- Every split at a boundary is one behind some symbols. -/
theorem splitAt_eq_parts (hi : Valid i) (hn : Input.isBoundary i n = true) :
    ∃ count, count ≤ (Input.symbols i).length ∧
      n = (storage ι).extent ((Input.symbols i).take count) ∧
      Input.splitAt i n = parts count i := by
  obtain ⟨count, hcount, rfl⟩ := exists_take_of_isBoundary hi hn
  exact ⟨count, hcount, rfl, rfl⟩

theorem length_splitAt (hi : Valid i) (hn : Input.isBoundary i n = true) :
    Input.length (Input.splitAt i n).1 = n ∧
      Input.length (Input.splitAt i n).2 = Input.length i - n := by
  obtain ⟨count, -, rfl, hsplit⟩ := splitAt_eq_parts hi hn
  have hvalid := valid_parts hi count
  have hsymbols := symbols_parts hi count
  have happ : (storage ι).extent ((Input.symbols i).take count) +
      (storage ι).extent ((Input.symbols i).drop count) = Input.length i := by
    rw [length_eq hi, ← Storage.extent_append, List.take_append_drop]
  rw [hsplit, length_eq hvalid.1, length_eq hvalid.2, hsymbols.1, hsymbols.2]
  omega

/-- What is left behind some symbols is shorter. -/
theorem length_parts_lt (hi : Valid i) {count : Nat} (hpos : 0 < count)
    (hle : count ≤ (Input.symbols i).length) :
    Input.length (parts count i).2 < Input.length i := by
  have hboundary := isBoundary_take hi count
  have hextent : (storage ι).extent ((Input.symbols i).take count) ≠ 0 := by
    rw [Ne, Storage.extent_eq_zero, ← List.length_eq_zero_iff, List.length_take]
    omega
  have hextent_le := le_length_of_isBoundary hi hboundary
  rw [parts, (length_splitAt hi hboundary).2]
  omega

/-- Two boundaries, one behind the other, have symbols in front of, between and behind them. -/
theorem exists_symbols_between (hi : Valid i) (hn : Input.isBoundary i n = true)
    (hk : Input.isBoundary (Input.splitAt i n).2 k = true) :
    ∃ before between after, Input.symbols i = before ++ (between ++ after) ∧
      (storage ι).extent before = n ∧ (storage ι).extent between = k := by
  obtain ⟨before, left, hsymbols, rfl⟩ := (isBoundary_iff hi).1 hn
  obtain ⟨between, after, hleft, hextent⟩ := (isBoundary_iff (valid_splitAt hi hn).2).1 hk
  rw [(symbols_splitAt hi hsymbols).2] at hleft
  exact ⟨before, between, after, hleft ▸ hsymbols, rfl, hextent⟩

/-- Boundaries of a remainder are boundaries of the whole. -/
theorem isBoundary_add (hi : Valid i) (hn : Input.isBoundary i n = true)
    (hk : Input.isBoundary (Input.splitAt i n).2 k = true) :
    Input.isBoundary i (n + k) = true := by
  obtain ⟨before, between, after, hsymbols, rfl, rfl⟩ := exists_symbols_between hi hn hk
  rw [← List.append_assoc] at hsymbols
  exact (isBoundary_iff hi).2 ⟨before ++ between, after, hsymbols, Storage.extent_append ..⟩

/-- The length between a view and what it leaves behind a boundary is the boundary. -/
theorem consumed?_splitAt (hi : Valid i) (hn : Input.isBoundary i n = true) :
    Parser.consumed? i (Input.splitAt i n).2 = some n := by
  have hle := le_length_of_isBoundary hi hn
  have hlength := (length_splitAt hi hn).2
  rw [Parser.consumed?, if_pos (by omega), hlength]
  exact congrArg some (by omega)

/-! ## Parts and their parts -/

/-- The parts of a split together are the whole. -/
theorem symbols_eq_append (hi : Valid i) (hn : Input.isBoundary i n = true) :
    Input.symbols i =
      Input.symbols (Input.splitAt i n).1 ++ Input.symbols (Input.splitAt i n).2 := by
  obtain ⟨taken, left, hsymbols, rfl⟩ := (isBoundary_iff hi).1 hn
  rw [(symbols_splitAt hi hsymbols).1, (symbols_splitAt hi hsymbols).2, hsymbols]

/-- The parts of an input have its bytes up to the split and from there on. -/
theorem bytes_splitAt {bytes : List UInt8} (hi : Valid i)
    (hbytes : Input.bytes i = some bytes) (hn : Input.isBoundary i n = true) :
    Input.bytes (Input.splitAt i n).1 = some (bytes.take n) ∧
      Input.bytes (Input.splitAt i n).2 = some (bytes.drop n) := by
  obtain ⟨hvalid, hvalid'⟩ := valid_splitAt hi hn
  obtain ⟨taken, left, hsymbols, rfl⟩ := (isBoundary_iff hi).1 hn
  obtain ⟨htaken, hleft⟩ := symbols_splitAt hi hsymbols
  rw [bytes_eq hi, hsymbols] at hbytes
  obtain ⟨encode, hencode, rfl⟩ := Option.map_eq_some_iff.1 hbytes
  have hbytes' : ∀ l, (storage ι).bytes? l = some (l.flatMap encode) := fun l => by
    rw [Storage.bytes?, hencode]
    rfl
  rw [bytes_eq hvalid, bytes_eq hvalid', htaken, hleft, hbytes', hbytes', List.flatMap_append,
    ← (storage ι).length_of_bytes? (hbytes' taken), List.take_left, List.drop_left]
  exact ⟨rfl, rfl⟩

theorem parts_zero (hi : Valid i) : (parts 0 i).2 = i := splitAt_zero hi

/-- What some symbols leave of what others have left is what all of them leave. -/
theorem parts_parts (hi : Valid i) (m n : Nat) :
    (parts n (parts m i).2).2 = (parts (m + n) i).2 := by
  have hoffset : (storage ι).extent ((Input.symbols i).take m) +
      (storage ι).extent ((Input.symbols (parts m i).2).take n) =
        (storage ι).extent ((Input.symbols i).take (m + n)) := by
    rw [(symbols_parts hi m).2, List.take_add, Storage.extent_append]
  refine (splitAt_splitAt hi (isBoundary_take hi m)
    (isBoundary_take (valid_parts hi m).2 n)).trans ?_
  exact congrArg (fun offset => (Input.splitAt i offset).2) hoffset

/-- Behind a first symbol the input is valid, has the other symbols and is shorter. -/
theorem behind_first {s : σ} {l : List σ} (hi : Valid i)
    (hsymbols : Input.symbols i = s :: l) :
    Valid (parts 1 i).2 ∧ Input.symbols (parts 1 i).2 = l ∧
      Input.length (parts 1 i).2 < Input.length i := by
  refine ⟨(valid_parts hi 1).2, ?_, length_parts_lt hi Nat.one_pos ?_⟩
  · rw [(symbols_parts hi 1).2, hsymbols, List.drop_succ_cons, List.drop_zero]
  · rw [hsymbols, List.length_cons]
    exact Nat.succ_pos _

/-! ## Remainders -/

/-- A view is what a valid one leaves behind a boundary. -/
def IsRemainder (i r : ι) : Prop :=
  Valid i ∧ ∃ n, Input.isBoundary i n = true ∧ r = (Input.splitAt i n).2

theorem IsRemainder.valid {r : ι} (h : IsRemainder i r) : Valid r := by
  obtain ⟨hi, n, hn, rfl⟩ := h
  exact (valid_splitAt hi hn).2

theorem IsRemainder.refl (hi : Valid i) : IsRemainder i i :=
  ⟨hi, 0, isBoundary_zero hi, (splitAt_zero hi).symm⟩

theorem IsRemainder.trans {r r' : ι} (h : IsRemainder i r) (h' : IsRemainder r r') :
    IsRemainder i r' := by
  obtain ⟨hi, n, hn, rfl⟩ := h
  obtain ⟨-, k, hk, rfl⟩ := h'
  exact ⟨hi, n + k, isBoundary_add hi hn hk, splitAt_splitAt hi hn hk⟩

/-- A remainder is no longer than the view. -/
theorem IsRemainder.length_le {r : ι} (h : IsRemainder i r) : Input.length r ≤ Input.length i := by
  obtain ⟨hi, n, hn, rfl⟩ := h
  rw [(length_splitAt hi hn).2]
  omega

theorem isRemainder_parts (hi : Valid i) (count : Nat) : IsRemainder i (parts count i).2 :=
  ⟨hi, _, isBoundary_take hi count, rfl⟩

/-- A remainder lies behind the boundary that the lengths tell. -/
theorem IsRemainder.consumed?_eq {r : ι} (h : IsRemainder i r) :
    ∃ n, Parser.consumed? i r = some n ∧ Input.isBoundary i n = true ∧
      r = (Input.splitAt i n).2 := by
  obtain ⟨hi, n, hn, rfl⟩ := h
  exact ⟨n, consumed?_splitAt hi hn, hn, rfl⟩

/-- The length between a view and a remainder of it is a boundary. -/
theorem IsRemainder.isBoundary {r : ι} (h : IsRemainder i r)
    (hconsumed : Parser.consumed? i r = some n) : Input.isBoundary i n = true := by
  obtain ⟨k, hk, hboundary, -⟩ := h.consumed?_eq
  rw [hk] at hconsumed
  cases hconsumed
  exact hboundary

/-- A remainder begins where its length tells. -/
theorem IsRemainder.eq_splitAt {r : ι} (h : IsRemainder i r) :
    Input.isBoundary i (Input.length i - Input.length r) = true ∧
      r = (Input.splitAt i (Input.length i - Input.length r)).2 := by
  obtain ⟨hi, n, hn, rfl⟩ := h
  have hle := le_length_of_isBoundary hi hn
  rw [(length_splitAt hi hn).2, Nat.sub_sub_self hle]
  exact ⟨hn, rfl⟩

theorem IsRemainder.consumed?_ne_none {r : ι} (h : IsRemainder i r) :
    Parser.consumed? i r ≠ none := by
  obtain ⟨n, hn, -⟩ := h.consumed?_eq
  rw [hn]
  intro hnone
  cases hnone

end LawfulInput

end ParseKit
