/-
  One set of laws for all inputs.

  Borrowed texts and slices, and the windows that are split off a whole
  buffer, all promise the same: the offsets of their symbols cut them into
  symbols of the right widths, both searches find what a walk over the
  symbols finds, and the parts of a split are the whole again, in whatever
  order the splits are made.  Windows keep to their buffer besides, which is
  what one split preserves and any number of splits with it.
-/
import Mathlib.Algebra.GroupWithZero.Nat
import ParseKit.Proofs.Input.Slice
import ParseKit.Proofs.Input.Text
import ParseKit.Proofs.Input.Window

set_option autoImplicit false

namespace ParseKit

open LawfulInput

/-! ## Cuts -/

/-- The distance from each number to the next one. -/
def gaps (l : List Nat) : List Nat := List.zipWith (fun here next => next - here) l l.tail

theorem gaps_cons_cons (a b : Nat) (l : List Nat) : gaps (a :: b :: l) = (b - a) :: gaps (b :: l) :=
  rfl

/-- The offsets where the symbols of a view begin, and the one where the last of them ends. -/
def Input.cuts {ι σ : Type} [Input ι σ] (i : ι) : List Nat :=
  (Input.indexed i).map (·.1) ++ [Input.length i]

namespace Storage

variable {σ : Type} (st : Storage σ) {offset n : Nat} {l : List σ}

theorem extent_eq_sum (l : List σ) : st.extent l = (l.map st.width).sum := by
  induction l with
  | nil => rfl
  | cons s l ih => rw [extent_cons, ih, List.map_cons, List.sum_cons]

/-- The cuts of a run of symbols that begins at `offset`. -/
def cuts (offset : Nat) : List σ → List Nat
  | [] => [offset]
  | s :: rest => offset :: cuts (offset + st.width s) rest

theorem map_fst_place (offset : Nat) (l : List σ) :
    (st.place offset l).map (·.1) ++ [offset + st.extent l] = st.cuts offset l := by
  induction l generalizing offset with
  | nil => rfl
  | cons s l ih =>
    rw [place, List.map_cons, List.cons_append, cuts, ← ih, extent_cons, Nat.add_assoc]

theorem exists_cuts_eq_cons (offset : Nat) (l : List σ) :
    ∃ rest, st.cuts offset l = offset :: rest := by
  cases l with
  | nil => exact ⟨_, rfl⟩
  | cons s l => exact ⟨_, rfl⟩

/-- The cuts of a run are where its heads end. -/
theorem mem_cuts_iff :
    n ∈ st.cuts offset l ↔
      ∃ taken left, l = taken ++ left ∧ offset + st.extent taken = n := by
  induction l generalizing offset with
  | nil =>
    rw [cuts, List.mem_singleton]
    constructor
    · rintro rfl
      exact ⟨[], [], rfl, rfl⟩
    · rintro ⟨taken, left, happ, rfl⟩
      rw [(List.append_eq_nil_iff.1 happ.symm).1, extent_nil, Nat.add_zero]
  | cons s l ih =>
    rw [cuts, List.mem_cons, ih]
    constructor
    · rintro (rfl | ⟨taken, left, rfl, rfl⟩)
      · exact ⟨[], s :: l, rfl, rfl⟩
      · exact ⟨s :: taken, left, rfl, by rw [extent_cons, Nat.add_assoc]⟩
    · rintro ⟨taken, left, happ, rfl⟩
      cases taken with
      | nil => exact .inl rfl
      | cons t taken =>
        obtain ⟨rfl, rfl⟩ := List.cons_eq_cons.1 happ
        exact .inr ⟨taken, left, rfl, by rw [extent_cons, Nat.add_assoc]⟩

theorem pairwise_cuts (offset : Nat) (l : List σ) : (st.cuts offset l).Pairwise (· < ·) := by
  induction l generalizing offset with
  | nil => exact List.pairwise_singleton ..
  | cons s l ih =>
    refine .cons (fun n hn => ?_) (ih _)
    obtain ⟨taken, -, -, rfl⟩ := st.mem_cuts_iff.1 hn
    have := st.width_pos s
    omega

theorem gaps_cuts (offset : Nat) (l : List σ) : gaps (st.cuts offset l) = l.map st.width := by
  induction l generalizing offset with
  | nil => rfl
  | cons s l ih =>
    obtain ⟨rest, hrest⟩ := st.exists_cuts_eq_cons (offset + st.width s) l
    rw [cuts, hrest, gaps_cons_cons, ← hrest, ih, Nat.add_sub_cancel_left, List.map_cons]

end Storage

/-! ## The laws -/

/-- What a view promises: `content` is what it shows, and `width` the number of storage units of
each symbol. -/
structure Input.Laws {ι σ : Type} [Input ι σ] (width : σ → Nat) (content : ι → List σ) (i : ι) :
    Prop where
  symbols_eq : Input.symbols i = content i
  /-- The cuts begin at zero. -/
  head?_cuts : (Input.cuts i).head? = some 0
  /-- They increase, up to the length of the view. -/
  pairwise_cuts : (Input.cuts i).Pairwise (· < ·)
  /-- They lie as far apart as the symbols between them are wide. -/
  gaps_cuts : gaps (Input.cuts i) = (content i).map width
  /-- They are the boundaries of the view. -/
  isBoundary_iff : ∀ n, Input.isBoundary i n = true ↔ n ∈ Input.cuts i
  /-- Both searches find what a walk over the symbols finds. -/
  position_eq : ∀ p, Input.position p i = Indexed.firstOffset p (Input.indexed i)
  sliceIndex_eq : ∀ count,
    Input.sliceIndex count i = Indexed.offsetAfter (Input.length i) count (Input.indexed i)
  /-- The offset behind some symbols is the boundary with so many symbols in front of it. -/
  sliceIndex_eq_some_iff : ∀ count n, Input.sliceIndex count i = some n ↔
    Input.isBoundary i n = true ∧ (content (Input.splitAt i n).1).length = count
  /-- There is none just if there are fewer symbols. -/
  sliceIndex_eq_none_iff : ∀ count, Input.sliceIndex count i = none ↔ (content i).length < count
  length_splitAt : ∀ n, Input.isBoundary i n = true → n ≤ Input.length i ∧
    Input.length (Input.splitAt i n).1 = n ∧
    Input.length (Input.splitAt i n).2 = Input.length i - n
  /-- What the parts of a split show is what the whole shows. -/
  content_splitAt : ∀ n, Input.isBoundary i n = true →
    content (Input.splitAt i n).1 ++ content (Input.splitAt i n).2 = content i
  symbols_splitAt : ∀ n, Input.isBoundary i n = true →
    Input.symbols (Input.splitAt i n).1 ++ Input.symbols (Input.splitAt i n).2 = Input.symbols i
  /-- The parts have the bytes up to the split and from there on, if there are bytes. -/
  bytes_splitAt : ∀ n, Input.isBoundary i n = true → ∀ bytes, Input.bytes i = some bytes →
    Input.bytes (Input.splitAt i n).1 = some (bytes.take n) ∧
      Input.bytes (Input.splitAt i n).2 = some (bytes.drop n)
  /-- Two splits, one behind the other, are the same two splits made the other way round. -/
  splitAt_splitAt : ∀ n k, Input.isBoundary i n = true →
    Input.isBoundary (Input.splitAt i n).2 k = true →
    Input.isBoundary i (n + k) = true ∧
    Input.isBoundary (Input.splitAt i (n + k)).1 n = true ∧
    (Input.splitAt i n).1 = (Input.splitAt (Input.splitAt i (n + k)).1 n).1 ∧
    (Input.splitAt (Input.splitAt i n).2 k).1 = (Input.splitAt (Input.splitAt i (n + k)).1 n).2 ∧
    (Input.splitAt (Input.splitAt i n).2 k).2 = (Input.splitAt i (n + k)).2

/-- Splits of a view nest: what is split off up to one boundary, and what lies between it and the
next, is split off the part up to the next as well. -/
def Input.SplitsNest {ι σ : Type} [Input ι σ] (i : ι) : Prop :=
  ∀ n k, Input.isBoundary i n = true → Input.isBoundary (Input.splitAt i n).2 k = true →
    (Input.splitAt i n).1 = (Input.splitAt (Input.splitAt i (n + k)).1 n).1 ∧
      (Input.splitAt (Input.splitAt i n).2 k).1 = (Input.splitAt (Input.splitAt i (n + k)).1 n).2

section

variable {ι σ : Type} [Input ι σ] [LawfulInput ι σ] {i : ι} {n k count : Nat}

namespace LawfulInput

theorem cuts_eq (hi : Valid i) : Input.cuts i = (storage ι).cuts 0 (Input.symbols i) := by
  rw [Input.cuts, indexed_eq hi, length_eq hi, ← Storage.map_fst_place, Nat.zero_add]

theorem sliceIndex_eq_some_iff (hi : Valid i) :
    Input.sliceIndex count i = some n ↔
      Input.isBoundary i n = true ∧ (Input.symbols (Input.splitAt i n).1).length = count := by
  rw [sliceIndex_eq_ite hi, Option.ite_none_right_eq_some, Option.some_inj]
  constructor
  · rintro ⟨hcount, rfl⟩
    refine ⟨isBoundary_take hi count, ?_⟩
    exact (congrArg List.length (symbols_parts hi count).1).trans (List.length_take_of_le hcount)
  · rintro ⟨hn, rfl⟩
    obtain ⟨taken, left, hsymbols, rfl⟩ := (isBoundary_iff hi).1 hn
    rw [(symbols_splitAt hi hsymbols).1, hsymbols, List.take_left,
      List.length_append]
    exact ⟨Nat.le_add_right .., rfl⟩

theorem sliceIndex_eq_none_iff (hi : Valid i) :
    Input.sliceIndex count i = none ↔ (Input.symbols i).length < count := by
  rw [sliceIndex_eq_ite hi, ite_eq_right_iff, ← Nat.not_le]
  exact imp_congr_right fun _ => iff_false_intro (Option.some_ne_none _)

/-- A boundary in front of another one is a boundary of the part up to that one. -/
theorem isBoundary_splitAt_add (hi : Valid i) (hn : Input.isBoundary i n = true)
    (hk : Input.isBoundary (Input.splitAt i n).2 k = true) :
    Input.isBoundary (Input.splitAt i (n + k)).1 n = true := by
  have hvalid := (valid_splitAt hi (isBoundary_add hi hn hk)).1
  obtain ⟨before, between, after, hsymbols, rfl, rfl⟩ := exists_symbols_between hi hn hk
  rw [← List.append_assoc] at hsymbols
  rw [← Storage.extent_append] at hvalid ⊢
  exact (isBoundary_iff hvalid).2 ⟨before, between, (symbols_splitAt hi hsymbols).1, rfl⟩

/-- Splits nest where a view is told by its symbols. -/
theorem splitsNest_of_injective (hinjective : Function.Injective (Input.symbols (ι := ι)))
    (hi : Valid i) : Input.SplitsNest i := by
  intro n k hn hk
  have hrest := (valid_splitAt hi hn).2
  have hboth := (valid_splitAt hi (isBoundary_add hi hn hk)).1
  obtain ⟨before, between, after, hsymbols, rfl, rfl⟩ := exists_symbols_between hi hn hk
  have hfirst := symbols_splitAt hi hsymbols
  have hmiddle := symbols_splitAt hrest hfirst.2
  rw [← List.append_assoc] at hsymbols
  rw [← Storage.extent_append] at hboth ⊢
  have hparts := symbols_splitAt hboth (symbols_splitAt hi hsymbols).1
  exact ⟨hinjective (hfirst.1.trans hparts.1.symm), hinjective (hmiddle.1.trans hparts.2.symm)⟩

/-- Every valid view whose splits nest keeps the laws. -/
theorem laws_of_valid {content : ι → List σ} (hi : Valid i)
    (hcontent : ∀ j : ι, Input.symbols j = content j) (hnest : Input.SplitsNest i) :
    Input.Laws (storage ι).width content i := by
  obtain ⟨rest, hrest⟩ := (storage ι).exists_cuts_eq_cons 0 (Input.symbols i)
  have hcuts := cuts_eq hi
  refine
    { symbols_eq := hcontent i
      head?_cuts := by rw [hcuts, hrest, List.head?_cons]
      pairwise_cuts := hcuts ▸ (storage ι).pairwise_cuts 0 _
      gaps_cuts := by rw [hcuts, Storage.gaps_cuts, hcontent]
      isBoundary_iff := fun n => ?_
      position_eq := fun p => LawfulInput.position_eq p hi
      sliceIndex_eq := fun count => LawfulInput.sliceIndex_eq count hi
      sliceIndex_eq_some_iff := fun count n => ?_
      sliceIndex_eq_none_iff := fun count => ?_
      length_splitAt := fun n hn => ⟨le_length_of_isBoundary hi hn, length_splitAt hi hn⟩
      content_splitAt := fun n hn => ?_
      symbols_splitAt := fun n hn => (symbols_eq_append hi hn).symm
      bytes_splitAt := fun n hn bytes hbytes => LawfulInput.bytes_splitAt hi hbytes hn
      splitAt_splitAt := fun n k hn hk => ?_ }
  · rw [LawfulInput.isBoundary_iff hi, hcuts, Storage.mem_cuts_iff]
    simp only [Nat.zero_add]
  · rw [← hcontent]
    exact LawfulInput.sliceIndex_eq_some_iff hi
  · rw [← hcontent]
    exact LawfulInput.sliceIndex_eq_none_iff hi
  · rw [← hcontent, ← hcontent, ← hcontent]
    exact (symbols_eq_append hi hn).symm
  · obtain ⟨hfirst, hmiddle⟩ := hnest n k hn hk
    exact ⟨isBoundary_add hi hn hk, isBoundary_splitAt_add hi hn hk, hfirst, hmiddle,
      LawfulInput.splitAt_splitAt hi hn hk⟩

end LawfulInput

end

/-! ## Windows that are reached by splits -/

namespace Window

section

variable {ι σ : Type} [Input ι σ]

/-- A window that splits at boundaries lead to from the window on all of a buffer. -/
inductive Reached (buffer : ι) : Window ι → Prop
  | whole : Reached buffer (whole buffer)
  | head {w : Window ι} {n : Nat} : Reached buffer w → Input.isBoundary w n = true →
    Reached buffer (Input.splitAt w n).1
  | tail {w : Window ι} {n : Nat} : Reached buffer w → Input.isBoundary w n = true →
    Reached buffer (Input.splitAt w n).2

/-- Where a window lies in its buffer, and where its parts do. -/
structure Placed (width : σ → Nat) (buffer : ι) (w : Window ι) : Prop where
  buffer_eq : w.buffer = buffer
  start_le_stop : w.start ≤ w.stop
  stop_le_length : w.stop ≤ Input.length buffer
  isBoundary_start : Input.isBoundary buffer w.start = true
  isBoundary_stop : Input.isBoundary buffer w.stop = true
  /-- It shows what the buffer has from its start to its stop. -/
  exists_symbols : ∃ before after,
    Input.symbols buffer = before ++ (Input.symbols w ++ after) ∧
      w.start = (before.map width).sum ∧
      w.stop = w.start + ((Input.symbols w).map width).sum
  /-- A split moves one end of each part to where it is made, and leaves the other one. -/
  parts : ∀ n, Input.isBoundary w n = true → w.start + n ≤ w.stop ∧
    (Input.splitAt w n).1.offset = w.offset ∧ (Input.splitAt w n).1.stop = w.offset + n ∧
    (Input.splitAt w n).2.offset = w.offset + n ∧ (Input.splitAt w n).2.stop = w.stop

/-- The splits of a window nest, since they move nothing but offsets. -/
theorem splitsNest (w : Window ι) : Input.SplitsNest w := by
  intro n k _ _
  refine ⟨rfl, ?_⟩
  change (⟨w.buffer, w.start + n, w.start + n + k⟩ : Window ι) =
    ⟨w.buffer, w.start + n, w.start + (n + k)⟩
  rw [Nat.add_assoc]

end

section

variable {ι σ : Type} [Input ι σ] [LawfulInput ι σ] {buffer : ι} {w : Window ι}

/-- What splits lead to is a valid window into the same buffer. -/
theorem Reached.valid (hb : Valid buffer) (h : Reached buffer w) :
    Valid w ∧ w.buffer = buffer := by
  induction h with
  | whole => exact ⟨valid_whole hb, rfl⟩
  | head _ hn ih => exact ⟨(valid_splitAt ih.1 hn).1, ih.2⟩
  | tail _ hn ih => exact ⟨(valid_splitAt ih.1 hn).2, ih.2⟩

theorem placed_of_valid (h : Valid w) : Placed (storage ι).width w.buffer w := by
  obtain ⟨hle, hlength, hstart, hstop⟩ := h.1
  refine ⟨rfl, hle, hlength, hstart, hstop, ?_, fun n hn => ?_⟩
  · obtain ⟨before, shown, after, hsymbols, hbefore, hshown⟩ := exists_symbols_buffer h.1 h.2
    obtain rfl : Input.symbols w = shown := (valid_view h.2 hsymbols hbefore hshown).2
    refine ⟨before, after, hsymbols, hbefore.trans (Storage.extent_eq_sum ..), ?_⟩
    rw [hshown, hbefore, Storage.extent_append, Storage.extent_eq_sum _ (Input.symbols w)]
  · have hle' : n ≤ w.stop - w.start := le_length_of_isBoundary h hn
    exact ⟨by omega, rfl, rfl, rfl, rfl⟩

end

end Window

/-- A count of elements is an offset into a window on a slice if the window is as long. -/
theorem Window.sliceIndex_eq_ite {σ : Type} [Symbol σ] {w : Window (List σ)} (hw : w.WellFormed)
    (count : Nat) :
    Input.sliceIndex count w = if count ≤ w.stop - w.start then some count else none := by
  have hlength : w.view.length = w.stop - w.start := by
    have hstop : w.stop ≤ w.buffer.length := hw.2.1
    change ((w.buffer.take w.stop).drop w.start).length = _
    rw [List.length_drop, List.length_take_of_le hstop]
  rw [← hlength]
  rfl

/-! ## All kinds of inputs -/

theorem Text.injective_symbols : Function.Injective (Input.symbols : Text → List Char) := by
  rintro ⟨cs⟩ ⟨ds⟩ h
  rw [Text.symbols_eq, Text.symbols_eq] at h
  exact congrArg Text.mk h

/-- **One set of laws.**  Texts and slices, and the windows that splits lead to from all of a text
or slice, keep the laws of inputs: characters are as wide as their UTF-8 form, and elements count
one each.  Such windows lie inside their buffer with both ends on boundaries, and so do their
parts. -/
theorem Input.one_set_of_laws :
    (∀ t : Text, Laws Char.utf8Size Text.chars t) ∧
    (∀ (σ : Type) [Symbol σ] (l : List σ), Laws (fun _ => 1) id l) ∧
    (∀ (buffer : Text) (w : Window Text), Window.Reached buffer w →
      Laws Char.utf8Size (fun w => w.view.chars) w ∧ Window.Placed Char.utf8Size buffer w) ∧
    ∀ (σ : Type) [Symbol σ] (buffer : List σ) (w : Window (List σ)), Window.Reached buffer w →
      Laws (fun _ => 1) Window.view w ∧ Window.Placed (fun _ => 1) buffer w := by
  refine ⟨fun t => ?_, fun σ _ l => ?_, fun buffer w h => ?_, fun σ _ buffer w h => ?_⟩
  · exact laws_of_valid trivial Text.symbols_eq
      (splitsNest_of_injective Text.injective_symbols trivial)
  · have hinjective : Function.Injective (Input.symbols : List σ → List σ) := fun l m h => by
      rwa [symbols_slice, symbols_slice] at h
    exact laws_of_valid trivial symbols_slice (splitsNest_of_injective hinjective trivial)
  · obtain ⟨hvalid, rfl⟩ := h.valid trivial
    exact ⟨laws_of_valid hvalid (fun w => Text.symbols_eq w.view) w.splitsNest,
      Window.placed_of_valid hvalid⟩
  · obtain ⟨hvalid, rfl⟩ := h.valid trivial
    exact ⟨laws_of_valid hvalid (fun w => symbols_slice w.view) w.splitsNest,
      Window.placed_of_valid hvalid⟩

/-- A window that shows two letters of two bytes each inside a text, and one that shows two bytes
behind another. -/
theorem Input.one_set_of_laws_windows :
    let text : Text := ⟨['n', 'é', 'à', '1']⟩
    let letters : Window Text := ⟨text, 1, 5⟩
    let bytes : Window (List UInt8) := ⟨[10, 20, 30], 1, 3⟩
    Window.Reached text letters ∧ Window.Reached [10, 20, 30] bytes ∧
    Input.cuts letters = [0, 2, 4] ∧ Input.cuts bytes = [0, 1, 2] ∧
    Laws Char.utf8Size (fun w => w.view.chars) letters ∧ Laws (fun _ => 1) Window.view bytes ∧
    Window.Placed Char.utf8Size text letters ∧
    Window.Placed (fun _ => 1) [10, 20, 30] bytes := by
  intro text letters bytes
  have hletters : Window.Reached text letters :=
    (Window.Reached.whole.tail (n := 1) (by decide)).head (n := 4) (by decide)
  have hbytes : Window.Reached [10, 20, 30] bytes :=
    Window.Reached.whole.tail (n := 1) (by decide)
  obtain ⟨-, -, htexts, hslices⟩ := one_set_of_laws
  obtain ⟨hlaws, hplaced⟩ := htexts text letters hletters
  obtain ⟨hlaws', hplaced'⟩ := hslices UInt8 [10, 20, 30] bytes hbytes
  exact ⟨hletters, hbytes, by decide, by decide, hlaws, hlaws', hplaced, hplaced'⟩

end ParseKit
