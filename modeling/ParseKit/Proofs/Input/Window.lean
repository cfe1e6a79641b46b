/-
  Windows are lawful inputs: a window is valid if it lies inside a valid
  buffer with both ends on boundaries, and it has the symbols it shows.
-/
import ParseKit.Input.Window
import ParseKit.Proofs.Input.Lawful

set_option autoImplicit false

namespace ParseKit.Window

open LawfulInput

variable {ι σ : Type} [Input ι σ] [LawfulInput ι σ]

/-- What a well-formed window into a valid buffer shows: a run of the buffer's symbols that
begins at the start of the window and ends at its stop. -/
theorem exists_symbols_buffer {w : Window ι} (hw : w.WellFormed) (hb : Valid w.buffer) :
    ∃ before shown after, Input.symbols w.buffer = before ++ (shown ++ after) ∧
      w.start = (storage ι).extent before ∧ w.stop = (storage ι).extent (before ++ shown) := by
  obtain ⟨hle, -, hstart, hstop⟩ := hw
  obtain ⟨before, left, hbefore, hstart⟩ := (isBoundary_iff hb).1 hstart
  obtain ⟨upto, after, hupto, hstop⟩ := (isBoundary_iff hb).1 hstop
  obtain ⟨shown, rfl⟩ : before <+: upto :=
    (storage ι).prefix_of_extent_le (hbefore.symm.trans hupto) (by omega)
  exact ⟨before, shown, after, by rw [hupto, List.append_assoc], hstart.symm, hstop.symm⟩

/-- The view of a window, given what lies around it in the buffer. -/
theorem valid_view {w : Window ι} {before shown after : List σ} (hb : Valid w.buffer)
    (hsymbols : Input.symbols w.buffer = before ++ (shown ++ after))
    (hstart : w.start = (storage ι).extent before)
    (hstop : w.stop = (storage ι).extent (before ++ shown)) :
    Valid w.view ∧ Input.symbols w.view = shown := by
  have hupto : Input.symbols w.buffer = (before ++ shown) ++ after := by
    rw [hsymbols, List.append_assoc]
  have hhead := symbols_splitAt hb hupto
  have hvalid := valid_splitAt hb ((isBoundary_iff hb).2 ⟨_, _, hupto, rfl⟩)
  have hshown := symbols_splitAt hvalid.1 hhead.1
  have hvalid' := valid_splitAt hvalid.1 ((isBoundary_iff hvalid.1).2 ⟨_, _, hhead.1, rfl⟩)
  rw [view, Input.between, hstart, hstop]
  exact ⟨hvalid'.2, hshown.2⟩

/-- A window that shows a run of its buffer's symbols is well formed. -/
theorem wellFormed_of_symbols {w : Window ι} {before shown after : List σ} (hb : Valid w.buffer)
    (hsymbols : Input.symbols w.buffer = before ++ (shown ++ after))
    (hstart : w.start = (storage ι).extent before)
    (hstop : w.stop = (storage ι).extent (before ++ shown)) : w.WellFormed := by
  have hupto : Input.symbols w.buffer = (before ++ shown) ++ after := by
    rw [hsymbols, List.append_assoc]
  have hstopb : Input.isBoundary w.buffer w.stop = true :=
    (isBoundary_iff hb).2 ⟨_, _, hupto, hstop.symm⟩
  refine ⟨?_, le_length_of_isBoundary hb hstopb, ?_, hstopb⟩
  · rw [hstart, hstop, Storage.extent_append]
    omega
  · exact (isBoundary_iff hb).2 ⟨_, _, hsymbols, hstart.symm⟩

/-- The two parts of a window split behind some of the symbols it shows: where they lie in the
buffer, and that they are windows again. -/
theorem symbols_view_splitAt {w : Window ι} {taken left : List σ} (hw : w.WellFormed)
    (hb : Valid w.buffer) (h : Input.symbols w.view = taken ++ left) :
    ((w.splitAt ((storage ι).extent taken)).1.WellFormed ∧
        Input.symbols (w.splitAt ((storage ι).extent taken)).1.view = taken) ∧
      (w.splitAt ((storage ι).extent taken)).2.WellFormed ∧
        Input.symbols (w.splitAt ((storage ι).extent taken)).2.view = left := by
  obtain ⟨before, shown, after, hsymbols, hstart, hstop⟩ := exists_symbols_buffer hw hb
  obtain rfl : shown = taken ++ left := by
    rw [← (valid_view hb hsymbols hstart hstop).2, h]
  have hmid : w.start + (storage ι).extent taken = (storage ι).extent (before ++ taken) := by
    rw [hstart, Storage.extent_append]
  have hhead : Input.symbols w.buffer = before ++ (taken ++ (left ++ after)) := by
    rw [hsymbols, List.append_assoc]
  have hrest : Input.symbols w.buffer = (before ++ taken) ++ (left ++ after) := by
    rw [hhead, List.append_assoc]
  have hstop' : w.stop = (storage ι).extent ((before ++ taken) ++ left) := by
    rw [hstop, List.append_assoc]
  let parts := w.splitAt ((storage ι).extent taken)
  have hview : Input.symbols parts.1.view = taken :=
    (valid_view (w := parts.1) hb hhead hstart hmid).2
  have hview' : Input.symbols parts.2.view = left :=
    (valid_view (w := parts.2) hb hrest hmid hstop').2
  exact ⟨⟨wellFormed_of_symbols (w := parts.1) hb hhead hstart hmid, hview⟩,
    wellFormed_of_symbols (w := parts.2) hb hrest hmid hstop', hview'⟩

/-- A well-formed window into a valid buffer has a valid view. -/
theorem valid_view_of_wellFormed {w : Window ι} (hw : w.WellFormed) (hb : Valid w.buffer) :
    Valid w.view := by
  obtain ⟨before, shown, after, hsymbols, hstart, hstop⟩ := exists_symbols_buffer hw hb
  exact (valid_view hb hsymbols hstart hstop).1

theorem length_view {w : Window ι} (hw : w.WellFormed) (hb : Valid w.buffer) :
    w.stop - w.start = (storage ι).extent (Input.symbols w.view) := by
  obtain ⟨before, shown, after, hsymbols, hstart, hstop⟩ := exists_symbols_buffer hw hb
  rw [(valid_view hb hsymbols hstart hstop).2, hstart, hstop, Storage.extent_append]
  omega

instance : LawfulInput (Window ι) σ where
  storage := storage ι
  Valid w := w.WellFormed ∧ Valid w.buffer
  origin? w := some w.start
  indexed_eq h := indexed_eq (valid_view_of_wellFormed h.1 h.2)
  length_eq h := length_view h.1 h.2
  bytes_eq h := bytes_eq (valid_view_of_wellFormed h.1 h.2)
  position_eq _ _ := rfl
  sliceIndex_eq {w} count h := by
    have hview := valid_view_of_wellFormed h.1 h.2
    have hlength : w.stop - w.start = Input.length w.view := by
      rw [length_view h.1 h.2, length_eq hview]
    change Input.sliceIndex count w.view =
      Indexed.offsetAfter (w.stop - w.start) count (Input.indexed w.view)
    rw [hlength]
    exact sliceIndex_eq count hview
  isBoundary_iff h := isBoundary_iff (valid_view_of_wellFormed h.1 h.2)
  valid_splitAt {w n} h hn := by
    obtain ⟨taken, left, hsymbols, rfl⟩ :=
      (isBoundary_iff (valid_view_of_wellFormed h.1 h.2)).1 hn
    have hparts := symbols_view_splitAt h.1 h.2 hsymbols
    exact ⟨⟨hparts.1.1, h.2⟩, hparts.2.1, h.2⟩
  symbols_splitAt h hsymbols := by
    have hparts := symbols_view_splitAt h.1 h.2 hsymbols
    exact ⟨hparts.1.2, hparts.2.2⟩
  origin_splitAt _ _ := ⟨rfl, rfl⟩
  splitAt_zero _ := rfl
  splitAt_splitAt {w n k} _ _ _ := by
    change ({ w with start := w.start + n + k } : Window ι) = { w with start := w.start + (n + k) }
    rw [Nat.add_assoc]

/-- The window on all of a valid buffer is valid; all others are split off it. -/
theorem valid_whole {buffer : ι} (h : Valid buffer) : Valid (whole buffer) := by
  refine ⟨⟨Nat.zero_le _, Nat.le_refl _, isBoundary_zero h, ?_⟩, h⟩
  have hend := isBoundary_take h (Input.symbols buffer).length
  rwa [List.take_length, ← length_eq h] at hend

end ParseKit.Window
