/-
  Lists with separators.

  Behind its first item a list makes steps of a separator and an item, and a
  step that is not completed is taken back as a whole.  If separator and item
  consume on every success, a list is an item before a repetition of such
  steps.  If not, a success that takes nothing is the one thing that makes a
  difference: it is an error at the beginning of its step.
-/
import ParseKit.Parser.Separated
import ParseKit.Proofs.Repetition
import ParseKit.Proofs.Sequence

set_option autoImplicit false

namespace ParseKit.Parser

variable {ι σ ε α β : Type} [Input ι σ]
variable {p : Parser ι ε α} {sep : Parser ι ε β} {item : Parser ι ε α} {i q : ι}
  {steps : List (Success α ι)}

/-! ## Steps of a list -/

/-- A parser succeeds on an input without taking anything. -/
def Idles (p : Parser ι ε α) (i : ι) : Prop :=
  ∃ value rest, (p i).reply = .success value rest ∧ Input.length rest = Input.length i

/-- A separator and an item behind it, both of which take something. -/
def SeparatedStep (sep : Parser ι ε β) (item : Parser ι ε α) : Step ι α := fun i value rest =>
  ∃ between afterSep, sep.Advances i between afterSep ∧ item.Advances afterSep value rest

/-- The step of a list from an input comes to a success that takes nothing, of the separator or of
the item behind it. -/
def StallsAt (sep : Parser ι ε β) (item : Parser ι ε α) (i : ι) : Prop :=
  sep.Idles i ∨ ∃ between afterSep, sep.Advances i between afterSep ∧ item.Idles afterSep

/-- The step of a list from an input is not made, as the separator or the item behind it fails
recoverably. -/
def StepMisses (sep : Parser ι ε β) (item : Parser ι ε α) (i : ι) : Prop :=
  sep.Misses i ∨ ∃ between afterSep, sep.Advances i between afterSep ∧ item.Misses afterSep

/-- A list from `i` comes to a success that takes nothing, of its first item or in the step that
begins at `q`. -/
def ListStalls (sep : Parser ι ε β) (item : Parser ι ε α) (i q : ι) : Prop :=
  item.Idles i ∧ q = i ∨
    ∃ first rest steps, item.Advances i first rest ∧ Path (SeparatedStep sep item) rest steps ∧
      q = reached rest steps ∧ StallsAt sep item q

/-- A list with its items in order and a remainder at the end of the last one, where the next step
is missed. -/
def Listed (sep : Parser ι ε β) (item : Parser ι ε α) (i : ι) (values : List α) (rest : ι) : Prop :=
  ∃ first more steps, item.Advances i first more ∧ Path (SeparatedStep sep item) more steps ∧
    values = first :: steps.map Success.value ∧ rest = reached more steps ∧ StepMisses sep item rest

theorem Consuming.not_idles (hp : p.Consuming) : ¬ p.Idles i := by
  rintro ⟨value, rest, h, hlength⟩
  exact (hp.advances h).2 hlength

/-- A list does not stall if its separator and its item consume on every success. -/
theorem not_listStalls_of_consuming (hsep : sep.Consuming) (hitem : item.Consuming) :
    ¬ ListStalls sep item i q := by
  rintro (⟨hidles, -⟩ | ⟨_, _, _, -, -, -, hidles | ⟨_, _, -, hidles⟩⟩)
  · exact hitem.not_idles hidles
  · exact hsep.not_idles hidles
  · exact hitem.not_idles hidles

/-- A list does not stall where its first item is missed. -/
theorem not_listStalls_of_misses (h : item.Misses i) : ¬ ListStalls sep item i q := by
  obtain ⟨e, he⟩ := h
  rintro (⟨⟨_, _, hreply, -⟩, -⟩ | ⟨_, _, _, hfirst, -⟩)
  · exact nomatch he.symm.trans hreply
  · exact nomatch he.symm.trans hfirst.1

theorem advances_or_idles {value : α} {rest : ι} (h : (p i).reply = .success value rest) :
    p.Advances i value rest ∨ p.Idles i :=
  (Decidable.em (Input.length rest = Input.length i)).symm.imp (fun hne => ⟨h, hne⟩)
    fun heq => ⟨value, rest, h, heq⟩

theorem determined_separatedStep (hsep : sep.NeverGrows) (hitem : item.NeverGrows) :
    (SeparatedStep sep item).Determined where
  shortens := by
    rintro i value rest ⟨between, afterSep, h, h'⟩
    exact Nat.lt_trans (hitem.shortens h') (hsep.shortens h)
  unique := by
    rintro i value rest value' rest' ⟨between, afterSep, h, hstep⟩ ⟨_, _, h', hstep'⟩
    obtain ⟨rfl, rfl⟩ := hsep.determined_advances.unique h h'
    exact hitem.determined_advances.unique hstep hstep'

/-! ## An item behind a separator -/

theorem NeverGrows.preceded (hsep : sep.NeverGrows) (hitem : item.NeverGrows) :
    (preceded sep item).NeverGrows := by
  intro i value rest h
  rcases hreply : (sep i).reply with ⟨between, afterSep⟩ | f | fault
  · rw [preceded_of_success hreply] at h
    exact Nat.le_trans (hitem _ _ _ h) (hsep _ _ _ hreply)
  · exact nomatch (preceded_of_failure hreply).symm.trans h
  · exact nomatch (preceded_of_stuck hreply).symm.trans h

/-- A step of a list is a success of the separator and the item as one parser. -/
theorem SeparatedStep.advances (hsep : sep.NeverGrows) (hitem : item.NeverGrows) {value : α}
    {rest : ι} (h : SeparatedStep sep item i value rest) :
    (preceded sep item).Advances i value rest := by
  have hshorter := (determined_separatedStep hsep hitem).shortens h
  obtain ⟨between, afterSep, hstep, hstep'⟩ := h
  exact ⟨(preceded_of_success hstep.1).trans hstep'.1, Nat.ne_of_lt hshorter⟩

/-- Where no step can be made and none stalls, separator and item do not succeed as one parser. -/
theorem preceded_fails_of_blocked (hblocked : (SeparatedStep sep item).Blocked i)
    (hstalls : ¬ StallsAt sep item i) : (preceded sep item i).reply.success? = none := by
  rcases hreply : (preceded sep item i).reply with ⟨value, rest⟩ | f | fault
  · rcases hfirst : (sep i).reply with ⟨between, afterSep⟩ | f | fault
    · rw [preceded_of_success hfirst] at hreply
      rcases advances_or_idles hfirst with hstep | hidles
      · rcases advances_or_idles hreply with hstep' | hidles
        · exact (hblocked value rest ⟨between, afterSep, hstep, hstep'⟩).elim
        · exact (hstalls (.inr ⟨between, afterSep, hstep, hidles⟩)).elim
      · exact (hstalls (.inl hidles)).elim
    · exact nomatch (preceded_of_failure hfirst).symm.trans hreply
    · exact nomatch (preceded_of_stuck hfirst).symm.trans hreply
  · rfl
  · rfl

/-- Separator and item miss as one parser where a step is missed that does not stall. -/
theorem stepMisses_of_misses (hstalls : ¬ StallsAt sep item i)
    (h : (preceded sep item).Misses i) : StepMisses sep item i := by
  obtain ⟨e, he⟩ := h
  rcases hfirst : (sep i).reply with ⟨between, afterSep⟩ | f | fault
  · rw [preceded_of_success hfirst] at he
    rcases advances_or_idles hfirst with hstep | hidles
    · exact .inr ⟨between, afterSep, hstep, e, he⟩
    · exact (hstalls (.inl hidles)).elim
  · rw [preceded_of_failure hfirst] at he
    cases he
    exact .inl ⟨e, hfirst⟩
  · exact nomatch (preceded_of_stuck hfirst).symm.trans he

/-! ## The rest of a list -/

variable [ParseError ε ι]

/-- Behind a separator that has left less the item decides. -/
theorem separatedTail_of_shorter {between : β} {afterSep : ι}
    (h : (sep i).reply = .success between afterSep)
    (hlt : Input.length afterSep < Input.length i) :
    (separatedTail sep item i).reply =
      ((item afterSep).handle
        (fun value rest =>
          if Input.length rest < Input.length afterSep then
            (separatedTail sep item rest).map (value :: ·)
          else .stalled .itemStalled .separatedList i afterSep rest)
        fun _ => Run.noting (.trailingSeparator (Input.length i)) (.success [] i)).reply := by
  rw [separatedTail, Run.reply_handle_of_success h, dif_pos hlt]
  rfl

/-- Behind a separator that has taken something the item decides. -/
theorem separatedTail_of_advances (hsep : sep.NeverGrows) {between : β} {afterSep : ι}
    (h : sep.Advances i between afterSep) :
    (separatedTail sep item i).reply =
      ((item afterSep).handle
        (fun value rest =>
          if Input.length rest < Input.length afterSep then
            (separatedTail sep item rest).map (value :: ·)
          else .stalled .itemStalled .separatedList i afterSep rest)
        fun _ => Run.noting (.trailingSeparator (Input.length i)) (.success [] i)).reply :=
  separatedTail_of_shorter h.1 (hsep.shortens h)

theorem separatedTail_of_step (hsep : sep.NeverGrows) (hitem : item.NeverGrows) {value : α}
    {rest : ι} (h : SeparatedStep sep item i value rest) :
    (separatedTail sep item i).reply = (separatedTail sep item rest).reply.map (value :: ·) := by
  obtain ⟨between, afterSep, hstep, hstep'⟩ := h
  rw [separatedTail_of_advances hsep hstep, Run.reply_handle_of_success hstep'.1,
    if_pos (hitem.shortens hstep')]
  rfl

theorem separatedTail_of_path (hsep : sep.NeverGrows) (hitem : item.NeverGrows)
    (h : Path (SeparatedStep sep item) i steps) :
    (separatedTail sep item i).reply =
      (separatedTail sep item (reached i steps)).reply.map (steps.map Success.value ++ ·) := by
  induction h with
  | nil => exact (congrArg Run.reply (Run.map_id _)).symm
  | cons hfirst _ ih =>
    rw [separatedTail_of_step hsep hitem hfirst, ih, Reply.map_map]
    rfl

/-- A success that takes nothing is an error where its step begins. -/
theorem separatedTail_of_stalls (hsep : sep.NeverGrows) (h : StallsAt sep item i) :
    (separatedTail sep item i).reply =
      .failure (.recoverable (ParseError.ofKind i .separatedList)) := by
  rcases h with ⟨between, rest, hreply, hlength⟩ |
    ⟨between, afterSep, hstep, value, rest, hreply, hlength⟩
  · rw [separatedTail, Run.reply_handle_of_success hreply, dif_neg (hlength ▸ Nat.lt_irrefl _),
      Run.stalled_of_eq hlength]
    rfl
  · rw [separatedTail_of_advances hsep hstep, Run.reply_handle_of_success hreply,
      if_neg (hlength ▸ Nat.lt_irrefl _), Run.stalled_of_eq hlength]
    rfl

/-- A step that is missed ends a list where the step would have begun. -/
theorem separatedTail_of_stepMisses (hsep : sep.NeverGrows) (h : StepMisses sep item i) :
    (separatedTail sep item i).reply = .success [] i := by
  rcases h with ⟨e, hreply⟩ | ⟨between, afterSep, hstep, e, hreply⟩
  · rw [separatedTail, Run.reply_handle_of_miss hreply]
    rfl
  · rw [separatedTail_of_advances hsep hstep, Run.reply_handle_of_miss hreply]
    rfl

/-- Where no step can be made and none stalls, a list ends as a repetition of its steps does. -/
theorem separatedTail_of_blocked (hsep : sep.NeverGrows)
    (hblocked : (SeparatedStep sep item).Blocked i) (hstalls : ¬ StallsAt sep item i)
    (guard : ErrorKind) :
    (separatedTail sep item i).reply = (preceded sep item i).reply.concluded guard i [] := by
  rcases hfirst : (sep i).reply with ⟨between, afterSep⟩ | f | fault
  · -- The separator has taken something, so the item behind it decides.
    have hfails := preceded_fails_of_blocked hblocked hstalls
    have hstep := (advances_or_idles hfirst).resolve_right fun h => hstalls (.inl h)
    rw [separatedTail_of_advances hsep hstep, Run.handle]
    rw [preceded_of_success hfirst] at hfails ⊢
    generalize (item afterSep).reply = reply at hfails ⊢
    rcases reply with ⟨value, rest⟩ | ⟨_ | e | e⟩ | fault
    · cases hfails
    all_goals rfl
  · rw [preceded_of_failure hfirst, separatedTail, Run.handle, hfirst]
    cases f <;> rfl
  · rw [preceded_of_stuck hfirst, separatedTail, Run.handle, hfirst]
    rfl

/-- Behind its first item a list that does not stall is a repetition of its steps. -/
theorem separatedTail_eq_many0 (hsep : sep.NeverGrows) (hitem : item.NeverGrows)
    (h : Course (SeparatedStep sep item) i steps)
    (hstalls : ¬ StallsAt sep item (reached i steps)) :
    (separatedTail sep item i).reply = (many0 (preceded sep item) i).reply := by
  have hhalts : (preceded sep item).Halts (reached i steps) := by
    intro value rest hreply
    have hfails := preceded_fails_of_blocked h.2 hstalls
    rw [hreply] at hfails
    cases hfails
  have hrun : (preceded sep item).GreedyRun i steps :=
    greedyRun_iff.2 ⟨h.1.imp fun _ _ _ => SeparatedStep.advances hsep hitem,
      blocked_advances_iff.2 hhalts⟩
  rw [separatedTail_of_path hsep hitem h.1, separatedTail_of_blocked hsep h.2 hstalls .many0,
    Reply.map_concluded, List.append_nil, many0_greedy (hsep.preceded hitem) hrun]

/-- How a list ends behind its first item: with its items where a step is missed, with an error
where one stalls, and with the reply of the separator or of an item otherwise. -/
theorem separatedTail_cases (hsep : sep.NeverGrows) (hitem : item.NeverGrows)
    (h : Course (SeparatedStep sep item) i steps) :
    (StepMisses sep item (reached i steps) ∧
        (separatedTail sep item i).reply =
          .success (steps.map Success.value) (reached i steps)) ∨
      (StallsAt sep item (reached i steps) ∧
        (separatedTail sep item i).reply =
          .failure (.recoverable (ParseError.ofKind (reached i steps) .separatedList))) ∨
      ((∀ values rest, (separatedTail sep item i).reply ≠ .success values rest) ∧
        ∀ e, (separatedTail sep item i).reply ≠ .failure (.recoverable e)) := by
  by_cases hstalls : StallsAt sep item (reached i steps)
  · refine .inr (.inl ⟨hstalls, ?_⟩)
    rw [separatedTail_of_path hsep hitem h.1, separatedTail_of_stalls hsep hstalls]
    rfl
  · by_cases hmiss : (preceded sep item).Misses (reached i steps)
    · have hmisses := stepMisses_of_misses hstalls hmiss
      refine .inl ⟨hmisses, ?_⟩
      rw [separatedTail_of_path hsep hitem h.1, separatedTail_of_stepMisses hsep hmisses]
      exact congrArg (Reply.success · _) (List.append_nil _)
    · -- What is left are the replies that end a repetition at once, and no repetition turns them
      -- into a success or a recoverable failure.
      have hfails := preceded_fails_of_blocked h.2 hstalls
      rw [separatedTail_of_path hsep hitem h.1, separatedTail_of_blocked hsep h.2 hstalls .many0,
        Reply.map_concluded]
      unfold Misses at hmiss
      generalize (preceded sep item (reached i steps)).reply = reply at hfails hmiss ⊢
      refine .inr (.inr ⟨?_, ?_⟩)
      · intro values rest hsuccess
        exact hmiss (Reply.concluded_eq_success hsuccess).2
      · intro e he
        rcases reply with ⟨value, rest⟩ | ⟨_ | e | e⟩ | fault
        case success => cases hfails
        case failure.recoverable => exact hmiss ⟨e, rfl⟩
        all_goals cases he

/-- A list that succeeds has the values of successes of separator and item in a row behind its
first item, and ends where they end, whatever the two parsers are. -/
theorem exists_path_of_separatedTail {values : List α} {rest : ι}
    (h : (separatedTail sep item i).reply = .success values rest) :
    ∃ steps, Path (preceded sep item).Succeeds i steps ∧ values = steps.map Success.value ∧
      rest = reached i steps := by
  induction hn : Input.length i using Nat.strongRecOn generalizing i values with
  | ind n ih =>
    rw [separatedTail] at h
    obtain ⟨between, afterSep, hbetween, hmore⟩ | ⟨e, -, hend⟩ := Run.exists_of_handle_success h
    · by_cases hlt : Input.length afterSep < Input.length i
      · rw [dif_pos hlt] at hmore
        obtain ⟨value, mid, hvalue, hmore⟩ | ⟨e, -, hend⟩ := Run.exists_of_handle_success hmore
        · by_cases hlt' : Input.length mid < Input.length afterSep
          · rw [dif_pos hlt'] at hmore
            obtain ⟨values', hfound, rfl⟩ := Reply.map_eq_success hmore
            obtain ⟨steps, hpath, rfl, hrest⟩ := ih _ (by omega) hfound rfl
            exact ⟨⟨value, mid⟩ :: steps, .cons ((preceded_of_success hbetween).trans hvalue) hpath,
              rfl, hrest⟩
          · rw [dif_neg hlt'] at hmore
            exact (Run.stalled_ne_success _ _ hmore).elim
        · cases hend
          exact ⟨[], .nil, rfl, rfl⟩
      · rw [dif_neg hlt] at hmore
        exact (Run.stalled_ne_success _ _ hmore).elim
    · cases hend
      exact ⟨[], .nil, rfl, rfl⟩

/-- So it is behind a first item that has been found. -/
theorem exists_path_of_separatedAfter {first : α} {mid rest : ι} {values : List α}
    (h : (separatedAfter sep item i first mid).reply = .success values rest) :
    ∃ steps, Path (preceded sep item).Succeeds mid steps ∧
      values = first :: steps.map Success.value ∧ rest = reached mid steps := by
  unfold separatedAfter at h
  split at h
  · obtain ⟨values', htail, rfl⟩ := Reply.map_eq_success h
    obtain ⟨steps, hpath, rfl, hrest⟩ := exists_path_of_separatedTail htail
    exact ⟨steps, hpath, rfl, hrest⟩
  · exact (Run.stalled_ne_success _ _ h).elim

/-! ## Lists with one item at least -/

theorem separatedNonemptyList_of_advances (hitem : item.NeverGrows) {first : α} {rest : ι}
    (h : item.Advances i first rest) :
    (separatedNonemptyList sep item i).reply =
      (separatedTail sep item rest).reply.map (first :: ·) := by
  rw [separatedNonemptyList, Run.reply_andThen_of_success h.1, separatedAfter,
    if_pos (hitem.shortens h)]
  rfl

theorem separatedNonemptyList_of_idles (h : item.Idles i) :
    (separatedNonemptyList sep item i).reply =
      .failure (.recoverable (ParseError.ofKind i .separatedList)) := by
  obtain ⟨value, rest, hreply, hlength⟩ := h
  rw [separatedNonemptyList, Run.reply_andThen_of_success hreply, separatedAfter,
    if_neg (hlength ▸ Nat.lt_irrefl _), Run.stalled_of_eq hlength]
  rfl

/-- A first item that does not succeed gives the reply. -/
theorem separatedNonemptyList_of_fails (h : (item i).reply.success? = none) :
    separatedNonemptyList sep item i = (item i).map fun first => [first] :=
  Run.andThen_eq_map h _ _

/-- A list that stalls is an error where its step begins. -/
theorem separatedNonemptyList_of_stalls (hsep : sep.NeverGrows) (hitem : item.NeverGrows)
    (h : ListStalls sep item i q) :
    (separatedNonemptyList sep item i).reply =
      .failure (.recoverable (ParseError.ofKind q .separatedList)) := by
  rcases h with ⟨hidles, rfl⟩ | ⟨first, rest, steps, hfirst, hpath, rfl, hstalls⟩
  · exact separatedNonemptyList_of_idles hidles
  · rw [separatedNonemptyList_of_advances hitem hfirst, separatedTail_of_path hsep hitem hpath,
      separatedTail_of_stalls hsep hstalls]
    rfl

/-- An item before a repetition of items that each have a separator in front. -/
def repeatedList (sep : Parser ι ε β) (item : Parser ι ε α) : Parser ι ε (List α) :=
  map (fun both => both.1 :: both.2) (pair item (many0 (preceded sep item)))

/-- A list that does not stall is an item before a repetition. -/
theorem separatedNonemptyList_eq_repeatedList (hsep : sep.NeverGrows) (hitem : item.NeverGrows)
    (h : ∀ q, ¬ ListStalls sep item i q) :
    (separatedNonemptyList sep item i).reply = (repeatedList sep item i).reply := by
  unfold repeatedList map pair
  rw [Run.map_andThen]
  rcases hreply : (item i).reply with ⟨first, rest⟩ | f | fault
  · have hfirst := (advances_or_idles hreply).resolve_right fun hidles => h i (.inl ⟨hidles, rfl⟩)
    obtain ⟨steps, hcourse⟩ := (determined_separatedStep hsep hitem).exists_course rest
    have hstalls : ¬ StallsAt sep item (reached rest steps) := fun hstalls =>
      h _ (.inr ⟨first, rest, steps, hfirst, hcourse.1, rfl, hstalls⟩)
    rw [separatedNonemptyList_of_advances hitem hfirst,
      separatedTail_eq_many0 hsep hitem hcourse hstalls, Run.reply_andThen_of_success hreply,
      Run.map_map]
    rfl
  all_goals
    have hfails : (item i).reply.success? = none := by rw [hreply]; rfl
    rw [separatedNonemptyList_of_fails hfails, Run.andThen_eq_map hfails]

theorem separatedNonemptyList_of_listed (hsep : sep.NeverGrows) (hitem : item.NeverGrows)
    {values : List α} {rest : ι} (h : Listed sep item i values rest) :
    (separatedNonemptyList sep item i).reply = .success values rest := by
  obtain ⟨first, more, steps, hfirst, hpath, rfl, rfl, hmisses⟩ := h
  rw [separatedNonemptyList_of_advances hitem hfirst, separatedTail_of_path hsep hitem hpath,
    separatedTail_of_stepMisses hsep hmisses]
  simp [Reply.map]

theorem separatedNonemptyList_of_misses {e : ε} (h : (item i).reply = .failure (.recoverable e)) :
    (separatedNonemptyList sep item i).reply = .failure (.recoverable e) := by
  rw [separatedNonemptyList_of_fails (by rw [h]; rfl), Run.map, h]
  rfl

/-- What comes of a list: its items, a stall, a first item that is missed, or a reply of the
separator or of an item that ends it at once. -/
theorem separatedNonemptyList_cases (hsep : sep.NeverGrows) (hitem : item.NeverGrows) (i : ι) :
    (∃ values rest, Listed sep item i values rest) ∨ (∃ q, ListStalls sep item i q) ∨
      item.Misses i ∨
      ((∀ values rest, (separatedNonemptyList sep item i).reply ≠ .success values rest) ∧
        ∀ e, (separatedNonemptyList sep item i).reply ≠ .failure (.recoverable e)) := by
  rcases hreply : (item i).reply with ⟨first, more⟩ | ⟨_ | e | e⟩ | fault
  case success =>
    rcases advances_or_idles hreply with hfirst | hidles
    · obtain ⟨steps, hcourse⟩ := (determined_separatedStep hsep hitem).exists_course more
      rw [separatedNonemptyList_of_advances hitem hfirst]
      rcases separatedTail_cases hsep hitem hcourse with
        ⟨hmisses, -⟩ | ⟨hstalls, -⟩ | ⟨hsuccess, hmiss⟩
      · exact .inl ⟨_, _, first, more, steps, hfirst, hcourse.1, rfl, rfl, hmisses⟩
      · exact .inr (.inl ⟨_, .inr ⟨first, more, steps, hfirst, hcourse.1, rfl, hstalls⟩⟩)
      · refine .inr (.inr (.inr ⟨fun values rest h => ?_, fun e he =>
          hmiss e (Reply.map_eq_failure he)⟩))
        obtain ⟨values', htail, -⟩ := Reply.map_eq_success h
        exact hsuccess values' rest htail
    · exact .inr (.inl ⟨i, .inl ⟨hidles, rfl⟩⟩)
  case failure.recoverable => exact .inr (.inr (.inl ⟨e, hreply⟩))
  all_goals
    rw [separatedNonemptyList_of_fails (by rw [hreply]; rfl), Run.map, hreply]
    refine .inr (.inr (.inr ⟨fun values rest h => ?_, fun e h => ?_⟩))
    all_goals cases h

theorem separatedNonemptyList_success_iff (hsep : sep.NeverGrows) (hitem : item.NeverGrows)
    {values : List α} {rest : ι} :
    (separatedNonemptyList sep item i).reply = .success values rest ↔
      Listed sep item i values rest := by
  refine ⟨fun h => ?_, separatedNonemptyList_of_listed hsep hitem⟩
  rcases separatedNonemptyList_cases hsep hitem i with
    ⟨_, _, hlisted⟩ | ⟨q, hstalls⟩ | ⟨e, hmiss⟩ | ⟨hsuccess, -⟩
  · cases (separatedNonemptyList_of_listed hsep hitem hlisted).symm.trans h
    exact hlisted
  · exact nomatch (separatedNonemptyList_of_stalls hsep hitem hstalls).symm.trans h
  · exact nomatch (separatedNonemptyList_of_misses hmiss).symm.trans h
  · exact (hsuccess _ _ h).elim

theorem separatedNonemptyList_recoverable_iff (hsep : sep.NeverGrows) (hitem : item.NeverGrows)
    {e : ε} :
    (separatedNonemptyList sep item i).reply = .failure (.recoverable e) ↔
      (item i).reply = .failure (.recoverable e) ∨
        ∃ q, ListStalls sep item i q ∧ e = ParseError.ofKind q .separatedList := by
  constructor
  · intro h
    rcases separatedNonemptyList_cases hsep hitem i with
      ⟨_, _, hlisted⟩ | ⟨q, hstalls⟩ | ⟨e', hmiss⟩ | ⟨-, hne⟩
    · exact nomatch (separatedNonemptyList_of_listed hsep hitem hlisted).symm.trans h
    · cases (separatedNonemptyList_of_stalls hsep hitem hstalls).symm.trans h
      exact .inr ⟨q, hstalls, rfl⟩
    · cases (separatedNonemptyList_of_misses hmiss).symm.trans h
      exact .inl hmiss
    · exact (hne e h).elim
  · rintro (hmiss | ⟨q, hstalls, rfl⟩)
    · exact separatedNonemptyList_of_misses hmiss
    · exact separatedNonemptyList_of_stalls hsep hitem hstalls

/-! ## Lists that may be empty -/

theorem separatedList_of_misses (h : item.Misses i) :
    (separatedList sep item i).reply = .success [] i := by
  obtain ⟨e, he⟩ := h
  rw [separatedList, Run.reply_handle_of_miss he]
  rfl

/-- A list whose first item is not missed need not be told that it may be empty. -/
theorem separatedList_of_not_misses (h : ¬ item.Misses i) :
    separatedList sep item i = separatedNonemptyList sep item i := by
  unfold separatedList separatedNonemptyList Run.andThen
  rcases hrun : item i with ⟨log, ⟨first, rest⟩ | ⟨_ | e | e⟩ | fault⟩
  case failure.recoverable => exact (h ⟨e, by rw [hrun]⟩).elim
  all_goals rfl

/-- A list that may be empty is empty, or has what a list with one item at least has. -/
theorem separatedList_of_success {values : List α} {rest : ι}
    (h : (separatedList sep item i).reply = .success values rest) :
    values = [] ∧ rest = i ∨ (separatedNonemptyList sep item i).reply = .success values rest := by
  by_cases hmiss : item.Misses i
  · cases (separatedList_of_misses hmiss).symm.trans h
    exact .inl ⟨rfl, rfl⟩
  · rw [separatedList_of_not_misses hmiss] at h
    exact .inr h

/-- **Separated lists never lose or orphan a separator.**  If separator and item consume on every
success, a list with one item at least is an item before a repetition of items that each have a
separator in front, whatever comes of them; and a list that may be empty differs only where the
first item is missed, and is empty there.

If they need not consume, the one other outcome is an error without a cause at the beginning of the
step that stalls, and there is such an error just when the first item, a separator or the item
behind one succeeds without taking anything.

A list that succeeds ends behind its last item, where the next step is missed, or where it begins if
it is empty. -/
theorem separated_lists (hsep : sep.NeverGrows) (hitem : item.NeverGrows) (i : ι) :
    (sep.Consuming → item.Consuming →
      (separatedNonemptyList sep item i).reply = (repeatedList sep item i).reply) ∧
    (item.Misses i → (separatedList sep item i).reply = .success [] i) ∧
    (¬ item.Misses i → separatedList sep item i = separatedNonemptyList sep item i) ∧
    ((∀ q, ¬ ListStalls sep item i q) →
      (separatedNonemptyList sep item i).reply = (repeatedList sep item i).reply) ∧
    (∀ q, ListStalls sep item i q →
      (separatedNonemptyList sep item i).reply =
          .failure (.recoverable (ParseError.ofKind q .separatedList)) ∧
        (separatedList sep item i).reply =
          .failure (.recoverable (ParseError.ofKind q .separatedList))) ∧
    (∀ e, (separatedNonemptyList sep item i).reply = .failure (.recoverable e) ↔
      (item i).reply = .failure (.recoverable e) ∨
        ∃ q, ListStalls sep item i q ∧ e = ParseError.ofKind q .separatedList) ∧
    (∀ e, (separatedList sep item i).reply = .failure (.recoverable e) ↔
      ∃ q, ListStalls sep item i q ∧ e = ParseError.ofKind q .separatedList) ∧
    (∀ values rest, (separatedNonemptyList sep item i).reply = .success values rest ↔
      Listed sep item i values rest) ∧
    (∀ values rest, (separatedList sep item i).reply = .success values rest ↔
      (item.Misses i ∧ values = [] ∧ rest = i) ∨ Listed sep item i values rest) := by
  have hlist : ∀ {reply}, ¬ item.Misses i →
      ((separatedList sep item i).reply = reply ↔
        (separatedNonemptyList sep item i).reply = reply) := fun h => by
    rw [separatedList_of_not_misses h]
  refine ⟨fun hsep' hitem' => separatedNonemptyList_eq_repeatedList hsep hitem fun q =>
      not_listStalls_of_consuming hsep' hitem', separatedList_of_misses,
    separatedList_of_not_misses, separatedNonemptyList_eq_repeatedList hsep hitem,
    fun q hstalls => ?_, fun e => separatedNonemptyList_recoverable_iff hsep hitem, fun e => ?_,
    fun _ _ => separatedNonemptyList_success_iff hsep hitem, fun values rest => ?_⟩
  · have hreply := separatedNonemptyList_of_stalls hsep hitem hstalls
    exact ⟨hreply, (hlist fun h => not_listStalls_of_misses h hstalls).2 hreply⟩
  · by_cases hmiss : item.Misses i
    · rw [separatedList_of_misses hmiss]
      exact ⟨nofun, fun ⟨q, hstalls, _⟩ => (not_listStalls_of_misses hmiss hstalls).elim⟩
    · rw [hlist hmiss, separatedNonemptyList_recoverable_iff hsep hitem]
      exact or_iff_right fun he => hmiss ⟨e, he⟩
  · by_cases hmiss : item.Misses i
    · rw [separatedList_of_misses hmiss]
      constructor
      · intro h
        cases h
        exact .inl ⟨hmiss, rfl, rfl⟩
      · rintro (⟨-, rfl, rfl⟩ | ⟨_, _, _, hfirst, -⟩)
        · rfl
        · obtain ⟨e, he⟩ := hmiss
          exact nomatch he.symm.trans hfirst.1
    · rw [hlist hmiss, separatedNonemptyList_success_iff hsep hitem]
      exact ⟨.inr, fun h => h.resolve_left fun hempty => hmiss hempty.1⟩

/-- Digits between commas: a comma before a letter is left, no digit is an empty list, and a run of
digits that may be empty stalls behind the comma. -/
theorem separated_lists_digits :
    let digit : Parser Text (Cause Text) (Value Text Char) :=
      (Expr.scan .complete (.one (.inClass .digit) .digit)).eval fun _ _ => .stuck .tooDeep
    let digits : Parser Text (Cause Text) (Value Text Char) :=
      (Expr.scan .complete .digit0).eval fun _ _ => .stuck .tooDeep
    let comma : Parser Text (Cause Text) (Value Text Char) :=
      (Expr.scan .complete (.char ',')).eval fun _ _ => .stuck .tooDeep
    comma.NeverGrows ∧ digit.NeverGrows ∧ digits.NeverGrows ∧ comma.Consuming ∧ digit.Consuming ∧
    (separatedNonemptyList comma digit ⟨['1', ',', '2', ',', 'x']⟩).reply =
      (repeatedList comma digit ⟨['1', ',', '2', ',', 'x']⟩).reply ∧
    (separatedNonemptyList comma digit ⟨['1', ',', '2', ',', 'x']⟩).reply =
      .success [.symbol '1', .symbol '2'] ⟨[',', 'x']⟩ ∧
    (separatedList comma digit ⟨['x']⟩).reply = .success [] ⟨['x']⟩ ∧
    (separatedList comma digits ⟨['1', ',', 'x']⟩).reply =
      .failure (.recoverable (.root ⟨[',', 'x']⟩ .separatedList)) := by
  intro digit digits comma
  have hcomma : comma.Consuming :=
    Expr.consuming_scan (fun _ => trivial) _ (s := .char ',') trivial .complete
  have hdigit : digit.Consuming :=
    Expr.consuming_scan (fun _ => trivial) _ (s := .one (.inClass .digit) .digit) trivial .complete
  have hdigits : digits.NeverGrows :=
    Expr.neverGrows_scan (fun _ => trivial) _ .complete .digit0
  have hlisted : Listed comma digit ⟨['1', ',', '2', ',', 'x']⟩ [.symbol '1', .symbol '2']
      ⟨[',', 'x']⟩ :=
    ⟨.symbol '1', ⟨[',', '2', ',', 'x']⟩, [⟨.symbol '2', ⟨[',', 'x']⟩⟩], ⟨rfl, by decide⟩,
      .cons ⟨.char ',', ⟨['2', ',', 'x']⟩, ⟨rfl, by decide⟩, rfl, by decide⟩ .nil, rfl, rfl,
      .inr ⟨.char ',', ⟨['x']⟩, ⟨rfl, by decide⟩, _, rfl⟩⟩
  have hstalls : ListStalls comma digits ⟨['1', ',', 'x']⟩ ⟨[',', 'x']⟩ :=
    .inr ⟨.piece ⟨['1']⟩, ⟨[',', 'x']⟩, [], ⟨rfl, by decide⟩, .nil, rfl,
      .inr ⟨.char ',', ⟨['x']⟩, ⟨rfl, by decide⟩, .piece ⟨[]⟩, ⟨['x']⟩, rfl, rfl⟩⟩
  obtain ⟨hrepeated, -, -, -, -, -, -, hsuccess, -⟩ :=
    separated_lists hcomma.neverGrows hdigit.neverGrows ⟨['1', ',', '2', ',', 'x']⟩
  have hempty := (separated_lists hcomma.neverGrows hdigit.neverGrows ⟨['x']⟩).2.1 ⟨_, rfl⟩
  have hstall :=
    ((separated_lists hcomma.neverGrows hdigits ⟨['1', ',', 'x']⟩).2.2.2.2.1 _ hstalls).2
  exact ⟨hcomma.neverGrows, hdigit.neverGrows, hdigits, hcomma, hdigit, hrepeated hcomma hdigit,
    (hsuccess _ _).2 hlisted, hempty, hstall⟩

end ParseKit.Parser
