/-
  Lists of numerals, joined and parsed.

  Parsing undoes joining: numerals joined by a separator are parsed to these
  numerals if neither the separator nor what follows the last numeral could
  be read as more of a numeral, and if what follows is not another step of
  the list.  The other way round, whatever has been parsed to a list of
  numerals is they, joined, in front of the remainder.  Both ways rest on
  what separator and numeral do with the bytes in front of them
  (`separator_cases`, `digits_cases`).
-/
import ParseKit.Proofs.Input.Written
import ParseKit.Proofs.Scan.LongestRun
import ParseKit.Proofs.SeparatedLists

set_option autoImplicit false

namespace ParseKit

open LawfulInput Judgement

/-! ## Joined texts -/

/-- A text of one digit or more. -/
def IsNumeral (cs : List Char) : Prop := cs ≠ [] ∧ ∀ c ∈ cs, c.isDigit = true

/-- Numerals that can be joined by a separator in front of another text and told apart again. -/
structure Joinable (sep : List Char) (items : List (List Char)) (trail : List Char) : Prop where
  isNumeral : ∀ d ∈ items, IsNumeral d
  sep_ne_nil : sep ≠ []
  sep_startsWithDigit : Symbol.startsWithDigit sep = false
  trail_startsWithDigit : Symbol.startsWithDigit trail = false
  /-- Behind the last item there may be a separator, but no item behind that. -/
  ends : items ≠ [] → ∀ more, trail = sep ++ more → Symbol.startsWithDigit more = false

/-- Joined items are the first one and all others, each with a separator in front. -/
theorem intercalate_cons (sep d : List Char) (items : List (List Char)) :
    sep.intercalate (d :: items) = d ++ items.flatMap (sep ++ ·) := by
  induction items generalizing d with
  | nil => rw [List.intercalate_singleton, List.flatMap_nil, List.append_nil]
  | cons e items ih =>
    rw [List.intercalate_cons_cons, ih, List.flatMap_cons, List.append_assoc, List.append_assoc]

/-- No digit follows an item, be it the last one or not. -/
theorem startsWithDigit_flatMap_append {sep trail : List Char} (hsep : sep ≠ [])
    (hstart : Symbol.startsWithDigit sep = false) (htrail : Symbol.startsWithDigit trail = false)
    (items : List (List Char)) :
    Symbol.startsWithDigit (items.flatMap (sep ++ ·) ++ trail) = false := by
  cases items with
  | nil => exact htrail
  | cons d items =>
    obtain ⟨c, sep, rfl⟩ := List.exists_cons_of_ne_nil hsep
    exact hstart

section

variable {ι σ ε : Type} [Input ι σ] [LawfulInput ι σ]

/-! ## Splitting off bytes -/

namespace Parser

variable {p : Parser ι ε (Value ι σ)} {i piece rest : ι} {taken left : List UInt8}

/-- On an input with the bytes `taken` and `left` a parser takes the first of these as a piece. -/
structure Splits (p : Parser ι ε (Value ι σ)) (i : ι) (taken left : List UInt8) (piece rest : ι) :
    Prop where
  reply_eq : (p i).reply = .success (.piece piece) rest
  valid : Valid rest
  bytes_eq : Input.bytes i = some (taken ++ left)
  bytes_piece : Input.bytes piece = some taken
  bytes_rest : Input.bytes rest = some left

theorem splits_of_reply (hi : Valid i) (hbytes : Input.bytes i = some (taken ++ left))
    (hn : Input.isBoundary i taken.length = true)
    (h : (p i).reply = .success (.piece (Input.splitAt i taken.length).1)
      (Input.splitAt i taken.length).2) :
    ∃ piece rest, p.Splits i taken left piece rest := by
  have hparts := bytes_splitAt hi hbytes hn
  rw [List.take_left, List.drop_left] at hparts
  exact ⟨_, _, h, (valid_splitAt hi hn).2, hbytes, hparts.1, hparts.2⟩

/-- What is left is shorter if anything has been taken. -/
theorem Splits.length_lt (hi : Valid i) (h : p.Splits i taken left piece rest)
    (hne : taken ≠ []) : Input.length rest < Input.length i := by
  have hwhole := h.bytes_eq
  have hrest := h.bytes_rest
  rw [LawfulInput.bytes_eq hi] at hwhole
  rw [LawfulInput.bytes_eq h.valid] at hrest
  rw [length_eq hi, length_eq h.valid, ← (storage ι).length_of_bytes? hwhole,
    ← (storage ι).length_of_bytes? hrest, List.length_append]
  exact Nat.lt_add_of_pos_left (List.length_pos_of_ne_nil hne)

end Parser

/-! ## Separator and numeral -/

section

variable {ε : Type} [ParseError ε ι] {i : ι} {bytes : List UInt8}

/-- Where nothing follows, a pattern that the bytes do not begin with is missed. -/
theorem Parser.misses_tag (hi : Valid i) (hbytes : Input.bytes i = some bytes)
    {pattern : List UInt8} (h : ¬ pattern <+: bytes) :
    (tag .complete .exact pattern : Parser ι ε ι).Misses i := by
  have hrun := tag_eq (ε := ε) hi .complete .exact pattern
  rw [run_complete] at hrun
  cases hverdict : (ofTag (storage ι) .exact pattern (Input.symbols i)).verdict with
  | takes count =>
    rw [hverdict] at hrun
    have hbegins := ((tag_success_iff hbytes).1 (congrArg Run.reply hrun)).1
    have hexact : ∀ l : List UInt8, l.map (Comparison.fold .exact) = l := List.map_id
    rw [hexact, hexact] at hbegins
    exact (h hbegins).elim
  | refuses kind => exact ⟨_, by rw [hrun, hverdict]; rfl⟩

end

namespace Expr

variable {ε : Type} [Symbol σ] [ParseError ε ι] [WrittenInput ι] {env : Env ι σ ε} {i rest : ι}
  {bytes : List UInt8} {sep : List Char}

/-- The text of a separator. -/
def separator (sep : List Char) : Expr := .scan .complete (.tag .exact (Text.utf8 sep))

/-- A numeral, as long as it goes on. -/
def digits : Expr := .scan .complete .digit1

/-- A separator is taken where the bytes begin with it, and missed elsewhere. -/
theorem separator_cases (env : Env ι σ ε) (hi : Valid i) (hbytes : Input.bytes i = some bytes)
    (sep : List Char) :
    (∃ left piece rest,
        Parser.Splits ((separator sep).eval env) i (Text.utf8 sep) left piece rest) ∨
      ¬ Text.utf8 sep <+: bytes ∧ Parser.Misses ((separator sep).eval env) i := by
  by_cases hbegins : Text.utf8 sep <+: bytes
  · have hn := WrittenInput.isBoundary_utf8 hi hbytes sep hbegins
    have htag : (Parser.tag .complete .exact (Text.utf8 sep) i : Run ι ε ι).reply =
        .success (Input.splitAt i (Text.utf8 sep).length).1
          (Input.splitAt i (Text.utf8 sep).length).2 :=
      (Parser.tag_success_iff hbytes).2 ⟨hbegins.map (Comparison.fold .exact), hn, rfl⟩
    obtain ⟨left, rfl⟩ := hbegins
    exact .inl ⟨left, Parser.splits_of_reply hi hbytes hn (congrArg (Reply.map Value.piece) htag)⟩
  · exact .inr ⟨hbegins, (Parser.misses_tag hi hbytes hbegins).map Value.piece⟩

/-- The digits that the bytes begin with are taken, and a numeral is missed if there are none. -/
theorem digits_cases (env : Env ι σ ε) (hi : Valid i) (hbytes : Input.bytes i = some bytes) :
    (bytes.takeWhile (Symbol.isIn .digit) ≠ [] ∧
        ∃ piece rest, Parser.Splits (digits.eval env) i (bytes.takeWhile (Symbol.isIn .digit))
          (bytes.dropWhile (Symbol.isIn .digit)) piece rest) ∨
      Symbol.startsWithDigit bytes = false ∧ Parser.Misses (digits.eval env) i := by
  have hextent := WrittenInput.extent_digits hi hbytes
  by_cases hzero : runLength (Symbol.isIn .digit) (Input.symbols i) = 0
  · have hmiss : (Parser.takeRun .complete (Symbol.isIn .digit) (some .digit) :
        Parser ι ε ι).Misses i :=
      ⟨_, congrArg Run.reply (Parser.takeRun_of_zero hi hzero .digit)⟩
    rw [hzero, List.take_zero, Storage.extent_nil, eq_comm, List.length_eq_zero_iff] at hextent
    exact .inr ⟨Symbol.takeWhile_isIn_digit_eq_nil.1 hextent, hmiss.map Value.piece⟩
  · have hreply := Parser.takeRun_eq_parts (ε := ε) hi (Nat.pos_of_ne_zero hzero) .digit
    have hboundary := isBoundary_take hi (runLength (Symbol.isIn .digit) (Input.symbols i))
    rw [parts, hextent] at hreply
    rw [hextent] at hboundary
    rw [← List.takeWhile_append_dropWhile (p := Symbol.isIn .digit) (l := bytes)] at hbytes
    refine .inl ⟨fun hnil => hzero ?_, Parser.splits_of_reply hi hbytes hboundary
      (congrArg (fun r => (Run.map Value.piece r).reply) hreply)⟩
    rw [hnil, List.length_nil, Storage.extent_eq_zero, ← takeWhile_eq_take] at hextent
    exact congrArg List.length hextent

/-! ## Joined texts are parsed -/

theorem exists_splits_separator (env : Env ι σ ε) (hi : Valid i) {cs : List Char}
    (h : Input.HasText i (sep ++ cs)) :
    ∃ piece rest, Parser.Splits ((separator sep).eval env) i (Text.utf8 sep) (Text.utf8 cs)
      piece rest := by
  rw [Input.HasText, Text.utf8_append] at h
  obtain ⟨left, piece, rest, hsplits⟩ | ⟨hbegins, -⟩ := separator_cases env hi h sep
  · obtain rfl : Text.utf8 cs = left :=
      List.append_cancel_left (Option.some.inj (h.symm.trans hsplits.bytes_eq))
    exact ⟨piece, rest, hsplits⟩
  · exact (hbegins (List.prefix_append ..)).elim

/-- A numeral is taken up to where no digit follows. -/
theorem exists_splits_digits (env : Env ι σ ε) (hi : Valid i) {d cs : List Char}
    (hd : IsNumeral d) (hcs : Symbol.startsWithDigit cs = false)
    (h : Input.HasText i (d ++ cs)) :
    ∃ piece rest, Parser.Splits (digits.eval env) i (Text.utf8 d) (Text.utf8 cs) piece rest := by
  have hrun : (Text.utf8 d ++ Text.utf8 cs).takeWhile (Symbol.isIn .digit) = Text.utf8 d :=
    Symbol.takeWhile_isIn_digit_append (fun b => Text.isIn_digit_of_mem_utf8 hd.2)
      ((Text.startsWithDigit_utf8 cs).trans hcs)
  have happ := List.takeWhile_append_dropWhile (p := Symbol.isIn .digit)
    (l := Text.utf8 d ++ Text.utf8 cs)
  rw [hrun] at happ
  rw [Input.HasText, Text.utf8_append] at h
  obtain ⟨-, hsplits⟩ | ⟨hstart, -⟩ := digits_cases env hi h
  · rwa [hrun, List.append_cancel_left happ] at hsplits
  · rw [← Symbol.takeWhile_isIn_digit_eq_nil, hrun] at hstart
    exact (Text.utf8_ne_nil hd.1 hstart).elim

theorem misses_digits (env : Env ι σ ε) (hi : Valid i) {cs : List Char}
    (hcs : Symbol.startsWithDigit cs = false) (h : Input.HasText i cs) :
    Parser.Misses (digits.eval env) i := by
  rw [← Text.startsWithDigit_utf8, ← Symbol.takeWhile_isIn_digit_eq_nil] at hcs
  obtain ⟨hne, -⟩ | ⟨-, hmiss⟩ := digits_cases env hi h
  · exact (hne hcs).elim
  · exact hmiss

/-- In front of a text that does not go on with another step a list ends. -/
theorem separatedTail_of_ends (env : Env ι σ ε) (hi : Valid i) (hsep : sep ≠ [])
    {trail : List Char}
    (hends : ∀ more, trail = sep ++ more → Symbol.startsWithDigit more = false)
    (h : Input.HasText i trail) :
    (Parser.separatedTail ((separator sep).eval env) (digits.eval env) i).reply =
      .success [] i := by
  obtain ⟨left, piece, rest, hsplits⟩ | ⟨-, e, hmiss⟩ := separator_cases env hi h sep
  · -- A separator without an item behind it is given back.
    obtain ⟨more, hmore, rfl⟩ :=
      Text.exists_of_utf8_eq_append (Option.some.inj (h.symm.trans hsplits.bytes_eq))
    obtain ⟨e, hmiss⟩ := misses_digits env hsplits.valid (hends more hmore) hsplits.bytes_rest
    rw [Parser.separatedTail_of_shorter hsplits.reply_eq
      (hsplits.length_lt hi (Text.utf8_ne_nil hsep)), Run.reply_handle_of_miss hmiss]
    rfl
  · rw [Parser.separatedTail, Run.reply_handle_of_miss hmiss]
    rfl

/-- Items with a separator in front of each are parsed to these items. -/
theorem exists_separatedTail (env : Env ι σ ε) (hsep : sep ≠ [])
    (hstart : Symbol.startsWithDigit sep = false) {trail : List Char}
    (htrail : Symbol.startsWithDigit trail = false)
    (hends : ∀ more, trail = sep ++ more → Symbol.startsWithDigit more = false)
    {items : List (List Char)} (hitems : ∀ d ∈ items, IsNumeral d) (hi : Valid i)
    (h : Input.HasText i (items.flatMap (sep ++ ·) ++ trail)) :
    ∃ pieces rest, (Parser.separatedTail ((separator sep).eval env) (digits.eval env) i).reply =
        .success (pieces.map .piece) rest ∧
      List.Forall₂ Input.HasText pieces items ∧ Input.HasText rest trail := by
  induction items generalizing i with
  | nil => exact ⟨[], i, separatedTail_of_ends env hi hsep hends h, .nil, h⟩
  | cons d items ih =>
    obtain ⟨hd, hitems⟩ := List.forall_mem_cons.1 hitems
    rw [List.flatMap_cons, List.append_assoc, List.append_assoc] at h
    obtain ⟨between, afterSep, hbetween⟩ := exists_splits_separator env hi h
    obtain ⟨piece, rest, hpiece⟩ := exists_splits_digits env hbetween.valid hd
      (startsWithDigit_flatMap_append hsep hstart htrail items) hbetween.bytes_rest
    obtain ⟨pieces, last, hreply, hpieces, hlast⟩ := ih hitems hpiece.valid hpiece.bytes_rest
    refine ⟨piece :: pieces, last, ?_, .cons hpiece.bytes_piece hpieces, hlast⟩
    rw [Parser.separatedTail_of_shorter hbetween.reply_eq
        (hbetween.length_lt hi (Text.utf8_ne_nil hsep)),
      Run.reply_handle_of_success hpiece.reply_eq,
      if_pos (hpiece.length_lt hbetween.valid (Text.utf8_ne_nil hd.1))]
    exact congrArg (Reply.map (Value.piece piece :: ·)) hreply

/-! ## What has been parsed was joined -/

/-- A numeral that has been parsed was in front of the rest. -/
theorem exists_numeral (hi : Valid i) {v : Value ι σ}
    (h : (digits.eval env i).reply = .success v rest) :
    ∃ piece d, v = .piece piece ∧ Input.HasText piece d ∧ IsNumeral d ∧ Valid rest ∧
      Input.bytes i = (Input.bytes rest).map (Text.utf8 d ++ ·) := by
  obtain ⟨bytes, hbytes⟩ := WrittenInput.exists_bytes hi
  obtain ⟨hne, piece, rest', hsplits⟩ | ⟨-, e, hmiss⟩ := digits_cases env hi hbytes
  · obtain ⟨d, hd, hdigits⟩ := Text.exists_of_digits
      (List.all_eq_true.1 (List.all_takeWhile (p := Symbol.isIn .digit) (l := bytes)))
    cases hsplits.reply_eq.symm.trans h
    refine ⟨piece, d, rfl, hsplits.bytes_piece.trans (congrArg some hd.symm), ⟨?_, hdigits⟩,
      hsplits.valid, ?_⟩
    · rintro rfl
      exact hne hd.symm
    · rw [hsplits.bytes_eq, hsplits.bytes_rest, hd]
      rfl
  · exact nomatch hmiss.symm.trans h

/-- So was a separator with the numeral behind it. -/
theorem exists_separated_numeral (hi : Valid i) {v : Value ι σ}
    (h : (Parser.preceded ((separator sep).eval env) (digits.eval env) i).reply =
      .success v rest) :
    ∃ piece d, v = .piece piece ∧ Input.HasText piece d ∧ IsNumeral d ∧ Valid rest ∧
      Input.bytes i = (Input.bytes rest).map (Text.utf8 (sep ++ d) ++ ·) := by
  obtain ⟨bytes, hbytes⟩ := WrittenInput.exists_bytes hi
  obtain ⟨left, between, afterSep, hsplits⟩ | ⟨-, e, hmiss⟩ := separator_cases env hi hbytes sep
  · rw [Parser.preceded_of_success hsplits.reply_eq] at h
    obtain ⟨piece, d, rfl, hpiece, hd, hvalid, hafter⟩ := exists_numeral hsplits.valid h
    refine ⟨piece, d, rfl, hpiece, hd, hvalid, ?_⟩
    rw [hsplits.bytes_rest] at hafter
    obtain ⟨last, hlast, rfl⟩ := Option.map_eq_some_iff.1 hafter.symm
    rw [hsplits.bytes_eq, hlast, Option.map_some, Text.utf8_append, List.append_assoc]
  · exact nomatch (Parser.preceded_of_failure hmiss).symm.trans h

/-- Steps of a list that have been made were in front of what they have left. -/
theorem exists_numerals_of_path (hi : Valid i) {steps : List (Success (Value ι σ) ι)}
    (h : Path (Parser.Succeeds
      (Parser.preceded ((separator sep).eval env) (digits.eval env))) i steps) :
    ∃ (pieces : List ι) (items : List (List Char)),
      steps.map Success.value = pieces.map Value.piece ∧
      List.Forall₂ Input.HasText pieces items ∧ (∀ d ∈ items, IsNumeral d) ∧
      Input.bytes i =
        (Input.bytes (Parser.reached i steps)).map (Text.utf8 (items.flatMap (sep ++ ·)) ++ ·) := by
  induction h with
  | nil => exact ⟨[], [], rfl, .nil, nofun, Option.map_id.symm ▸ rfl⟩
  | @cons i value mid steps hfirst _ ih =>
    obtain ⟨piece, d, rfl, hpiece, hd, hvalid, hbytes⟩ := exists_separated_numeral hi hfirst
    obtain ⟨pieces, items, hvalues, hpieces, hitems, hmore⟩ := ih hvalid
    refine ⟨piece :: pieces, d :: items, congrArg (_ :: ·) hvalues, .cons hpiece hpieces,
      List.forall_mem_cons.2 ⟨hd, hitems⟩, ?_⟩
    rw [hbytes, hmore, Option.map_map, Parser.reached]
    refine congrArg (Option.map · _) (funext fun last => ?_)
    simp only [Function.comp_apply, List.flatMap_cons, Text.utf8_append, List.append_assoc]

/-! ## Joining and parsing -/

/-- Joined numerals, one at least, are parsed to these numerals. -/
theorem exists_separatedNonemptyList (env : Env ι σ ε) (hi : Valid i) {items : List (List Char)}
    {trail : List Char} (hjoin : Joinable sep items trail) (hne : items ≠ [])
    (h : Input.HasText i (sep.intercalate items ++ trail)) :
    ∃ pieces rest,
      (Parser.separatedNonemptyList ((separator sep).eval env) (digits.eval env) i).reply =
        .success (pieces.map .piece) rest ∧
      List.Forall₂ Input.HasText pieces items ∧ Input.HasText rest trail := by
  obtain ⟨d, items, rfl⟩ := List.exists_cons_of_ne_nil hne
  obtain ⟨hd, hitems⟩ := List.forall_mem_cons.1 hjoin.isNumeral
  rw [intercalate_cons, List.append_assoc] at h
  obtain ⟨piece, mid, hpiece⟩ := exists_splits_digits env hi hd
    (startsWithDigit_flatMap_append hjoin.sep_ne_nil hjoin.sep_startsWithDigit
      hjoin.trail_startsWithDigit items) h
  obtain ⟨pieces, rest, hreply, hpieces, hrest⟩ := exists_separatedTail env hjoin.sep_ne_nil
    hjoin.sep_startsWithDigit hjoin.trail_startsWithDigit (hjoin.ends hne) hitems hpiece.valid
    hpiece.bytes_rest
  refine ⟨piece :: pieces, rest, ?_, .cons hpiece.bytes_piece hpieces, hrest⟩
  rw [Parser.separatedNonemptyList, Run.reply_andThen_of_success hpiece.reply_eq,
    Parser.separatedAfter, if_pos (hpiece.length_lt hi (Text.utf8_ne_nil hd.1))]
  exact congrArg (Reply.map (Value.piece piece :: ·)) hreply

/-- What a list with one item at least has parsed was its numerals, joined, before the rest. -/
theorem exists_joined (hi : Valid i) {values : List (Value ι σ)}
    (h : (Parser.separatedNonemptyList ((separator sep).eval env) (digits.eval env) i).reply =
      .success values rest) :
    ∃ (pieces : List ι) (items : List (List Char)), values = pieces.map .piece ∧
      List.Forall₂ Input.HasText pieces items ∧ (∀ d ∈ items, IsNumeral d) ∧
      Input.bytes i = (Input.bytes rest).map (Text.utf8 (sep.intercalate items) ++ ·) := by
  obtain ⟨first, mid, hfirst, hmore⟩ | ⟨e, -, hmore⟩ := Run.exists_of_handle_success h
  · obtain ⟨steps, hpath, rfl, rfl⟩ := Parser.exists_path_of_separatedAfter hmore
    obtain ⟨piece, d, rfl, hpiece, hd, hmid, hbytes⟩ := exists_numeral hi hfirst
    obtain ⟨pieces, items, hvalues, hpieces, hitems, hsteps⟩ := exists_numerals_of_path hmid hpath
    refine ⟨piece :: pieces, d :: items, congrArg (_ :: ·) hvalues, .cons hpiece hpieces,
      List.forall_mem_cons.2 ⟨hd, hitems⟩, ?_⟩
    rw [hbytes, hsteps, Option.map_map]
    refine congrArg (Option.map · _) (funext fun last => ?_)
    rw [Function.comp_apply, intercalate_cons, Text.utf8_append, List.append_assoc]
  · cases hmore

/-- **Parsing undoes joining.**  Numerals that are joined by a separator, in front of a text that
does not go on with a digit or with another step, are parsed to these numerals with that text left,
also if it begins with a separator that nothing follows or with a part of one; and by both kinds of
list if there is a numeral at all.

The other way round, where either kind of list succeeds, its values are numerals, and the input is
these, joined, in front of what is left. -/
theorem parsing_undoes_joining (env : Env ι σ ε) (hi : Valid i) (sep : List Char) :
    (∀ items trail, Joinable sep items trail →
      Input.HasText i (sep.intercalate items ++ trail) →
      ∃ pieces rest, List.Forall₂ Input.HasText pieces items ∧ Input.HasText rest trail ∧
        ((separatedList (separator sep) digits).eval env i).reply =
          .success (.list (pieces.map .piece)) rest ∧
        (items ≠ [] →
          ((separatedNonemptyList (separator sep) digits).eval env i).reply =
            .success (.list (pieces.map .piece)) rest)) ∧
    ∀ list ∈ [separatedList (separator sep) digits, separatedNonemptyList (separator sep) digits],
      ∀ value rest, (list.eval env i).reply = .success value rest →
        ∃ pieces items, value = .list (pieces.map .piece) ∧
          List.Forall₂ Input.HasText pieces items ∧ (∀ d ∈ items, IsNumeral d) ∧
          Input.bytes i =
            (Input.bytes rest).map (Text.utf8 (sep.intercalate items) ++ ·) := by
  refine ⟨fun items trail hjoin h => ?_, fun list hlist value rest h => ?_⟩
  · by_cases hne : items = []
    · subst hne
      have hmiss := misses_digits env hi hjoin.trail_startsWithDigit h
      exact ⟨[], i, .nil, h, congrArg (Reply.map Value.list) (Parser.separatedList_of_misses hmiss),
        fun h => (h rfl).elim⟩
    · obtain ⟨pieces, rest, hreply, hpieces, hrest⟩ :=
        exists_separatedNonemptyList env hi hjoin hne h
      have hfound : ¬ Parser.Misses (digits.eval env) i := fun ⟨e, hmiss⟩ =>
        nomatch (Parser.separatedNonemptyList_of_misses hmiss).symm.trans hreply
      have hlist : (Parser.separatedList ((separator sep).eval env) (digits.eval env) i).reply =
          .success (pieces.map .piece) rest := by
        rw [Parser.separatedList_of_not_misses hfound, hreply]
      exact ⟨pieces, rest, hpieces, hrest, congrArg (Reply.map Value.list) hlist,
        fun _ => congrArg (Reply.map Value.list) hreply⟩
  · rw [List.mem_cons, List.mem_singleton] at hlist
    have hvalues : ∃ values, value = .list values ∧ (values = [] ∧ rest = i ∨
        (Parser.separatedNonemptyList ((separator sep).eval env) (digits.eval env) i).reply =
          .success values rest) := by
      obtain rfl | rfl := hlist
      · obtain ⟨values, hvalues, rfl⟩ := Reply.map_eq_success h
        exact ⟨values, rfl, Parser.separatedList_of_success hvalues⟩
      · obtain ⟨values, hvalues, rfl⟩ := Reply.map_eq_success h
        exact ⟨values, rfl, .inr hvalues⟩
    obtain ⟨values, rfl, ⟨rfl, rfl⟩ | hvalues⟩ := hvalues
    · exact ⟨[], [], rfl, .nil, nofun, Option.map_id.symm ▸ rfl⟩
    · obtain ⟨pieces, items, rfl, hjoined⟩ := exists_joined hi hvalues
      exact ⟨pieces, items, rfl, hjoined⟩

/-- Two numerals joined by a letter of two bytes, the same letter behind them and another one in
front of the window: both kinds of list take the numerals and leave the letter. -/
theorem parsing_undoes_joining_letters :
    let window : Window Text := ⟨⟨['n', '1', '2', 'é', '7', 'é']⟩, 1, 8⟩
    let env : Env (Window Text) Char (Cause (Window Text)) := fun _ _ => .stuck .tooDeep
    let list : Expr := separatedList (separator ['é']) digits
    let nonempty : Expr := separatedNonemptyList (separator ['é']) digits
    Valid window ∧ Joinable ['é'] [['1', '2'], ['7']] ['é'] ∧
    Input.HasText window ['1', '2', 'é', '7', 'é'] ∧
    ∃ pieces rest,
      List.Forall₂ Input.HasText pieces [['1', '2'], ['7']] ∧ Input.HasText rest ['é'] ∧
      (list.eval env window).reply = .success (.list (pieces.map .piece)) rest ∧
      (nonempty.eval env window).reply = .success (.list (pieces.map .piece)) rest ∧
      ∃ items, List.Forall₂ Input.HasText pieces items ∧
        Input.bytes window =
          (Input.bytes rest).map (Text.utf8 (List.intercalate ['é'] items) ++ ·) := by
  intro window env list nonempty
  have hvalid : Valid window :=
    (valid_splitAt (Window.valid_whole trivial) (n := 1) (by decide)).2
  have hjoin : Joinable ['é'] [['1', '2'], ['7']] ['é'] :=
    { isNumeral := by simp [IsNumeral]
      sep_ne_nil := by decide
      sep_startsWithDigit := by decide
      trail_startsWithDigit := by decide
      ends := fun _ more h => by
        obtain rfl := List.self_eq_append_right.1 h
        rfl }
  have hinjective : Function.Injective (Value.piece : Window Text → Value (Window Text) Char) :=
    fun _ _ h => by cases h; rfl
  have htext : Input.HasText window ['1', '2', 'é', '7', 'é'] := rfl
  obtain ⟨hparse, hback⟩ := parsing_undoes_joining env hvalid ['é']
  obtain ⟨pieces, rest, hpieces, hrest, hlist, hnonempty⟩ := hparse _ _ hjoin htext
  obtain ⟨pieces', items, hvalue, hitems, -, hbytes⟩ :=
    hback _ List.mem_cons_self _ _ hlist
  obtain rfl : pieces = pieces' := hinjective.list_map (Value.list.inj hvalue)
  exact ⟨hvalid, hjoin, htext, pieces, rest, hpieces, hrest, hlist, hnonempty (by decide), items,
    hitems, hbytes⟩

end Expr

end

end ParseKit
