/-
  Pieces that tile their input.

  A recognized piece is what is split off between an input and what the
  recognizing parser leaves.  So pieces recognized one after the other tile
  the input: nothing is lost between them and nothing is taken twice.  This
  is followed along the splits (`Tiles`), and what it comes to is told by
  symbols and offsets (`Tiling`): the symbols of the pieces in order, with
  those of the rest, are the symbols of the input, and every piece begins
  where the one before it ends.
-/
import ParseKit.Proofs.Confinement
import ParseKit.Proofs.Parser.Successes
import ParseKit.Proofs.Scan.CarriedOut
import ParseKit.Proofs.Scan.LongestRun
import ParseKit.Proofs.Sequence

set_option autoImplicit false

namespace ParseKit

open LawfulInput

/-! ## Tilings -/

section

variable {ι σ : Type} [Input ι σ]

/-- Pieces split off one after the other at boundaries, and what is left behind the last one. -/
inductive Tiles : ι → List ι → ι → Prop
  | nil {i : ι} : Tiles i [] i
  | cons {i rest : ι} {n : Nat} {pieces : List ι} : Input.isBoundary i n = true →
    Tiles (Input.splitAt i n).2 pieces rest → Tiles i ((Input.splitAt i n).1 :: pieces) rest

/-- Pieces that are not empty, of members and of others in turn; the first one is of members if
`kind` is true. -/
def Alternates (member : σ → Bool) : Bool → List ι → Prop
  | _, [] => True
  | kind, piece :: pieces =>
    Input.symbols piece ≠ [] ∧ (∀ s ∈ Input.symbols piece, member s = kind) ∧
      Alternates member (!kind) pieces

variable [LawfulInput ι σ]

/-- From an offset on every piece begins where the one before it ends, and so does the rest.  Kinds
of input that do not keep their buffer know of no offset. -/
def Abut : Option Nat → List ι → ι → Prop
  | start?, [], rest => origin? rest = start?
  | start?, piece :: pieces, rest =>
    origin? piece = start? ∧ Abut (start?.map (· + Input.length piece)) pieces rest

/-- The pieces in order and the rest are all of the input, one beginning where the other ends. -/
structure Tiling (i : ι) (pieces : List ι) (rest : ι) : Prop where
  symbols_eq : Input.symbols i = pieces.flatMap Input.symbols ++ Input.symbols rest
  abut : Abut (origin? i) pieces rest

namespace Tiles

variable {i mid rest : ι} {pieces more : List ι}

omit [LawfulInput ι σ] in
theorem append (h : Tiles i pieces mid) (h' : Tiles mid more rest) :
    Tiles i (pieces ++ more) rest := by
  induction h with
  | nil => exact h'
  | cons hn _ ih => exact .cons hn (ih h')

/-- What lies behind pieces is a remainder. -/
theorem isRemainder (hi : Valid i) (h : Tiles i pieces rest) : IsRemainder i rest := by
  induction h with
  | nil => exact .refl hi
  | cons hn _ ih => exact .trans ⟨hi, _, hn, rfl⟩ (ih (valid_splitAt hi hn).2)

/-- Pieces that are split off one after the other tile the input. -/
theorem tiling (hi : Valid i) (h : Tiles i pieces rest) : Tiling i pieces rest := by
  induction h with
  | nil => exact ⟨rfl, rfl⟩
  | @cons i rest n pieces hn _ ih =>
    obtain ⟨hsymbols, habut⟩ := ih (valid_splitAt hi hn).2
    refine ⟨?_, (origin_splitAt hi hn).1, ?_⟩
    · rw [symbols_eq_append hi hn, hsymbols, List.flatMap_cons, List.append_assoc]
    · rwa [(length_splitAt hi hn).1, ← (origin_splitAt hi hn).2]

end Tiles

end

/-! ## Recognized pieces -/

section

variable {ι σ ε : Type} [Input ι σ] [LawfulInput ι σ] [Symbol σ] [ParseError ε ι]

/-- The parsers behind names leave remainders. -/
def Expr.Env.Confined (env : Expr.Env ι σ ε) : Prop :=
  ∀ name, (Correspondence.confined ι σ ε fun _ => True).ValueParsers (env name) (env name)

theorem Grammar.confined_unfold (g : Grammar) (depth : Nat) :
    Expr.Env.Confined (g.unfold (fun _ _ => .stuck .tooDeep) depth : Expr.Env ι σ ε) :=
  Correspondence.confined_unfold (fun _ => trivial) trivial (.inr trivial) depth

namespace Expr

variable {env : Env ι σ ε} {e : Expr} {i rest : ι} {v : Value ι σ}

theorem isRemainder_of_success (henv : env.Confined) (hi : Valid i)
    (h : (e.eval env i).reply = .success v rest) : IsRemainder i rest :=
  Correspondence.isRemainder_of_success
    (Correspondence.confined_eval (.inr trivial) (every_of_forall (fun _ name _ => henv name) e))
    hi h

/-- To recognize is to split the input. -/
theorem exists_splitAt_of_recognize (henv : env.Confined) (hi : Valid i)
    (h : ((recognize e).eval env i).reply = .success v rest) :
    ∃ n, Input.isBoundary i n = true ∧ v = .piece (Input.splitAt i n).1 ∧
      rest = (Input.splitAt i n).2 := by
  obtain ⟨n, hconsumed, hn, hrest⟩ := (isRemainder_of_success henv hi h).consumed?_eq
  obtain ⟨piece, hpiece, rfl⟩ := Reply.map_eq_success h
  obtain ⟨k, hk, rfl⟩ := Parser.recognize_success hpiece
  obtain rfl : k = n := Option.some.inj (hk.symm.trans hconsumed)
  exact ⟨k, hn, rfl, hrest⟩

/-- What has been taken by pieces that tile the input is recognized as their concatenation. -/
theorem exists_recognized (hi : Valid i) {pieces : List ι} (htiles : Tiles i pieces rest)
    (h : (e.eval env i).reply = .success v rest) :
    ∃ whole, ((recognize e).eval env i).reply = .success (.piece whole) rest ∧
      Tiling i [whole] rest ∧ Input.symbols whole = pieces.flatMap Input.symbols := by
  obtain ⟨-, n, hn, rfl⟩ := htiles.isRemainder hi
  refine ⟨(Input.splitAt i n).1, ?_, (Tiles.cons hn .nil).tiling hi, ?_⟩
  · exact congrArg (Reply.map Value.piece) (Parser.recognize_of_success hi hn h)
  · have happ := (htiles.tiling hi).symbols_eq
    rw [symbols_eq_append hi hn] at happ
    exact List.append_cancel_right happ

/-! ## Pieces in a row -/

/-- Pieces recognized by one parser after the other tile the input. -/
theorem exists_tiles_of_path (henv : env.Confined) (hi : Valid i)
    {steps : List (Success (Value ι σ) ι)}
    (h : Path (Parser.Succeeds ((recognize e).eval env)) i steps) :
    ∃ pieces, steps.map Success.value = pieces.map Value.piece ∧
      Tiles i pieces (Parser.reached i steps) := by
  induction h with
  | nil => exact ⟨[], rfl, .nil⟩
  | cons hfirst _ ih =>
    obtain ⟨n, hn, rfl, rfl⟩ := exists_splitAt_of_recognize henv hi hfirst
    obtain ⟨pieces, hvalues, htiles⟩ := ih (valid_splitAt hi hn).2
    exact ⟨_ :: pieces, congrArg (_ :: ·) hvalues, .cons hn htiles⟩

/-- So do the pieces that a repetition gathers. -/
theorem exists_tiles_of_gathers (henv : env.Confined) (hi : Valid i)
    {repetition : Parser ι ε (Value ι σ) → Parser ι ε (List (Value ι σ))}
    (hgathers : Parser.Gathers repetition)
    (h : (Parser.map .list (repetition ((recognize e).eval env)) i).reply = .success v rest) :
    ∃ pieces : List ι, v = .list (pieces.map .piece) ∧ Tiles i pieces rest := by
  obtain ⟨values, hfound, rfl⟩ := Reply.map_eq_success h
  obtain ⟨steps, hpath, rfl, rfl⟩ := hgathers _ i values rest hfound
  obtain ⟨pieces, hvalues, htiles⟩ := exists_tiles_of_path henv hi hpath
  exact ⟨pieces, by rw [hvalues], htiles⟩

/-- And those up to a terminator, with the piece of the terminator behind them. -/
theorem exists_tiles_of_manyTill (henv : env.Confined) (hi : Valid i) {t : Expr}
    (h : ((manyTill (recognize e) (recognize t)).eval env i).reply = .success v rest) :
    ∃ (pieces : List ι) (last : ι), v = .tuple [.list (pieces.map .piece), .piece last] ∧
      Tiles i (pieces ++ [last]) rest := by
  obtain ⟨⟨values, last⟩, hfound, rfl⟩ := Reply.map_eq_success h
  obtain ⟨steps, hpath, rfl, hlast⟩ := Parser.exists_path_of_manyTill hfound
  obtain ⟨pieces, hvalues, htiles⟩ := exists_tiles_of_path henv hi hpath
  obtain ⟨n, hn, rfl, rfl⟩ :=
    exists_splitAt_of_recognize henv (htiles.isRemainder hi).valid hlast
  refine ⟨pieces, _, ?_, htiles.append (.cons hn .nil)⟩
  rw [hvalues]
  rfl

theorem exists_tiles_of_passes (henv : env.Confined) (hi : Valid i) {es : List Expr}
    {log : List Signal} {values : List (Σ _ : Expr, Value ι σ)}
    (h : Parser.Passes (fun e => e.eval env) (es.map recognize) i log values rest) :
    ∃ pieces : List ι, values.map Sigma.snd = pieces.map Value.piece ∧
      pieces.length = es.length ∧ Tiles i pieces rest := by
  induction es generalizing i log values with
  | nil =>
    cases h
    exact ⟨[], rfl, rfl, .nil⟩
  | cons e es ih =>
    cases h with
    | cons hfirst hmore =>
      obtain ⟨n, hn, rfl, rfl⟩ := exists_splitAt_of_recognize henv hi (by rw [hfirst])
      obtain ⟨pieces, hvalues, hlength, htiles⟩ := ih (valid_splitAt hi hn).2 hmore
      exact ⟨_ :: pieces, congrArg (_ :: ·) hvalues, congrArg (· + 1) hlength, .cons hn htiles⟩

/-- The pieces of a tuple of parsers tile the input. -/
theorem exists_tiles_of_tuple (henv : env.Confined) (hi : Valid i) {es : List Expr}
    (h : ((tuple (es.map recognize)).eval env i).reply = .success v rest) :
    ∃ pieces : List ι, v = .tuple (pieces.map .piece) ∧ pieces.length = es.length ∧
      Tiles i pieces rest := by
  rw [eval_tuple] at h
  obtain ⟨values, hfound, rfl⟩ := Reply.map_eq_success h
  obtain ⟨pieces, hvalues, hlength, htiles⟩ :=
    exists_tiles_of_passes henv hi (Parser.inTurn_eq_success_iff.1 (congrArg (Run.mk _) hfound))
  exact ⟨pieces, by rw [Value.ofRow, hvalues], hlength, htiles⟩

end Expr

/-! ## Members and others in turn -/

open Judgement

namespace Parser

omit [Symbol σ] in
/-- A run that begins with an accepted symbol is taken. -/
theorem takeRun_of_cons {i : ι} (hi : Valid i) (accepts : σ → Bool) {s : σ} {l : List σ}
    (hsymbols : Input.symbols i = s :: l) (hs : accepts s = true) (kind : ErrorKind) :
    ∃ m, 0 < m ∧ LongestRun accepts (Input.symbols i) m ∧
      (takeRun .complete accepts (some kind) i : Run ι ε ι).reply =
        .success (parts m i).1 (parts m i).2 := by
  have hpos : 0 < runLength accepts (Input.symbols i) := by
    rw [hsymbols, runLength_cons hs]
    exact Nat.succ_pos _
  refine ⟨_, hpos, longestRun_runLength accepts _, ?_⟩
  rw [takeRun_eq_parts hi hpos]
  rfl

omit [Symbol σ] in
/-- A run that does not is missed. -/
theorem misses_takeRun {i : ι} (hi : Valid i) (accepts : σ → Bool)
    (h : ∀ s, (Input.symbols i).head? = some s → accepts s = false) (kind : ErrorKind) :
    (takeRun .complete accepts (some kind) : Parser ι ε ι).Misses i := by
  have hzero : runLength accepts (Input.symbols i) = 0 := by
    cases hsymbols : Input.symbols i with
    | nil => rfl
    | cons s l => exact runLength_cons_refused (h s (by rw [hsymbols]; rfl)) l
  exact ⟨_, by rw [takeRun_of_zero hi hzero]; rfl⟩

end Parser

namespace Expr

/-- A run of members of a set, or else a run of other symbols. -/
def runOf (set : SymbolSet) : Expr :=
  .either (.scan .complete (.isA set)) (.scan .complete (.isNot set))

variable {i : ι}

omit [LawfulInput ι σ] in
theorem eval_runOf (env : Env ι σ ε) (set : SymbolSet) :
    (runOf set).eval env = Parser.either
      (Parser.map .piece (Parser.takeRun .complete set.contains (some .isA)))
      (Parser.map .piece (Parser.takeRun .complete (fun t => !set.contains t) (some .isNot))) := by
  funext i
  rfl

/-- Where there is a symbol, the run of those that are members as it is, or are not, is taken. -/
theorem runOf_of_cons (env : Env ι σ ε) (set : SymbolSet) (hi : Valid i) {s : σ} {l : List σ}
    (hsymbols : Input.symbols i = s :: l) :
    ∃ m, 0 < m ∧ LongestRun (fun t => set.contains t == set.contains s) (Input.symbols i) m ∧
      ((runOf set).eval env i).reply = .success (.piece (parts m i).1) (parts m i).2 := by
  cases hs : set.contains s with
  | true =>
    obtain ⟨m, hpos, hrun, hreply⟩ :=
      Parser.takeRun_of_cons (ε := ε) hi set.contains hsymbols hs .isA
    refine ⟨m, hpos, by simpa only [beq_true] using hrun, ?_⟩
    rw [eval_runOf]
    exact Run.reply_handle_of_success (congrArg (Reply.map Value.piece) hreply)
  | false =>
    have hrefused : ∀ t, (Input.symbols i).head? = some t → set.contains t = false := by
      intro t ht
      rw [hsymbols] at ht
      cases ht
      exact hs
    obtain ⟨m, hpos, hrun, hreply⟩ :=
      Parser.takeRun_of_cons (ε := ε) hi (fun t => !set.contains t) hsymbols
        (by rw [hs]; rfl) .isNot
    refine ⟨m, hpos, by simpa only [beq_false] using hrun, ?_⟩
    rw [eval_runOf, Parser.either_of_misses
      ((Parser.misses_takeRun hi set.contains hrefused .isA).map Value.piece)]
    exact congrArg (Reply.map Value.piece) hreply

/-- At the end of the input both runs are missed. -/
theorem runOf_of_nil (env : Env ι σ ε) (set : SymbolSet) (hi : Valid i)
    (hsymbols : Input.symbols i = []) :
    Parser.Misses ((runOf set).eval env) i := by
  have hmiss : ∀ accepts kind,
      Parser.Misses (Parser.takeRun .complete accepts (some kind) : Parser ι ε ι) i := by
    refine fun accepts kind => Parser.misses_takeRun hi accepts (fun s hs => ?_) kind
    rw [hsymbols] at hs
    cases hs
  obtain ⟨e, he⟩ := (hmiss (fun t => !set.contains t) .isNot).map (Value.piece (σ := σ))
  refine ⟨e, ?_⟩
  rw [eval_runOf, Parser.either_of_misses ((hmiss set.contains .isA).map Value.piece)]
  exact he

/-- The rest of a repetition of runs takes all of the input. -/
theorem exists_alternates (env : Env ι σ ε) (set : SymbolSet) (hi : Valid i) (guard : ErrorKind)
    (collected : List (Value ι σ)) :
    ∃ (pieces : List ι) (rest : ι),
      (Collector.list.drive ((runOf set).eval env) guard collected ⟨i, none⟩).reply =
        .success (collected.reverse ++ pieces.map .piece) rest ∧
      Tiles i pieces rest ∧ Input.symbols rest = [] ∧
      ∀ kind, (∀ s, (Input.symbols i).head? = some s → set.contains s = kind) →
        Alternates set.contains kind pieces := by
  induction hn : Input.length i using Nat.strongRecOn generalizing i collected with
  | ind n ih =>
    cases hsymbols : Input.symbols i with
    | nil =>
      obtain ⟨e, hmiss⟩ := runOf_of_nil env set hi hsymbols
      refine ⟨[], i, ?_, .nil, hsymbols, fun _ _ => trivial⟩
      rw [Collector.reply_drive_of_miss rfl guard hmiss, List.map_nil, List.append_nil]
      rfl
    | cons s l =>
      obtain ⟨m, hpos, hrun, htakes⟩ := runOf_of_cons env set hi hsymbols
      have hlt := length_parts_lt hi hpos hrun.le_length
      obtain ⟨pieces, rest, hreply, htiles, hend, halternates⟩ :=
        ih _ (hn ▸ hlt) (valid_parts hi m).2 (.piece (parts m i).1 :: collected) rfl
      refine ⟨(parts m i).1 :: pieces, rest, ?_, .cons (isBoundary_take hi m) htiles, hend, ?_⟩
      · rw [Collector.reply_drive_of_success rfl guard htakes hlt]
        refine hreply.trans ?_
        rw [List.reverse_cons, List.append_assoc]
        rfl
      · intro kind hkind
        obtain rfl : set.contains s = kind := hkind s rfl
        have hparts := symbols_parts hi m
        refine ⟨?_, ?_, halternates _ fun t ht => ?_⟩
        · rw [hparts.1, hsymbols, ← List.length_pos_iff, List.length_take, List.length_cons]
          exact Nat.lt_min.2 ⟨hpos, Nat.succ_pos _⟩
        · rw [hparts.1]
          exact fun t ht => beq_iff_eq.1 (hrun.accepted t ht)
        · rw [hparts.2] at ht
          have hne := beq_eq_false_iff_ne.1 (hrun.refused ht)
          exact Bool.eq_not_of_ne hne

end Expr

/-! ## Parses of a grammar -/

namespace Grammar

/-- The pieces taken by a parse of `e` tile the input, and to recognize `e` is to recognize one
piece with all their symbols in order. -/
structure Tiled (ε : Type) [ParseError ε ι] (g : Grammar) (e : Expr) (i : ι) (pieces : List ι)
    (rest : ι) : Prop where
  tiling : Tiling i pieces rest
  recognized : ∃ whole : ι,
    (g.parse (.recognize e) i : Run ι ε _).reply = .success (.piece whole) rest ∧
      Tiling i [whole] rest ∧ Input.symbols whole = pieces.flatMap Input.symbols

theorem Tiled.of_tiles {g : Grammar} {e : Expr} {i rest : ι} (hi : Valid i) {pieces : List ι}
    (htiles : Tiles i pieces rest) {v : Value ι σ}
    (h : (g.parse e i : Run ι ε _).reply = .success v rest) : Tiled ε g e i pieces rest :=
  ⟨htiles.tiling hi, Expr.exists_recognized hi htiles h⟩

/-- The pieces that a repetition gathers tile the input. -/
theorem tiled_of_gathers {g : Grammar} {i rest : ι} (hi : Valid i) {e c : Expr}
    {repetition : Parser ι ε (Value ι σ) → Parser ι ε (List (Value ι σ))}
    (hgathers : Parser.Gathers repetition)
    (hc : ∀ env, c.eval env i =
      Parser.map .list (repetition ((Expr.recognize e).eval env)) i)
    {v : Value ι σ} (h : (g.parse c i : Run ι ε _).reply = .success v rest) :
    ∃ pieces : List ι, v = .list (pieces.map .piece) ∧ g.Tiled ε c i pieces rest := by
  have hreply := h
  rw [parse, hc] at hreply
  obtain ⟨pieces, hv, htiles⟩ :=
    Expr.exists_tiles_of_gathers (g.confined_unfold _) hi hgathers hreply
  exact ⟨pieces, hv, .of_tiles hi htiles h⟩

/-- **Recognized pieces tile the input.**  If a repetition of a recognized part succeeds, unbounded,
counted or bounded, its pieces are split off one after the other: in order and with the rest behind
them they have all symbols of the input, the first begins where the input begins, and each of the
others and the rest where the piece before it ends.  So it is with a tuple of recognized parts, and
with a repetition up to a terminator if the piece of the terminator comes last.  What is recognized
as a whole is all pieces in one.

A repetition of runs in complete mode, of members of a set or else of other symbols, succeeds on
every valid input and leaves nothing: its pieces tile the input, none is empty, and they are of
members and of others in turn. -/
theorem pieces_tile (g : Grammar) {i : ι} (hi : Valid i) :
    (∀ e n min max,
      ∀ c ∈ [Expr.many0 (.recognize e), .many1 (.recognize e), .count n (.recognize e),
        .manyMN min max (.recognize e)],
      ∀ v rest, (g.parse c i : Run ι ε _).reply = .success v rest →
        ∃ pieces : List ι, v = .list (pieces.map .piece) ∧ g.Tiled ε c i pieces rest) ∧
    (∀ (es : List Expr) v rest,
      (g.parse (.tuple (es.map .recognize)) i : Run ι ε _).reply = .success v rest →
        ∃ pieces : List ι, v = .tuple (pieces.map .piece) ∧ pieces.length = es.length ∧
          g.Tiled ε (.tuple (es.map .recognize)) i pieces rest) ∧
    (∀ e t v rest,
      (g.parse (.manyTill (.recognize e) (.recognize t)) i : Run ι ε _).reply = .success v rest →
        ∃ (pieces : List ι) (last : ι), v = .tuple [.list (pieces.map .piece), .piece last] ∧
          g.Tiled ε (.manyTill (.recognize e) (.recognize t)) i (pieces ++ [last]) rest) ∧
    ∀ set : SymbolSet, ∃ (pieces : List ι) (rest : ι),
      (g.parse (.many0 (.runOf set)) i : Run ι ε _).reply =
          .success (.list (pieces.map .piece)) rest ∧
        g.Tiled ε (.many0 (.runOf set)) i pieces rest ∧ Input.symbols rest = [] ∧
        ∃ kind, Alternates set.contains kind pieces := by
  have henv := g.confined_unfold (ι := ι) (ε := ε) (g.depthBound (Input.length i))
  refine ⟨fun e n min max => ?_, fun es v rest h => ?_, fun e t v rest h => ?_, fun set => ?_⟩
  · simp only [List.forall_mem_cons, List.not_mem_nil, false_implies, implies_true, and_true]
    refine ⟨?_, ?_, ?_, ?_⟩
    · exact fun v rest => tiled_of_gathers hi Parser.gathers_many0 fun _ => rfl
    · exact fun v rest => tiled_of_gathers hi Parser.gathers_many1 fun _ => rfl
    · exact fun v rest => tiled_of_gathers hi ((Parser.gathers_count n).reserving n) fun _ => rfl
    · exact fun v rest => tiled_of_gathers hi (Parser.gathers_manyMN min max) fun _ => rfl
  · obtain ⟨pieces, hv, hlength, htiles⟩ := Expr.exists_tiles_of_tuple henv hi h
    exact ⟨pieces, hv, hlength, .of_tiles hi htiles h⟩
  · obtain ⟨pieces, last, hv, htiles⟩ := Expr.exists_tiles_of_manyTill henv hi h
    exact ⟨pieces, last, hv, .of_tiles hi htiles h⟩
  · obtain ⟨pieces, rest, hreply, htiles, hend, halternates⟩ :=
      Expr.exists_alternates (g.unfold (fun _ _ => .stuck .tooDeep)
        (g.depthBound (Input.length i)) : Expr.Env ι σ ε) set hi .many0 []
    have hparse : (g.parse (.many0 (.runOf set)) i : Run ι ε _).reply =
        .success (.list (pieces.map .piece)) rest := congrArg (Reply.map Value.list) hreply
    refine ⟨pieces, rest, hparse, .of_tiles hi htiles hparse, hend,
      (Input.symbols i).head?.elim true set.contains, halternates _ fun s hs => ?_⟩
    rw [hs]
    rfl

/-- Two letters of two bytes each, in a window that begins behind another letter, tiled by a counted
repetition, by a tuple, and by a repetition up to the second of them. -/
theorem pieces_tile_accents :
    let w : Window Text := ⟨⟨['n', 'é', 'à']⟩, 1, 5⟩
    let part (start stop : Nat) : Window Text := ⟨w.buffer, start, stop⟩
    let g : Grammar := ⟨[]⟩
    let letter : Expr := .scan .complete .anyChar
    let grave : Expr := .scan .complete (.char 'à')
    let tiled (e : Expr) : Prop :=
      g.Tiled (Cause (Window Text)) e w [part 1 3, part 3 5] (part 5 5)
    Valid w ∧ tiled (.count 2 (.recognize letter)) ∧
      tiled (.tuple ([letter, grave].map .recognize)) ∧
      tiled (.manyTill (.recognize letter) (.recognize grave)) := by
  intro w part g letter grave tiled
  have hvalid : Valid w := (valid_splitAt (Window.valid_whole trivial) (n := 1) (by decide)).2
  have hinjective : Function.Injective (Value.piece : Window Text → Value (Window Text) Char) :=
    fun _ _ h => by cases h; rfl
  obtain ⟨hrepetition, htuple, htill, -⟩ := pieces_tile (ε := Cause (Window Text)) g hvalid
  refine ⟨hvalid, ?_, ?_, ?_⟩
  · obtain ⟨pieces, hv, htiled⟩ := hrepetition letter 2 0 0 (.count 2 (.recognize letter))
      (by simp) (.list [.piece (part 1 3), .piece (part 3 5)]) (part 5 5) rfl
    obtain rfl : [part 1 3, part 3 5] = pieces := hinjective.list_map (Value.list.inj hv)
    exact htiled
  · have hreply : (g.parse (.tuple ([letter, grave].map .recognize)) w :
        Run _ (Cause (Window Text)) _).reply =
          .success (.tuple [.piece (part 1 3), .piece (part 3 5)]) (part 5 5) := by
      rw [parse, Expr.eval_tuple]
      rfl
    obtain ⟨pieces, hv, -, htiled⟩ := htuple [letter, grave] _ _ hreply
    obtain rfl : [part 1 3, part 3 5] = pieces := hinjective.list_map (Value.tuple.inj hv)
    exact htiled
  · have hreply : ∀ env : Expr.Env (Window Text) Char (Cause (Window Text)),
        ((Expr.manyTill (.recognize letter) (.recognize grave)).eval env w).reply =
          .success (.tuple [.list [.piece (part 1 3)], .piece (part 3 5)]) (part 5 5) := by
      intro env
      have hmiss : ((Expr.recognize grave).eval env w).reply =
        .failure (.recoverable (.root w .char)) := rfl
      have hstep : ((Expr.recognize letter).eval env w).reply =
        .success (.piece (part 1 3)) (part 3 5) := rfl
      rw [Expr.eval, Parser.map, Run.map, Parser.manyTill, Run.reply_handle_of_miss hmiss,
        Run.reply_handle_of_success hstep, dif_pos (by decide), Parser.manyTill]
      rfl
    obtain ⟨pieces, last, hv, htiled⟩ := htill letter grave _ _ (hreply _)
    obtain ⟨hpieces, hlast⟩ : Value.list [.piece (part 1 3)] = .list (pieces.map .piece) ∧
        Value.piece (part 3 5) = .piece last := by
      simpa using Value.tuple.inj hv
    obtain rfl : [part 1 3] = pieces := hinjective.list_map (Value.list.inj hpieces)
    obtain rfl : part 3 5 = last := hinjective hlast
    exact htiled

end Grammar

end

end ParseKit
