/-
  The parts of an expression, and expressions in another mode.

  A class of expressions is given by a test that every part of one passes.
-/
import ParseKit.Expr
import ParseKit.Parser.Repeat

set_option autoImplicit false

namespace ParseKit.Expr

/-- The expressions an expression is directly built from. -/
def children : Expr → List Expr
  | .scan _ _ | .succeed _ | .fail _ | .failFatally _ | .askForMore | .eof | .rest
  | .restLength | .ref _ => []
  | .map _ e | .mapRes _ e | .mapError _ e | .context _ e | .commit e | .replace _ e | .opt e
  | .verify _ e | .recognize e | .peek e | .not e | .cond _ e | .allConsuming e | .complete e
  | .traced _ e | .flatten _ e | .choice e | .many0 e | .many1 e | .collectMany0 _ e
  | .collectMany1 _ e | .foldMany0 _ e | .count _ e | .manyMN _ _ e => [e]
  | .pair e f | .preceded e f | .terminated e f | .either e f | .manyTill e f
  | .separatedList e f | .separatedNonemptyList e f => [e, f]
  | .separatedPair e f g | .delimited e f g => [e, f, g]

/-- An expression all of whose parts pass a test, itself included. -/
inductive Every (test : Expr → Prop) : Expr → Prop
  | intro {e : Expr} : test e → (∀ part ∈ e.children, Every test part) → Every test e

theorem every_iff {test : Expr → Prop} {e : Expr} :
    e.Every test ↔ test e ∧ ∀ part ∈ e.children, part.Every test :=
  ⟨fun ⟨h, hparts⟩ => ⟨h, hparts⟩, fun ⟨h, hparts⟩ => ⟨h, hparts⟩⟩

theorem Every.here {test : Expr → Prop} {e : Expr} (h : e.Every test) : test e :=
  (every_iff.1 h).1

theorem Every.part {test : Expr → Prop} {e part : Expr} (h : e.Every test)
    (hpart : part ∈ e.children) : part.Every test :=
  (every_iff.1 h).2 part hpart

theorem every_leaf {test : Expr → Prop} {e : Expr} (hleaf : e.children = []) (h : test e) :
    e.Every test := by
  refine ⟨h, ?_⟩
  rw [hleaf]
  exact List.forall_mem_nil _

theorem Every.imp {test test' : Expr → Prop} {e : Expr} (h : e.Every test)
    (himp : ∀ {e}, test e → test' e) : e.Every test' := by
  induction h with
  | intro h _ ih => exact ⟨himp h, ih⟩

/-- The parts of a part are parts. -/
theorem Every.all {test : Expr → Prop} {e : Expr} (h : e.Every test) :
    e.Every fun part => part.Every test := by
  induction h with
  | intro h hparts ih => exact ⟨⟨h, hparts⟩, ih⟩

theorem every_of_forall {test : Expr → Prop} (h : ∀ e, test e) (e : Expr) : e.Every test := by
  induction e <;> exact ⟨h _, by simp_all [children]⟩

theorem Every.and {test test' : Expr → Prop} {e : Expr} (h : e.Every test) (h' : e.Every test') :
    e.Every fun part => test part ∧ test' part := by
  induction h with
  | intro h _ ih => exact ⟨⟨h, h'.here⟩, fun part hpart => ih part hpart (h'.part hpart)⟩

/-- Whether an expression is a reference to a rule. -/
def isRef : Expr → Bool
  | .ref _ => true
  | _ => false

/-- Whether an expression takes the end of the input as final for another one. -/
def isComplete : Expr → Bool
  | .complete _ => true
  | _ => false

/-- Whether an expression changes the errors of another one. -/
def isMapError : Expr → Bool
  | .mapError _ _ => true
  | _ => false

/-- Whether room can be reserved for as many values as an expression counts, its parts aside. -/
def HasRoom : Expr → Prop
  | .count n _ => n ≤ Parser.maxReserved
  | _ => True

/-- Whether room can be reserved for all the values that are counted in an expression. -/
abbrev Reservable (e : Expr) : Prop := e.Every HasRoom

/-- Whether an expression, its parts aside, looks at its input through nothing but scanners of
some sort.  References are left out, as what is behind them is not a part of the expression. -/
def LooksBy (sort : Mode → Scan → Prop) : Expr → Prop
  | .scan mode s => sort mode s
  | .askForMore => False
  | .eof => False
  | .rest => False
  | .restLength => False
  | .mapError _ _ => False
  | .allConsuming _ => False
  | .complete _ => False
  | .ref _ => False
  | _ => True

/-- The same expression with every scanner in another mode. -/
def mapMode (f : Mode → Mode) : Expr → Expr
  | .scan mode s => .scan (f mode) s
  | .succeed literal => .succeed literal
  | .fail kind => .fail kind
  | .failFatally kind => .failFatally kind
  | .askForMore => .askForMore
  | .eof => .eof
  | .rest => .rest
  | .restLength => .restLength
  | .map g e => .map g (e.mapMode f)
  | .mapRes g e => .mapRes g (e.mapMode f)
  | .mapError g e => .mapError g (e.mapMode f)
  | .context kind e => .context kind (e.mapMode f)
  | .commit e => .commit (e.mapMode f)
  | .replace literal e => .replace literal (e.mapMode f)
  | .opt e => .opt (e.mapMode f)
  | .verify check e => .verify check (e.mapMode f)
  | .recognize e => .recognize (e.mapMode f)
  | .peek e => .peek (e.mapMode f)
  | .not e => .not (e.mapMode f)
  | .cond condition e => .cond condition (e.mapMode f)
  | .allConsuming e => .allConsuming (e.mapMode f)
  | .complete e => .complete (e.mapMode f)
  | .traced rule e => .traced rule (e.mapMode f)
  | .pair e g => .pair (e.mapMode f) (g.mapMode f)
  | .separatedPair e sep g => .separatedPair (e.mapMode f) (sep.mapMode f) (g.mapMode f)
  | .delimited left e right => .delimited (left.mapMode f) (e.mapMode f) (right.mapMode f)
  | .preceded left e => .preceded (left.mapMode f) (e.mapMode f)
  | .terminated e right => .terminated (e.mapMode f) (right.mapMode f)
  | .flatten shape e => .flatten shape (e.mapMode f)
  | .either e g => .either (e.mapMode f) (g.mapMode f)
  | .choice e => .choice (e.mapMode f)
  | .many0 e => .many0 (e.mapMode f)
  | .many1 e => .many1 (e.mapMode f)
  | .collectMany0 container e => .collectMany0 container (e.mapMode f)
  | .collectMany1 container e => .collectMany1 container (e.mapMode f)
  | .foldMany0 folding e => .foldMany0 folding (e.mapMode f)
  | .count n e => .count n (e.mapMode f)
  | .manyMN min max e => .manyMN min max (e.mapMode f)
  | .manyTill e terminator => .manyTill (e.mapMode f) (terminator.mapMode f)
  | .separatedList sep item => .separatedList (sep.mapMode f) (item.mapMode f)
  | .separatedNonemptyList sep item => .separatedNonemptyList (sep.mapMode f) (item.mapMode f)
  | .ref name => .ref name

@[simp]
theorem mapMode_id (e : Expr) : e.mapMode id = e := by
  induction e <;> simp_all [mapMode]

theorem children_mapMode (f : Mode → Mode) (e : Expr) :
    (e.mapMode f).children = e.children.map (mapMode f) := by
  cases e <;> rfl

/-- What a test says of the parts of an expression holds in other modes if it does of each. -/
theorem Every.mapMode {test test' : Expr → Prop} {f : Mode → Mode} {e : Expr} (h : e.Every test)
    (himp : ∀ {part}, test part → test' (part.mapMode f)) : (e.mapMode f).Every test' := by
  induction h with
  | intro h _ ih =>
    refine ⟨himp h, ?_⟩
    rw [children_mapMode]
    exact List.forall_mem_map.2 ih

/-- The same expression with every scanner in complete mode. -/
abbrev completed (e : Expr) : Expr := e.mapMode fun _ => .complete

/-- The same expression with every scanner in streaming mode. -/
abbrev streamed (e : Expr) : Expr := e.mapMode fun _ => .streaming

end ParseKit.Expr
