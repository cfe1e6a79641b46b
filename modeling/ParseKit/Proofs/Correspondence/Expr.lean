/-
  Expressions keep correspondence.

  If the leaves of an expression correspond, so do its parsers.  A few
  expressions look at more than what corresponds, such as the length of what
  is left; `Admits` says what each of them asks for.
-/
import ParseKit.Grammar
import ParseKit.Proofs.Correspondence.Combinators
import ParseKit.Proofs.Correspondence.Repeat
import ParseKit.Proofs.Expr.Parts

set_option autoImplicit false

namespace ParseKit.Correspondence

variable {ι σ ε ι' σ' ε' : Type} [Input ι σ] [Symbol σ] [ParseError ε ι]
  [Input ι' σ'] [Symbol σ'] [ParseError ε' ι'] {C : Correspondence ι σ ε ι' σ' ε'}

/-! ## Collectors of values -/

theorem related_collector (container : Container) :
    Collector.Related (List.Forall₂ (Value.Related C.piece C.symbol))
      (Value.Related C.piece C.symbol) (Value.Related C.piece C.symbol)
      (container.collector : Collector (Value ι σ) _ _) container.collector where
  start := .nil
  wants h := container.wants_eq C.faithful h
  push h hv := .cons hv h
  finish h := container.finish_related C.faithful (List.rel_reverse h) 0

theorem related_folding (folding : Folding) :
    Collector.Related (Value.Related C.piece C.symbol) (Value.Related C.piece C.symbol)
      (Value.Related C.piece C.symbol)
      (.folding folding.start folding.step : Collector (Value ι σ) _ _)
      (.folding folding.start folding.step) where
  start := folding.start_related
  wants _ := rfl
  push h hv := folding.step_related C.faithful h hv
  finish h := h

theorem related_list {α α' : Type} (V : α → α' → Prop) :
    Collector.Related (List.Forall₂ V) V (List.Forall₂ V) .list .list where
  start := .nil
  wants _ := rfl
  push h hv := .cons hv h
  finish h := List.rel_reverse h

/-! ## Leaves -/

/-- What a correspondence asks of a part of an expression, its own parts aside, if the modes of
scanners are changed by `f` in the first parse and by `f'` in the second. -/
def Admits (C : Correspondence ι σ ε ι' σ' ε') (env : Expr.Env ι σ ε) (env' : Expr.Env ι' σ' ε')
    (f f' : Mode → Mode) : Expr → Prop
  | .scan mode s => C.ValueParsers (s.parser (f mode)) (s.parser (f' mode))
  | .askForMore => C.lax ∨ C.waits
  | .eof => ∀ {i i'}, C.input i i' → Input.isEmpty i = Input.isEmpty i'
  | .rest => C.Parsers C.piece Parser.rest Parser.rest
  | .restLength => ∀ {i i'}, C.input i i' → Input.length i = Input.length i'
  | .mapError g _ => ∀ {i e e'}, C.error i e e' → C.error i (g.apply e) (g.apply e')
  | .allConsuming _ => ∀ {i i'}, C.input i i' → Input.isEmpty i = Input.isEmpty i'
  | .complete _ => ¬ C.lax
  | .count n _ => Parser.maxReserved < n → C.tolerates .unreserved
  | .ref name => C.ValueParsers (env name) (env' name)
  | _ => True

/-! ## Expressions -/

/-- An expression that is admitted has corresponding parsers if its parts have. -/
theorem eval_of_parts {env : Expr.Env ι σ ε} {env' : Expr.Env ι' σ' ε'} {f f' : Mode → Mode}
    {e : Expr} (hadmits : C.Admits env env' f f' e)
    (hparts : ∀ part ∈ e.children,
      C.ValueParsers ((part.mapMode f).eval env) ((part.mapMode f').eval env')) :
    C.ValueParsers ((e.mapMode f).eval env) ((e.mapMode f').eval env') := by
  cases e with
  | scan mode s => exact hadmits
  | succeed literal => exact .succeed (Value.related_ofLiteral literal)
  | fail kind => exact .fail kind
  | failFatally kind => exact .failFatally kind
  | askForMore => exact .askForMore hadmits
  | eof => exact (Parsers.eof hadmits).map fun _ => .unit
  | rest => exact Parsers.map hadmits .piece
  | restLength => exact (Parsers.restLength hadmits).map fun hlength => hlength ▸ .int _
  | ref name => exact hadmits
  | map g e => exact (hparts _ (.head _)).map (g.apply_related C.faithful)
  | mapRes g e => exact (hparts _ (.head _)).mapRes (g.result?_related C.faithful)
  | mapError g e => exact (hparts _ (.head _)).mapError hadmits
  | context kind e => exact (hparts _ (.head _)).context kind
  | commit e => exact (hparts _ (.head _)).commit
  | replace literal e =>
    exact (hparts _ (.head _)).replace (Value.related_ofLiteral literal)
  | opt e => exact (hparts _ (.head _)).opt.map .ofOption
  | verify check e => exact (hparts _ (.head _)).verify (check.holds_eq C.faithful)
  | recognize e => exact (hparts _ (.head _)).recognize.map .piece
  | peek e => exact (hparts _ (.head _)).peek
  | not e => exact (hparts _ (.head _)).not.map fun _ => .unit
  | cond condition e => exact ((hparts _ (.head _)).cond condition).map .ofOption
  | allConsuming e => exact (hparts _ (.head _)).allConsuming hadmits
  | complete e => exact (hparts _ (.head _)).complete hadmits
  | traced rule e => exact (hparts _ (.head _)).traced rule
  | flatten shape e =>
    exact (hparts _ (.head _)).map fun hv => .tuple (hv.flatten shape)
  | choice e => exact (hparts _ (.head _)).choice
  | many0 e => exact ((hparts _ (.head _)).collectMany0 (related_list _)).map .list
  | many1 e => exact ((hparts _ (.head _)).collectMany1 (related_list _)).map .list
  | collectMany0 container e =>
    exact (hparts _ (.head _)).collectMany0 (related_collector container)
  | collectMany1 container e =>
    exact (hparts _ (.head _)).collectMany1 (related_collector container)
  | foldMany0 folding e => exact (hparts _ (.head _)).collectMany0 (related_folding folding)
  | count n e => exact (((hparts _ (.head _)).count n).reserving hadmits).map .list
  | manyMN min max e => exact ((hparts _ (.head _)).manyMN min max).map .list
  | pair e g =>
    exact ((hparts _ (.head _)).pair (hparts _ (.tail _ (.head _)))).map
      fun hboth => .pair hboth.1 hboth.2
  | preceded left e =>
    exact (hparts _ (.head _)).preceded (hparts _ (.tail _ (.head _)))
  | terminated e right =>
    exact (hparts _ (.head _)).terminated (hparts _ (.tail _ (.head _)))
  | either e g =>
    exact (hparts _ (.head _)).either (hparts _ (.tail _ (.head _)))
  | manyTill e terminator =>
    exact ((hparts _ (.head _)).manyTill (hparts _ (.tail _ (.head _)))).map
      fun hfound => .pair (.list hfound.1) hfound.2
  | separatedList sep item =>
    exact ((hparts _ (.head _)).separatedList (hparts _ (.tail _ (.head _)))).map .list
  | separatedNonemptyList sep item =>
    exact ((hparts _ (.head _)).separatedNonemptyList
      (hparts _ (.tail _ (.head _)))).map .list
  | separatedPair e sep g =>
    exact ((hparts _ (.head _)).separatedPair (hparts _ (.tail _ (.head _)))
      (hparts _ (.tail _ (.tail _ (.head _))))).map fun hboth => .pair hboth.1 hboth.2
  | delimited left e right =>
    exact (hparts _ (.head _)).delimited (hparts _ (.tail _ (.head _)))
      (hparts _ (.tail _ (.tail _ (.head _))))

/-- An expression whose parts are all admitted has corresponding parsers. -/
theorem eval_related {env : Expr.Env ι σ ε} {env' : Expr.Env ι' σ' ε'} {f f' : Mode → Mode}
    {e : Expr} (h : e.Every (C.Admits env env' f f')) :
    C.ValueParsers ((e.mapMode f).eval env) ((e.mapMode f').eval env') := by
  induction h with
  | intro hadmits _ ih => exact eval_of_parts hadmits ih

/-! ## Grammars -/

/-- The rules of a grammar correspond at every depth if each does wherever the rules it refers to
do. -/
theorem unfold_related {g : Grammar} (hdeep : C.tolerates .tooDeep)
    (hundefined : ∀ name, C.tolerates (.undefinedRule name))
    (hrules : ∀ rule ∈ g.rules, ∀ (env : Expr.Env ι σ ε) (env' : Expr.Env ι' σ' ε'),
      (∀ name, C.ValueParsers (env name) (env' name)) →
        C.ValueParsers (rule.2.eval env) (rule.2.eval env'))
    (depth : Nat) (name : String) :
    C.ValueParsers (g.unfold (fun _ _ => .stuck .tooDeep) depth name)
      (g.unfold (fun _ _ => .stuck .tooDeep) depth name) := by
  induction depth generalizing name with
  | zero => exact fun _ _ _ => .stuck hdeep
  | succ depth ih =>
    intro i i' hi
    unfold Grammar.unfold
    cases hbody : g.body? name with
    | none => exact .stuck (hundefined name)
    | some body => exact hrules _ (g.mem_rules_of_body? hbody) _ _ ih hi

end ParseKit.Correspondence
