/-
  Ordered choice whatever the tree.

  A choice among many alternatives is built from choices of two, and its
  tree may have any shape.  A choice of two is associative, log included, so
  only the leaves of the tree matter: they are tried from left to right on
  one input, and the first one that does not fail recoverably decides.
-/
import ParseKit.Expr.Eval
import ParseKit.Input.Text
import ParseKit.Proofs.Parser.Run
import ParseKit.Proofs.Tree

set_option autoImplicit false

namespace ParseKit

/-! ## Choices of two -/

namespace Parser

variable {ι σ ε α : Type} [Input ι σ] {p q r : Parser ι ε α} {i : ι}

/-- A parser fails recoverably on an input. -/
def Misses (p : Parser ι ε α) (i : ι) : Prop := ∃ e, (p i).reply = .failure (.recoverable e)

theorem Misses.map {β : Type} (h : p.Misses i) (f : α → β) : (Parser.map f p).Misses i :=
  h.imp fun e he => by
    rw [Parser.map, Run.map, he]
    rfl

/-- What is logged where a parser has missed and the next one is to be tried. -/
def missLog (i : ι) (p : Parser ι ε α) : List Signal :=
  (p i).log ++ [.event (.alternativeFailed (Input.length i))]

theorem either_of_misses (h : p.Misses i) : either p q i = (q i).after (missLog i p) := by
  obtain ⟨e, he⟩ := h
  unfold either Run.handle Run.noting
  rw [he]
  exact Run.after_after _ _ _

theorem either_of_not_misses (h : ¬ p.Misses i) : either p q i = p i :=
  Run.handle_eq_self fun e he => h ⟨e, he⟩

/-- How choices of two are nested makes no difference. -/
instance : Std.Associative (either : Parser ι ε α → Parser ι ε α → Parser ι ε α) where
  assoc p q r := by
    funext i
    -- If `p` misses, both ways log its miss and go on with `q` and `r`; if not, both end with it.
    by_cases hp : p.Misses i
    · rw [either_of_misses hp]
      unfold either
      rw [← Run.handle_after]
      congr 1
      exact either_of_misses hp
    · have hpq : ¬ (either p q).Misses i := by
        intro ⟨e, he⟩
        rw [either_of_not_misses hp] at he
        exact hp ⟨e, he⟩
      rw [either_of_not_misses hpq, either_of_not_misses hp, either_of_not_misses hp]

/-- Parsers that miss leave their logs to what is tried behind them. -/
theorem foldr_either_of_misses {before : List (Parser ι ε α)} (h : ∀ p ∈ before, p.Misses i) :
    before.foldr either q i = (q i).after (before.flatMap (missLog i)) := by
  induction before with
  | nil => rfl
  | cons p before ih =>
    obtain ⟨hp, hbefore⟩ := List.forall_mem_cons.1 h
    rw [List.foldr_cons, either_of_misses hp, ih hbefore, Run.after_after, List.flatMap_cons]

/-- What stands behind a parser that does not miss is not tried. -/
theorem foldl_either_of_not_misses {after : List (Parser ι ε α)} (h : ¬ p.Misses i) :
    after.foldl either p i = p i := by
  cases after with
  | nil => rfl
  | cons q after =>
    rw [List.foldl_cons, List.foldl_assoc]
    exact either_of_not_misses h

/-! ## Choices of many -/

/-- Parsers can be tried up to one that does not miss, or else up to the last one. -/
theorem exists_tried_last (i : ι) {parsers : List (Parser ι ε α)} (h : parsers ≠ []) :
    ∃ before p after, parsers = before ++ p :: after ∧ (∀ q ∈ before, q.Misses i) ∧
      (p.Misses i → after = []) := by
  induction parsers with
  | nil => exact (h rfl).elim
  | cons p more ih =>
    by_cases hp : p.Misses i
    · by_cases hmore : more = []
      · exact ⟨[], p, more, rfl, List.forall_mem_nil _, fun _ => hmore⟩
      · obtain ⟨before, q, after, rfl, hbefore, hq⟩ := ih hmore
        exact ⟨p :: before, q, after, rfl, List.forall_mem_cons.2 ⟨hp, hbefore⟩, hq⟩
    · exact ⟨[], p, more, rfl, List.forall_mem_nil _, fun hmiss => (hp hmiss).elim⟩

/-- The run of a tree of choices up to the alternative that is tried last, and that one's. -/
theorem fold_either_eq {t : Tree (Parser ι ε α)} {before after : List (Parser ι ε α)}
    (h : t.toList = before ++ p :: after) (hbefore : ∀ q ∈ before, q.Misses i)
    (hlast : p.Misses i → after = []) :
    t.fold either i = (p i).after (before.flatMap (missLog i)) := by
  rw [Tree.fold_eq_foldr h, foldr_either_of_misses hbefore]
  by_cases hp : p.Misses i
  · rw [hlast hp]
    rfl
  · rw [foldl_either_of_not_misses hp]

variable [ParseError ε ι]

theorem choice_of_misses {e : ε} (h : (p i).reply = .failure (.recoverable e)) :
    choice p i = ⟨(p i).log ++ [.event (.allAlternativesFailed (Input.length i))],
      .failure (.recoverable (ParseError.wrap e i .alt))⟩ := by
  unfold choice Run.handle
  rw [h]
  rfl

theorem choice_of_not_misses (h : ¬ p.Misses i) : choice p i = p i :=
  Run.handle_eq_self fun e he => h ⟨e, he⟩

end Parser

/-! ## Records of a choice -/

section

variable {ι σ ε α : Type} [Input ι σ]

/-- The records of a parser that has missed below some open spans, and the one that says so. -/
def Parser.missRecords (depth : Nat) (i : ι) (p : Parser ι ε α) : List Record :=
  Record.ofSignals depth (p i).log ++ [.event depth (.alternativeFailed (Input.length i))]

/-- A run that has tried some parsers in vain and then another one, and has ended with some events
and a reply.  Spans that the parsers have opened they have closed again, so all their records lie
below the same open spans. -/
structure Run.Attempts (i : ι) (before : List (Parser ι ε α)) (p : Parser ι ε α)
    (closing : List Event) (reply : Reply ι ε α) (run : Run ι ε α) : Prop where
  log_eq : run.log = before.flatMap (Parser.missLog i) ++ (p i).log ++ closing.map .event
  reply_eq : run.reply = reply
  records_eq : ∀ depth, (∀ q ∈ before, Signal.depthAfter depth (q i).log = depth) →
    Signal.depthAfter depth (p i).log = depth →
      Record.ofSignals depth run.log =
        before.flatMap (Parser.missRecords depth i) ++ Record.ofSignals depth (p i).log ++
          closing.map (.event depth)

theorem Record.ofSignals_events (depth : Nat) (events : List Event) :
    ofSignals depth (events.map .event) = events.map (.event depth) := by
  induction events with
  | nil => rfl
  | cons e events ih => rw [List.map_cons, List.map_cons, ofSignals, ih]

/-- Parsers that miss leave the depth as it was and their records behind each other. -/
theorem Parser.ofSignals_missLogs {i : ι} {depth : Nat} {before : List (Parser ι ε α)}
    (h : ∀ q ∈ before, Signal.depthAfter depth (q i).log = depth) :
    Signal.depthAfter depth (before.flatMap (missLog i)) = depth ∧
      Record.ofSignals depth (before.flatMap (missLog i)) =
        before.flatMap (missRecords depth i) := by
  induction before with
  | nil => exact ⟨rfl, rfl⟩
  | cons q before ih =>
    obtain ⟨hq, hbefore⟩ := List.forall_mem_cons.1 h
    obtain ⟨hdepth, hrecords⟩ := ih hbefore
    have hmiss : Signal.depthAfter depth (missLog i q) = depth := by
      rw [missLog, Signal.depthAfter_append, hq]
      rfl
    have hmissed : Record.ofSignals depth (missLog i q) = missRecords depth i q := by
      rw [missLog, Record.ofSignals_append, hq]
      rfl
    constructor
    · rw [List.flatMap_cons, Signal.depthAfter_append, hmiss, hdepth]
    · rw [List.flatMap_cons, Record.ofSignals_append, hmiss, hmissed, hrecords,
        List.flatMap_cons]

/-- The records follow from the log. -/
theorem Run.attempts_of_log {i : ι} {before : List (Parser ι ε α)} {p : Parser ι ε α}
    {closing : List Event} {reply : Reply ι ε α} {run : Run ι ε α}
    (h : run.log = before.flatMap (Parser.missLog i) ++ (p i).log ++ closing.map .event)
    (hreply : run.reply = reply) : Attempts i before p closing reply run := by
  refine ⟨h, hreply, fun depth hbefore hp => ?_⟩
  obtain ⟨hdepth, hrecords⟩ := Parser.ofSignals_missLogs hbefore
  rw [h, Record.ofSignals_append, Record.ofSignals_append, Signal.depthAfter_append, hdepth,
    hrecords, hp, Record.ofSignals_events]

end

/-! ## Choices of expressions -/

section

variable {ι σ ε : Type} [Input ι σ] [Symbol σ] [ParseError ε ι]

theorem Expr.eval_fold_either (env : Expr.Env ι σ ε) (t : Tree Expr) :
    (t.fold .either).eval env = (t.map fun e => e.eval env).fold Parser.either := by
  induction t with
  | leaf e => rfl
  | node left right ihl ihr =>
    funext i
    rw [Tree.fold, eval, ihl, ihr, Tree.map, Tree.fold]

/-- Some expressions make a choice, by a tree with their parsers at the leaves. -/
theorem Expr.exists_tree_of_alt (env : Expr.Env ι σ ε) {es : List Expr} (h : es ≠ []) :
    ∃ e, alt? es = some e ∧ ∃ t : Tree (Parser ι ε (Value ι σ)),
      t.toList = es.map (fun e => e.eval env) ∧
        e.eval env = Parser.choice (t.fold Parser.either) := by
  obtain ⟨t, ht⟩ := Option.isSome_iff_exists.1 (Tree.balanced?_isSome h)
  refine ⟨.choice (t.fold .either), ?_, t.map fun e => e.eval env, ?_, ?_⟩
  · rw [alt?, ht]
    rfl
  · rw [Tree.toList_map, Tree.toList_of_balanced? ht]
  · funext i
    rw [eval, eval_fold_either]

end

/-! ## Order decides -/

section

variable {ι σ ε α : Type} [Input ι σ] [ParseError ε ι]

/-- **Ordered choice does not depend on the shape of its tree.**  Trees with the same leaves make
the same choice.  The leaves are tried from left to right on the input, up to the first one that
does not fail recoverably: it gives the reply, and what stands behind it is not tried.  If there is
none, the error of the last leaf is the error of the choice, with one level around it.  One event is
logged between two alternatives that are tried, and one at the end if all have failed.  A choice of
some expressions is such a tree. -/
theorem Parser.choice_in_order (t : Tree (Parser ι ε α)) (i : ι) :
    (∀ t' : Tree (Parser ι ε α), t'.toList = t.toList →
      choice (t'.fold either) i = choice (t.fold either) i) ∧
    (∃ before p after, t.toList = before ++ p :: after ∧ (∀ q ∈ before, q.Misses i) ∧
      (p.Misses i → after = [])) ∧
    (∀ before p after, t.toList = before ++ p :: after → (∀ q ∈ before, q.Misses i) →
      ¬ p.Misses i →
        (choice (t.fold either) i).Attempts i before p [] (p i).reply) ∧
    (∀ before p e, t.toList = before ++ [p] → (∀ q ∈ before, q.Misses i) →
      (p i).reply = .failure (.recoverable e) →
        (choice (t.fold either) i).Attempts i before p
          [.allAlternativesFailed (Input.length i)]
          (.failure (.recoverable (ParseError.wrap e i .alt)))) ∧
    (∀ [Symbol σ] (env : Expr.Env ι σ ε) (es : List Expr), es ≠ [] →
      ∃ e, Expr.alt? es = some e ∧ ∃ choices : Tree (Parser ι ε (Value ι σ)),
        choices.toList = es.map (fun e => e.eval env) ∧
          e.eval env = choice (choices.fold either)) := by
  refine ⟨?_, exists_tried_last i t.toList_ne_nil, ?_, ?_,
    fun env es => Expr.exists_tree_of_alt env⟩
  · intro t' h
    obtain ⟨p, more, hleaves⟩ := List.exists_cons_of_ne_nil t.toList_ne_nil
    rw [Tree.fold_eq_foldl hleaves, Tree.fold_eq_foldl (h.trans hleaves)]
  · intro before p after h hbefore hp
    have hfold := fold_either_eq h hbefore fun hmiss => (hp hmiss).elim
    have hmiss : ¬ (t.fold either).Misses i := by
      intro ⟨e, he⟩
      rw [hfold] at he
      exact hp ⟨e, he⟩
    rw [choice_of_not_misses hmiss, hfold]
    exact Run.attempts_of_log (List.append_nil _).symm rfl
  · intro before p e h hbefore he
    have hfold := fold_either_eq h hbefore fun _ => rfl
    have hmiss : (t.fold either i).reply = .failure (.recoverable e) := by
      rw [hfold]
      exact he
    rw [choice_of_misses hmiss, hfold]
    exact Run.attempts_of_log rfl rfl

/-- A fatal failure between two others ends the choice, and two misses are one error. -/
theorem Parser.choice_in_order_letter :
    let digits : Parser Text (Cause Text) (Value Text Char) := Scan.digit1.parser .complete
    let letters : Parser Text (Cause Text) (Value Text Char) := Scan.alpha1.parser .complete
    let comma : Parser Text (Cause Text) (Value Text Char) := (Scan.char ',').parser .complete
    (choice ((Tree.node (.leaf digits) (.node (.leaf (failFatally .user)) (.leaf letters))).fold
        either) ⟨['x']⟩).Attempts ⟨['x']⟩ [digits] (failFatally .user) []
      (.failure (.fatal (.root ⟨['x']⟩ .user))) ∧
    (choice ((Tree.node (.leaf digits) (.leaf comma)).fold either) ⟨['x']⟩).Attempts
      ⟨['x']⟩ [digits] comma [.allAlternativesFailed 1]
      (.failure (.recoverable (.context ⟨['x']⟩ .alt (.root ⟨['x']⟩ .char)))) := by
  intro digits letters comma
  have hdigits : ∀ q ∈ [digits], q.Misses ⟨['x']⟩ := by
    intro q hq
    rw [List.mem_singleton.1 hq]
    exact ⟨.root ⟨['x']⟩ .digit, rfl⟩
  have hfatal : ¬ (failFatally .user : Parser Text (Cause Text) (Value Text Char)).Misses
      ⟨['x']⟩ := by
    intro ⟨e, he⟩
    cases he
  constructor
  · exact (choice_in_order (.node (.leaf digits)
      (.node (.leaf (failFatally .user)) (.leaf letters))) ⟨['x']⟩).2.2.1 [digits]
      (failFatally .user) [letters] rfl hdigits hfatal
  · exact (choice_in_order (.node (.leaf digits) (.leaf comma)) ⟨['x']⟩).2.2.2.1 [digits] comma
      (.root ⟨['x']⟩ .char) rfl hdigits rfl

end

end ParseKit
