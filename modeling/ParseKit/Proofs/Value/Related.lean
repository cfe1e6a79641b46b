/-
  Related values: values of one shape whose pieces and symbols correspond.

  The functions on values see a piece by its text and its length and a
  symbol by its text, so where a correspondence keeps these they make
  related results of related values, and equal answers.
-/
import Mathlib.Data.List.Forall2
import ParseKit.Expr.Eval

set_option autoImplicit false

namespace ParseKit

variable {ι ι' σ σ' : Type} {P : ι → ι' → Prop} {S : σ → σ' → Prop}

/-- Two values of one shape, with related pieces and related symbols in the same places. -/
inductive Value.Related (P : ι → ι' → Prop) (S : σ → σ' → Prop) : Value ι σ → Value ι' σ' → Prop
  | piece {i i'} : P i i' → Related P S (.piece i) (.piece i')
  | symbol {s s'} : S s s' → Related P S (.symbol s) (.symbol s')
  | char (c) : Related P S (.char c) (.char c)
  | unit : Related P S .unit .unit
  | absent : Related P S .absent .absent
  | present {v v'} : Related P S v v' → Related P S (.present v) (.present v')
  | int (n) : Related P S (.int n) (.int n)
  | bool (b) : Related P S (.bool b) (.bool b)
  | str (s) : Related P S (.str s) (.str s)
  | list {l l'} : List.Forall₂ (Related P S) l l' → Related P S (.list l) (.list l')
  | tuple {l l'} : List.Forall₂ (Related P S) l l' → Related P S (.tuple l) (.tuple l')

namespace Value

/-! ## Equal values -/

mutual

theorem related_refl : ∀ v : Value ι σ, Related Eq Eq v v
  | .piece _ => .piece rfl
  | .symbol _ => .symbol rfl
  | .char c => .char c
  | .unit => .unit
  | .absent => .absent
  | .present v => .present (related_refl v)
  | .int n => .int n
  | .bool b => .bool b
  | .str s => .str s
  | .list l => .list (forall₂_related_refl l)
  | .tuple l => .tuple (forall₂_related_refl l)

theorem forall₂_related_refl : ∀ l : List (Value ι σ), List.Forall₂ (Related Eq Eq) l l
  | [] => .nil
  | v :: l => .cons (related_refl v) (forall₂_related_refl l)

end

mutual

theorem Related.eq : ∀ {v v' : Value ι σ}, Related Eq Eq v v' → v = v'
  | .piece _, _, .piece h => congrArg _ h
  | .symbol _, _, .symbol h => congrArg _ h
  | .char _, _, .char _ => rfl
  | .unit, _, .unit => rfl
  | .absent, _, .absent => rfl
  | .present _, _, .present h => congrArg _ h.eq
  | .int _, _, .int _ => rfl
  | .bool _, _, .bool _ => rfl
  | .str _, _, .str _ => rfl
  | .list _, _, .list h => congrArg _ (eq_of_forall₂_related h)
  | .tuple _, _, .tuple h => congrArg _ (eq_of_forall₂_related h)

theorem eq_of_forall₂_related :
    ∀ {l l' : List (Value ι σ)}, List.Forall₂ (Related Eq Eq) l l' → l = l'
  | [], _, .nil => rfl
  | _ :: _, _, .cons h hl => congrArg₂ _ h.eq (eq_of_forall₂_related hl)

end

/-! ## Building values -/

mutual

theorem related_ofLiteral : ∀ v : Literal, Related P S (ofLiteral v) (ofLiteral v)
  | .char c => .char c
  | .unit => .unit
  | .absent => .absent
  | .present v => .present (related_ofLiteral v)
  | .int n => .int n
  | .bool b => .bool b
  | .str s => .str s
  | .list l => .list (forall₂_related_literals l)
  | .tuple l => .tuple (forall₂_related_literals l)

theorem forall₂_related_literals : ∀ l : List Literal,
    List.Forall₂ (Related P S) (mapAll Empty.elim Empty.elim l) (mapAll Empty.elim Empty.elim l)
  | [] => .nil
  | v :: l => .cons (related_ofLiteral v) (forall₂_related_literals l)

end

theorem Related.ofOption {o : Option (Value ι σ)} {o' : Option (Value ι' σ')}
    (h : Option.Rel (Related P S) o o') : Related P S (Value.ofOption o) (Value.ofOption o') := by
  cases h with
  | some h => exact .present h
  | none => exact .absent

theorem Related.pair {v w : Value ι σ} {v' w' : Value ι' σ'} (h : Related P S v v')
    (hw : Related P S w w') : Related P S (.tuple [v, w]) (.tuple [v', w']) :=
  .tuple (.cons h (.cons hw .nil))

/-- Values flatten along a shape in the same way. -/
theorem Related.flatten (shape : Tree Unit) {v : Value ι σ} {v' : Value ι' σ'}
    (h : Related P S v v') :
    List.Forall₂ (Related P S) (Value.flatten shape v) (Value.flatten shape v') := by
  induction shape generalizing v v' with
  | leaf _ => exact .cons h .nil
  | node left right ihl ihr =>
    have hleaf : List.Forall₂ (Related P S) [v] [v'] := .cons h .nil
    cases h with
    | tuple hl =>
      rcases hl with _ | ⟨h₁, _ | ⟨h₂, _ | ⟨_, _⟩⟩⟩
      · exact hleaf
      · exact hleaf
      · exact List.rel_append (ihl h₁) (ihr h₂)
      · exact hleaf
    | _ => exact hleaf

end Value

/-! ## Templates -/

namespace Value

mutual

theorem Related.leaves : ∀ {v : Value ι σ} {v' : Value ι' σ'}, Related P S v v' →
    List.Forall₂ (Related P S) v.leaves v'.leaves
  | .piece _, _, .piece h => .cons (.piece h) .nil
  | .symbol _, _, .symbol h => .cons (.symbol h) .nil
  | .char _, _, .char _ => .nil
  | .unit, _, .unit => .nil
  | .absent, _, .absent => .nil
  | .present _, _, .present h => h.leaves
  | .int _, _, .int _ => .nil
  | .bool _, _, .bool _ => .nil
  | .str _, _, .str _ => .nil
  | .list _, _, .list h => forall₂_leavesAll h
  | .tuple _, _, .tuple h => forall₂_leavesAll h

theorem forall₂_leavesAll : ∀ {l : List (Value ι σ)} {l' : List (Value ι' σ')},
    List.Forall₂ (Related P S) l l' → List.Forall₂ (Related P S) (leavesAll l) (leavesAll l')
  | [], _, .nil => .nil
  | _ :: _, _, .cons h hl => List.rel_append h.leaves (forall₂_leavesAll hl)

end

theorem related_getD {l : List (Value ι σ)} {l' : List (Value ι' σ')}
    (h : List.Forall₂ (Related P S) l l') (index : Nat) :
    Related P S (l[index]?.getD .unit) (l'[index]?.getD .unit) := by
  induction h generalizing index with
  | nil => exact .unit
  | cons hv _ ih =>
    cases index with
    | zero => exact hv
    | succ index => exact ih index

mutual

theorem fill_related {leaves : List (Value ι σ)} {leaves' : List (Value ι' σ')}
    (h : List.Forall₂ (Related P S) leaves leaves') :
    ∀ template : Template, Related P S (fill leaves template) (fill leaves' template)
  | .piece index => related_getD h index
  | .symbol s => s.elim
  | .char c => .char c
  | .unit => .unit
  | .absent => .absent
  | .present content => .present (fill_related h content)
  | .int n => .int n
  | .bool b => .bool b
  | .str s => .str s
  | .list items => .list (forall₂_fillAll h items)
  | .tuple items => .tuple (forall₂_fillAll h items)

theorem forall₂_fillAll {leaves : List (Value ι σ)} {leaves' : List (Value ι' σ')}
    (h : List.Forall₂ (Related P S) leaves leaves') :
    ∀ templates : List Template,
      List.Forall₂ (Related P S) (fillAll leaves templates) (fillAll leaves' templates)
  | [] => .nil
  | template :: more => .cons (fill_related h template) (forall₂_fillAll h more)

end

end Value

section

variable {v : Value ι σ} {v' : Value ι' σ'} {l : List (Value ι σ)} {l' : List (Value ι' σ')}

theorem Container.isAbsent_eq (h : Value.Related P S v v') :
    isAbsent v = isAbsent v' := by
  cases h <;> rfl

theorem Container.content_related (h : Value.Related P S v v') :
    Value.Related P S (content v) (content v') := by
  have hsame := h
  cases h with
  | present h => exact h
  | _ => exact hsame

theorem Container.any_isAbsent_eq (h : List.Forall₂ (Value.Related P S) l l') :
    l.any isAbsent = l'.any isAbsent := by
  induction h with
  | nil => rfl
  | cons hv _ ih => rw [List.any_cons, List.any_cons, isAbsent_eq hv, ih]

theorem Folding.start_related (folding : Folding) :
    Value.Related P S (folding.start : Value ι σ) folding.start := by
  cases folding with
  | count => exact .int 0
  | sumSize => exact .int 0
  | concat => exact .str ""
  | nest => exact .unit
  | outside start step => exact Value.related_ofLiteral start

end

/-! ## What functions see -/

variable [Input ι σ] [Symbol σ] [Input ι' σ'] [Symbol σ']

/-- A correspondence of pieces and of symbols that keeps what functions on values see. -/
structure Value.Faithful (P : ι → ι' → Prop) (S : σ → σ' → Prop) : Prop where
  spell_piece : ∀ {i i'}, P i i' → Input.spell i = Input.spell i'
  length_piece : ∀ {i i'}, P i i' → Input.length i = Input.length i'
  code_piece : ∀ {i i'}, P i i' →
    (Input.symbols i).map Symbol.code = (Input.symbols i').map Symbol.code
  spell_symbol : ∀ {s s'}, S s s' → Symbol.spell [s] = Symbol.spell [s']
  code_symbol : ∀ {s s'}, S s s' → Symbol.code s = Symbol.code s'

theorem Value.Faithful.equal : Value.Faithful (Eq : ι → ι → Prop) (Eq : σ → σ → Prop) where
  spell_piece h := h ▸ rfl
  length_piece h := h ▸ rfl
  code_piece h := h ▸ rfl
  spell_symbol h := h ▸ rfl
  code_symbol h := h ▸ rfl

namespace Value

mutual

theorem Related.text_eq (hF : Faithful P S) :
    ∀ {v : Value ι σ} {v' : Value ι' σ'}, Related P S v v' → v.text = v'.text
  | .piece _, _, .piece h => hF.spell_piece h
  | .symbol _, _, .symbol h => hF.spell_symbol h
  | .char _, _, .char _ => rfl
  | .unit, _, .unit => rfl
  | .absent, _, .absent => rfl
  | .present v, .present v', .present h => (Related.text_eq hF h : v.text = v'.text)
  | .int _, _, .int _ => rfl
  | .bool _, _, .bool _ => rfl
  | .str _, _, .str _ => rfl
  | .list _, _, .list h => textAll_eq_of_forall₂ hF h
  | .tuple _, _, .tuple h => textAll_eq_of_forall₂ hF h

theorem textAll_eq_of_forall₂ (hF : Faithful P S) :
    ∀ {l : List (Value ι σ)} {l' : List (Value ι' σ')},
      List.Forall₂ (Related P S) l l' → textAll l = textAll l'
  | [], _, .nil => rfl
  | _ :: _, _, .cons h hl => congrArg₂ _ (Related.text_eq hF h) (textAll_eq_of_forall₂ hF hl)

end

mutual

theorem Related.coded_eq (hF : Faithful P S) :
    ∀ {v : Value ι σ} {v' : Value ι' σ'}, Related P S v v' → v.coded = v'.coded
  | .piece _, _, .piece h => congrArg Value.piece (hF.code_piece h)
  | .symbol _, _, .symbol h => congrArg Value.symbol (hF.code_symbol h)
  | .char _, _, .char _ => rfl
  | .unit, _, .unit => rfl
  | .absent, _, .absent => rfl
  | .present _, _, .present h => congrArg Value.present (Related.coded_eq hF h)
  | .int _, _, .int _ => rfl
  | .bool _, _, .bool _ => rfl
  | .str _, _, .str _ => rfl
  | .list _, _, .list h => congrArg Value.list (codedAll_eq_of_forall₂ hF h)
  | .tuple _, _, .tuple h => congrArg Value.tuple (codedAll_eq_of_forall₂ hF h)

theorem codedAll_eq_of_forall₂ (hF : Faithful P S) :
    ∀ {l : List (Value ι σ)} {l' : List (Value ι' σ')}, List.Forall₂ (Related P S) l l' →
      mapAll (fun i => (Input.symbols i).map Symbol.code) Symbol.code l =
        mapAll (fun i => (Input.symbols i).map Symbol.code) Symbol.code l'
  | [], _, .nil => rfl
  | _ :: _, _, .cons h hl =>
    congrArg₂ _ (Related.coded_eq hF h) (codedAll_eq_of_forall₂ hF hl)

end

theorem Related.applyOutside (hF : Faithful P S) (f : Coded → Template) {v : Value ι σ}
    {v' : Value ι' σ'} (h : Related P S v v') :
    Related P S (v.applyOutside f) (v'.applyOutside f) := by
  rw [Value.applyOutside, Value.applyOutside, h.coded_eq hF]
  exact fill_related h.leaves _

theorem Related.size_eq (hF : Faithful P S) {v : Value ι σ} {v' : Value ι' σ'}
    (h : Related P S v v') : v.size = v'.size := by
  cases h with
  | piece h => exact hF.length_piece h
  | list h => exact h.length_eq
  | tuple h => exact h.length_eq
  | _ => rfl

end Value

/-! ## Mappings, conversions and checks -/

section

variable {v : Value ι σ} {v' : Value ι' σ'}

theorem Mapping.apply_related (hF : Value.Faithful P S) (f : Mapping)
    (h : Value.Related P S v v') : Value.Related P S (f.apply v) (f.apply v') := by
  cases f with
  | text =>
    simp only [apply, h.text_eq hF]
    exact .str _
  | size =>
    simp only [apply, h.size_eq hF]
    exact .int _
  | upper =>
    simp only [apply, h.text_eq hF]
    exact .str _
  | reverse =>
    have hsame := h
    cases h with
    | list h => exact .list (List.rel_reverse h)
    | _ => exact hsame
  | nth index =>
    cases h with
    | list h => exact Value.related_getD h index
    | tuple h => exact Value.related_getD h index
    | _ => exact .unit
  | label name => exact .pair (.str name) h
  | outside f => exact h.applyOutside hF f

theorem Conversion.result?_related (hF : Value.Faithful P S) (f : Conversion)
    (h : Value.Related P S v v') : Option.Rel (Value.Related P S) (f.result? v) (f.result? v') := by
  cases f with
  | integer range =>
    simp only [result?, h.text_eq hF]
    cases Text.Integer.read? range v'.text with
    | none => exact .none
    | some n => exact .some (.int n)
  | nonempty =>
    simp only [result?, h.size_eq hF]
    split
    · exact .some h
    · exact .none
  | codePoint =>
    cases h with
    | int n =>
      simp only [result?]
      split
      · exact .some (.char _)
      · exact .none
    | _ => exact .none
  | outside f =>
    simp only [result?, h.coded_eq hF]
    cases f v'.coded with
    | none => exact .none
    | some template => exact .some (Value.fill_related h.leaves template)

theorem Check.holds_eq (hF : Value.Faithful P S) (check : Check) (h : Value.Related P S v v') :
    check.holds v = check.holds v' := by
  cases check with
  | constant answer => rfl
  | sizeAtMost bound => simp only [holds, h.size_eq hF]
  | sizeAtLeast bound => simp only [holds, h.size_eq hF]
  | textIs text => simp only [holds, h.text_eq hF]
  | intBelow bound => cases h <;> rfl
  | outside test => simp only [holds, h.coded_eq hF]

end

/-! ## Containers and folds -/

section

variable {l : List (Value ι σ)} {l' : List (Value ι' σ')}

theorem Container.foldl_insertText_eq (hF : Value.Faithful P S)
    (h : List.Forall₂ (Value.Related P S) l l') (sorted : List String) :
    l.foldl (fun sorted item => insertText item.text sorted) sorted =
      l'.foldl (fun sorted item => insertText item.text sorted) sorted := by
  induction h generalizing sorted with
  | nil => rfl
  | cons hv _ ih => rw [List.foldl_cons, List.foldl_cons, hv.text_eq hF, ih]

theorem Container.wants_eq (hF : Value.Faithful P S) (container : Container)
    (h : List.Forall₂ (Value.Related P S) l l') : container.wants l = container.wants l' := by
  cases container with
  | option =>
    cases h with
    | nil => rfl
    | cons hv _ => simp [wants, isAbsent_eq hv]
  | first limit => simp only [wants, h.length_eq]
  | outside test requests finish =>
    have hlist : Value.Related P S (.list l.reverse) (.list l'.reverse) :=
      .list (List.rel_reverse h)
    simp only [wants, hlist.coded_eq hF]
  | _ => rfl

theorem Container.finish_related (hF : Value.Faithful P S) (container : Container)
    (h : List.Forall₂ (Value.Related P S) l l') (extra : Nat) :
    Value.Related P S (container.finish l extra) (container.finish l' extra) := by
  cases container with
  | list => exact .list h
  | text =>
    simp only [finish, Value.textAll_eq_of_forall₂ hF h]
    exact .str _
  | set =>
    simp only [finish, texts, foldl_insertText_eq hF h]
    refine .list (List.forall₂_map_left_iff.2 (List.forall₂_map_right_iff.2 ?_))
    exact List.forall₂_same.2 fun text _ => .str text
  | unit => exact .unit
  | option =>
    simp only [finish, any_isAbsent_eq h]
    split
    · exact .absent
    · exact .present (.list (List.rel_map (fun _ _ => content_related) h))
  | first limit => exact .list h
  | insistent requests => exact .pair (.list h) (.int _)
  | outside wants requests finish =>
    exact (Value.Related.pair (.list h) (.int _)).applyOutside hF finish

theorem Folding.step_related (hF : Value.Faithful P S) (folding : Folding)
    {result v : Value ι σ} {result' v' : Value ι' σ'} (hr : Value.Related P S result result')
    (h : Value.Related P S v v') :
    Value.Related P S (folding.step result v) (folding.step result' v') := by
  have hsame := hr
  cases folding with
  | nest => exact .pair hr h
  | outside start step => exact (hr.pair h).applyOutside hF step
  | count =>
    cases hr with
    | int n => exact .int _
    | _ => exact hsame
  | sumSize =>
    cases hr with
    | int n =>
      simp only [step, h.size_eq hF]
      exact .int _
    | _ => exact hsame
  | concat =>
    cases hr with
    | str s =>
      simp only [step, h.text_eq hF]
      exact .str _
    | _ => exact hsame

end

end ParseKit
