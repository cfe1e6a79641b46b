/-
  Relocation: what is left of a reply once its inputs are replaced.

  A reply holds inputs in three places: in the pieces of its value, as its
  remainder and as the positions of its error.  Relocating a reply puts
  something else in their place and keeps everything else, so replies of
  parses on different kinds of input can be compared by what is common to
  the two.  The error type has to exist for every kind of position.
-/
import ParseKit.Expr
import ParseKit.Proofs.Value.Related

set_option autoImplicit false

namespace ParseKit

/-! ## Errors at any kind of position -/

/-- An error type for every kind of position, whose errors can be taken from one kind to another
without a change of anything but positions. -/
class ErrorFamily (E : Type → Type) [∀ ι, ParseError (E ι) ι] where
  map : {ι κ : Type} → (ι → κ) → E ι → E κ
  map_id : ∀ {ι : Type} (e : E ι), map id e = e
  map_ofKind : ∀ {ι κ : Type} (f : ι → κ) (i : ι) (kind : ErrorKind),
    map f (ParseError.ofKind i kind) = ParseError.ofKind (f i) kind
  map_wrap : ∀ {ι κ : Type} (f : ι → κ) (e : E ι) (i : ι) (kind : ErrorKind),
    map f (ParseError.wrap e i kind) = ParseError.wrap (map f e) (f i) kind
  position_map : ∀ {ι κ : Type} (f : ι → κ) (e : E ι),
    ParseError.position (map f e) = f (ParseError.position e)
  root_map : ∀ {ι κ : Type} (f : ι → κ) (e : E ι),
    ParseError.root (map f e) = (f (ParseError.root e).1, (ParseError.root e).2)
  levels_map : ∀ {ι κ : Type} (f : ι → κ) (e : E ι),
    ParseError.levels (map f e) = (ParseError.levels e).map fun level => (level.1, f level.2)

namespace Cause

variable {ι κ : Type}

/-- The same levels at other positions. -/
def map (f : ι → κ) : Cause ι → Cause κ
  | .root position kind => .root (f position) kind
  | .context position kind inner => .context (f position) kind (inner.map f)

theorem map_id (c : Cause ι) : c.map id = c := by
  induction c with
  | root position kind => rfl
  | context position kind inner ih => rw [map, ih, id]

theorem rootLevel_map (f : ι → κ) (c : Cause ι) :
    (c.map f).rootLevel = (f c.rootLevel.1, c.rootLevel.2) := by
  induction c with
  | root position kind => rfl
  | context position kind inner ih => exact ih

theorem chain_map (f : ι → κ) (c : Cause ι) : (c.map f).chain = c.chain.map (map f) := by
  induction c with
  | root position kind => rfl
  | context position kind inner ih => rw [map, chain, ih, chain, List.map_cons, map]

theorem position_map (f : ι → κ) (c : Cause ι) : (c.map f).position = f c.position := by
  cases c <;> rfl

theorem kind_map (f : ι → κ) (c : Cause ι) : (c.map f).kind = c.kind := by
  cases c <;> rfl

instance : ErrorFamily Cause where
  map := map
  map_id := map_id
  map_ofKind _ _ _ := rfl
  map_wrap _ _ _ _ := rfl
  position_map := position_map
  root_map := rootLevel_map
  levels_map f c := by
    change (c.map f).chain.map _ = (c.chain.map _).map _
    rw [chain_map, List.map_map, List.map_map]
    refine List.map_congr_left fun level _ => ?_
    simp only [Function.comp, kind_map, position_map]

end Cause

instance : ErrorFamily Flat where
  map f e := (f e.1, e.2)
  map_id _ := rfl
  map_ofKind _ _ _ := rfl
  map_wrap _ _ _ _ := rfl
  position_map _ _ := rfl
  root_map _ _ := rfl
  levels_map _ _ := rfl

section

variable {E : Type → Type} [∀ ι, ParseError (E ι) ι] [ErrorFamily E]

theorem ErrorTemplate.place_map {ι κ : Type} (f : ι → κ) (e : E ι) (level : Nat) :
    place (ErrorFamily.map f e) level = f (place e level) := by
  unfold place
  rw [ErrorFamily.levels_map, ErrorFamily.position_map, List.getElem?_map]
  cases (ParseError.levels e)[level]? <;> rfl

/-- An error made of another one refers to positions of it and does not look at them. -/
theorem ErrorTemplate.map_fill {ι κ : Type} (f : ι → κ) (template : ErrorTemplate) (e : E ι) :
    ErrorFamily.map f (template.fill e) = template.fill (ErrorFamily.map f e) := by
  have hcontexts : ∀ (contexts : List (ErrorKind × Nat)) (inner : E ι),
      ErrorFamily.map f (contexts.foldl
          (fun inner level => ParseError.wrap inner (place e level.2) level.1) inner) =
        contexts.foldl
          (fun inner level =>
            ParseError.wrap inner (place (ErrorFamily.map f e) level.2) level.1)
          (ErrorFamily.map f inner) := by
    intro contexts
    induction contexts with
    | nil => exact fun _ => rfl
    | cons level contexts ih =>
      intro inner
      rw [List.foldl_cons, List.foldl_cons, ih, ErrorFamily.map_wrap, place_map]
  rw [fill, fill, hcontexts, ErrorFamily.map_ofKind, place_map]

/-- Changes of errors do not look at positions but by what is seen of them. -/
theorem ErrorMap.map_change {ι κ : Type} (f : ι → κ) (seen : List CodedLevel) (g : ErrorMap)
    (e : E ι) :
    ErrorFamily.map f (g.change seen e) = g.change seen (ErrorFamily.map f e) := by
  cases g with
  | rekind kind => rw [change, change, ErrorFamily.map_ofKind, ErrorFamily.position_map]
  | wrap kind => rw [change, change, ErrorFamily.map_wrap, ErrorFamily.position_map]
  | root =>
    rw [change, change, ParseError.rooted, ParseError.rooted, ErrorFamily.map_ofKind,
      ErrorFamily.root_map]
  | outside template => exact ErrorTemplate.map_fill f (template seen) e

/-- What is seen of an error from outside, by the codes in the place of its positions. -/
theorem ErrorMap.coded_eq {ι σ : Type} [Input ι σ] [Symbol σ] (e : E ι) :
    coded e = ParseError.levels
      (ErrorFamily.map (fun i : ι => (Input.symbols i).map Symbol.code) e) := by
  rw [ErrorFamily.levels_map]
  rfl

end

/-! ## Values -/

namespace Value

variable {ι σ ι' σ' κ τ : Type} {P : ι → ι' → Prop} {S : σ → σ' → Prop} {f : ι → κ} {f' : ι' → κ}
  {g : σ → τ} {g' : σ' → τ}

mutual

/-- Related values have the same things in the place of related ones. -/
theorem Related.map_eq (hP : ∀ p p', P p p' → f p = f' p') (hS : ∀ s s', S s s' → g s = g' s') :
    ∀ {v : Value ι σ} {v' : Value ι' σ'}, Related P S v v' → v.map f g = v'.map f' g'
  | .piece _, _, .piece h => congrArg Value.piece (hP _ _ h)
  | .symbol _, _, .symbol h => congrArg Value.symbol (hS _ _ h)
  | .char _, _, .char _ => rfl
  | .unit, _, .unit => rfl
  | .absent, _, .absent => rfl
  | .present _, _, .present h => congrArg Value.present (Related.map_eq hP hS h)
  | .int _, _, .int _ => rfl
  | .bool _, _, .bool _ => rfl
  | .str _, _, .str _ => rfl
  | .list _, _, .list h => congrArg Value.list (mapAll_eq_of_forall₂ hP hS h)
  | .tuple _, _, .tuple h => congrArg Value.tuple (mapAll_eq_of_forall₂ hP hS h)

theorem mapAll_eq_of_forall₂ (hP : ∀ p p', P p p' → f p = f' p')
    (hS : ∀ s s', S s s' → g s = g' s') :
    ∀ {l : List (Value ι σ)} {l' : List (Value ι' σ')}, List.Forall₂ (Related P S) l l' →
      mapAll f g l = mapAll f' g' l'
  | [], _, .nil => rfl
  | _ :: _, _, .cons h hl =>
    congrArg₂ _ (Related.map_eq hP hS h) (mapAll_eq_of_forall₂ hP hS hl)

end

mutual

theorem map_id : ∀ v : Value ι σ, v.map id id = v
  | .piece _ => rfl
  | .symbol _ => rfl
  | .char _ => rfl
  | .unit => rfl
  | .absent => rfl
  | .present v => congrArg Value.present (map_id v)
  | .int _ => rfl
  | .bool _ => rfl
  | .str _ => rfl
  | .list l => congrArg Value.list (mapAll_id l)
  | .tuple l => congrArg Value.tuple (mapAll_id l)

theorem mapAll_id : ∀ l : List (Value ι σ), mapAll id id l = l
  | [] => rfl
  | v :: l => congrArg₂ List.cons (map_id v) (mapAll_id l)

end

end Value

/-! ## Replies -/

namespace Reply

/-- A reply with other things in the place of its inputs and its symbols. -/
def relocate {E : Type → Type} [∀ ι, ParseError (E ι) ι] [ErrorFamily E] {ι σ κ τ : Type}
    (f : ι → κ) (g : σ → τ) : Reply ι (E ι) (Value ι σ) → Reply κ (E κ) (Value κ τ)
  | .success value rest => .success (value.map f g) (f rest)
  | .failure failed => .failure (failed.map (ErrorFamily.map f))
  | .stuck fault => .stuck fault

/-- Where a reply ends: the remainder of a success, the positions of an error. -/
def places {ι ε α : Type} [ParseError ε ι] : Reply ι ε α → List ι
  | .success _ rest => [rest]
  | .failure failed => failed.error?.elim [] fun e => (ParseError.levels e).map Prod.snd
  | .stuck _ => []

theorem relocate_id {E : Type → Type} [∀ ι, ParseError (E ι) ι] [ErrorFamily E] {ι σ : Type}
    (reply : Reply ι (E ι) (Value ι σ)) : reply.relocate id id = reply := by
  rcases reply with ⟨value, rest⟩ | ⟨_ | e | e⟩ | fault
  · exact congrArg (Reply.success · rest) value.map_id
  · rfl
  · exact congrArg (fun e => Reply.failure (.recoverable e)) (ErrorFamily.map_id e)
  · exact congrArg (fun e => Reply.failure (.fatal e)) (ErrorFamily.map_id e)
  · rfl

end Reply

end ParseKit
