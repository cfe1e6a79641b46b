/-
  Guarded recursion ends.

  A grammar is guarded if every reference to a rule lies in a sequence behind
  a part of it that shortens the input whenever it succeeds.  The body of a
  rule then refers to rules on shorter inputs only, so rules nest no more
  deeply than the input is long.  Two depths that the length of an input
  does not reach make the same of it, whatever stands behind the rules at
  the bottom: that is what the end of a parse means here.  The induction is
  on the length of the input outside and on the guarded expression inside.

  The loops of the repetitions end as well: on the inputs of a parse no part
  of an expression grows its input, so each round that goes on shortens it.
-/
import ParseKit.Proofs.Confinement
import ParseKit.Proofs.Expr.Loops
import ParseKit.Proofs.Scan.Finality
import ParseKit.Proofs.Sequence

set_option autoImplicit false

namespace ParseKit

open LawfulInput

/-! ## Guarded expressions -/

namespace Expr

/-- No reference is reached before a part that consumes has succeeded: a part of a sequence that
stands behind one that consumes may be anything, and every other part is guarded itself. -/
inductive Guarded (consumes : Expr → Prop) : Expr → Prop
  | sequence {e : Expr} {t : Tree Expr} : e.sequence? = some t →
    (∀ before part after, t.toList = before ++ part :: after → (∀ b ∈ before, ¬ consumes b) →
      Guarded consumes part) → Guarded consumes e
  | parts {e : Expr} : e.isRef = false → (∀ part ∈ e.children, Guarded consumes part) →
    Guarded consumes e

theorem Guarded.scan {consumes : Expr → Prop} (mode : Mode) (s : Scan) :
    (Expr.scan mode s).Guarded consumes :=
  .parts rfl nofun

/-- A tuple is guarded if those of its parts are that stand behind none that consumes. -/
theorem Guarded.tuple {consumes : Expr → Prop} {es : List Expr}
    (h : ∀ before part after, es = before ++ part :: after → (∀ b ∈ before, ¬ consumes b) →
      part.Guarded consumes) : (tuple es).Guarded consumes := by
  cases es with
  | nil =>
    rw [tuple_nil]
    exact .parts rfl nofun
  | cons e es =>
    obtain ⟨t, ht, hparts⟩ := sequence?_tuple (List.cons_ne_nil e es)
    exact .sequence ht fun before part after hsplit => h before part after (hparts ▸ hsplit)

theorem every_along {test : Expr → Prop} (shape : Tree Unit) {e : Expr} (h : e.Every test) :
    ∀ part ∈ (along shape e).toList, part.Every test := by
  fun_induction along shape e with
  | case1 left right e f ihe ihf =>
    intro part hpart
    rcases List.mem_append.1 hpart with hleft | hright
    · exact ihe (h.part (.head _)) part hleft
    · exact ihf (h.part (.tail _ (.head _))) part hright
  | case2 => exact List.forall_mem_singleton.2 h

/-- What holds of every part of an expression holds of the parts of a sequence. -/
theorem every_sequence {test : Expr → Prop} {e : Expr} {t : Tree Expr}
    (ht : e.sequence? = some t) (h : e.Every test) : ∀ part ∈ t.toList, part.Every test := by
  cases e with
  | flatten shape e =>
    cases ht
    exact every_along shape (h.part (.head _))
  | pair | separatedPair | delimited | preceded | terminated =>
    cases ht
    exact fun part hpart => h.part hpart
  | _ => cases ht

theorem every_fold_pair {test : Expr → Prop} (hpair : ∀ e f, test (.pair e f)) {t : Tree Expr}
    (h : ∀ e ∈ t.toList, e.Every test) : (t.fold .pair).Every test := by
  induction t with
  | leaf e => exact h e (.head _)
  | node left right ihl ihr =>
    have hleft : (left.fold .pair).Every test := ihl fun e he => h e (List.mem_append_left _ he)
    have hright : (right.fold .pair).Every test := ihr fun e he => h e (List.mem_append_right _ he)
    exact .intro (hpair _ _) (List.forall_mem_cons.2 ⟨hleft, List.forall_mem_singleton.2 hright⟩)

/-- What holds of every part of some expressions holds of the parts of their tuple, if it does of
the expressions that put them together. -/
theorem every_tuple {test : Expr → Prop} (hnone : test (.succeed (.tuple [])))
    (hpair : ∀ e f, test (.pair e f)) (hflatten : ∀ shape e, test (.flatten shape e))
    {es : List Expr} (h : ∀ e ∈ es, e.Every test) : (tuple es).Every test := by
  cases es with
  | nil =>
    rw [tuple_nil]
    exact every_leaf rfl hnone
  | cons e es =>
    obtain ⟨t, hparts, htuple⟩ := exists_tree_of_tuple (List.cons_ne_nil e es)
    rw [← hparts] at h
    rw [htuple]
    exact .intro (hflatten _ _) (List.forall_mem_singleton.2 (every_fold_pair hpair h))

end Expr

/-- A row of parsers that correspond. -/
theorem Correspondence.inTurn_related {ι σ ε κ : Type} [Input ι σ] [Symbol σ] [ParseError ε ι]
    {C : Correspondence ι σ ε ι σ ε} {A : κ → Type} {p p' : (k : κ) → Parser ι ε (A k)}
    {ks : List κ} (h : ∀ k ∈ ks, C.Parsers Eq (p k) (p' k)) :
    C.Parsers Eq (Parser.inTurn p ks) (Parser.inTurn p' ks) := by
  induction ks with
  | nil => exact fun _ _ hi => .success rfl hi (C.follows_refl hi)
  | cons k ks ih =>
    intro i i' hi
    obtain ⟨hk, hks⟩ := List.forall_mem_cons.1 h
    refine (hk hi).andThen fun {v v' r r'} hv hr hfollows => ?_
    exact ((ih hks hr).mono hfollows).map fun {vs vs'} (hvs : vs = vs') => by rw [hv, hvs]

variable {ι σ ε : Type} [Input ι σ] [LawfulInput ι σ] [Symbol σ] [ParseError ε ι]

namespace Grammar

/-- Every reference in an expression is one to a rule. -/
def Defines (g : Grammar) (e : Expr) : Prop :=
  e.Every fun part => ∀ name, part = .ref name → (g.body? name).isSome

theorem defines_scan (g : Grammar) (mode : Mode) (s : Scan) : g.Defines (.scan mode s) :=
  Expr.every_leaf rfl nofun

theorem defines_ref {g : Grammar} {name : String} (h : (g.body? name).isSome) :
    g.Defines (.ref name) :=
  Expr.every_leaf rfl fun _ hname => Expr.ref.inj hname ▸ h

/-- An expression that leaves less than it was given whenever it succeeds. -/
def Consumes (g : Grammar) (ι ε : Type) {σ : Type} [Input ι σ] [LawfulInput ι σ] [Symbol σ]
    [ParseError ε ι] (e : Expr) : Prop :=
  ∀ i : ι, Valid i → ∀ v r, (g.parse e i : Run ι ε (Value ι σ)).reply = .success v r →
    Input.length r < Input.length i

end Grammar

/-! ## Parses that end -/

namespace Correspondence

/-- A parse beside itself that gets stuck nowhere. -/
abbrev ending (ι σ ε : Type) [Input ι σ] [LawfulInput ι σ] [Symbol σ] [ParseError ε ι] :
    Correspondence ι σ ε ι σ ε :=
  confined ι σ ε fun _ => False

/-- A parse beside itself that gets stuck nowhere, on inputs of less than some length. -/
abbrev endingBelow (ι σ ε : Type) [Input ι σ] [LawfulInput ι σ] [Symbol σ] [ParseError ε ι]
    (m : Nat) : Correspondence ι σ ε ι σ ε :=
  (ending ι σ ε).restrict fun i => Input.length i < m

theorem endingBelow_invariant (m : Nat) : (endingBelow ι σ ε m).Invariant where
  input_eq := And.left
  input_rest h hrest :=
    ⟨⟨⟨hrest.valid, rfl⟩, Nat.lt_of_le_of_lt hrest.length_le h.2⟩, hrest⟩
  piece_eq := rfl
  symbol_eq := rfl
  not_lax := id
  waits := trivial

/-- Between environments that agree on shorter inputs, every part but a reference does as well. -/
theorem endingBelow_admits (m : Nat) {env env' : Expr.Env ι σ ε} {e : Expr} (hroom : e.HasRoom)
    (href : ∀ name, e = .ref name → (endingBelow ι σ ε m).ValueParsers (env name) (env' name)) :
    (endingBelow ι σ ε m).Admits env env' id id e :=
  (endingBelow_invariant m).admits (.inl hroom) (fun _ _ _ {_ _ _} he => congrArg _ he) href

theorem endingBelow_of_ending {α : Type} {V : α → α → Prop} {i : ι} {run run' : Run ι ε α} {m : Nat}
    (hlt : Input.length i < m) (h : (ending ι σ ε).Runs V i run run') :
    (endingBelow ι σ ε m).Runs V i run run' :=
  h.restrict fun hfollows => Nat.lt_of_le_of_lt hfollows.length_le hlt

/-- Runs of one input that end do so with one reply. -/
theorem reply_eq_of_ending {α : Type} {i : ι} {run run' : Run ι ε α}
    (h : (ending ι σ ε).Runs Eq i run run') :
    run.reply = run'.reply ∧ ∀ fault, run.reply ≠ .stuck fault := by
  unfold Runs at h
  generalize run.reply = reply at h ⊢
  generalize run'.reply = reply' at h ⊢
  cases h with
  | success hv hr _ => exact ⟨congrArg₂ Reply.success hv hr.2, nofun⟩
  | recoverable he => exact ⟨congrArg (fun e => Reply.failure (.recoverable e)) he, nofun⟩
  | fatal he => exact ⟨congrArg (fun e => Reply.failure (.fatal e)) he, nofun⟩
  | incomplete _ => exact ⟨rfl, nofun⟩
  | undecided _ hlax => exact hlax.elim
  | stuck hfault => exact hfault.elim

/-- A row of parsers ends alike in two ways if each of them does on shorter inputs and those do on
an input as long that stand behind none that consumes. -/
theorem inTurn_ending {κ : Type} {A : κ → Type} {p p' : (k : κ) → Parser ι ε (A k)} {m : Nat}
    (consumes : κ → Prop) {ks : List κ}
    (hshorter : ∀ k ∈ ks, (endingBelow ι σ ε m).Parsers Eq (p k) (p' k))
    (hguarded : ∀ before k after, ks = before ++ k :: after → (∀ b ∈ before, ¬ consumes b) →
      ∀ i, Valid i → Input.length i ≤ m → (ending ι σ ε).Runs Eq i (p k i) (p' k i) ∧
        (consumes k → ∀ v r, (p k i).reply = .success v r → Input.length r < Input.length i))
    {i : ι} (hi : Valid i) (hm : Input.length i ≤ m) :
    (ending ι σ ε).Runs Eq i (Parser.inTurn p ks i) (Parser.inTurn p' ks i) := by
  induction ks generalizing i with
  | nil => exact .success rfl ⟨hi, rfl⟩ (.refl hi)
  | cons k ks ih =>
    obtain ⟨-, hks⟩ := List.forall_mem_cons.1 hshorter
    obtain ⟨hk, hconsumed⟩ := hguarded [] k ks rfl nofun i hi hm
    refine hk.andThen_of_success fun {v v' r r'} hsuccess hv hr hfollows => ?_
    obtain ⟨hvalid, rfl⟩ := hr
    obtain rfl : v = v' := hv
    refine Runs.map (Runs.mono hfollows ?_) fun {vs vs'} (hvs : vs = vs') => by rw [hvs]
    by_cases hk' : consumes k
    · -- Behind a part that consumes every input is shorter.
      have hr : Input.length r < m := Nat.lt_of_lt_of_le (hconsumed hk' v r hsuccess) hm
      exact (inTurn_related hks ⟨⟨hvalid, rfl⟩, hr⟩).of_restrict
    · refine ih hks (fun before l after hsplit hbefore => ?_) hvalid
        (Nat.le_trans hfollows.length_le hm)
      exact hguarded (k :: before) l after (congrArg (k :: ·) hsplit)
        (List.forall_mem_cons.2 ⟨hk', hbefore⟩)

end Correspondence

/-! ## Rules that end -/

namespace Grammar

open Correspondence

variable {g : Grammar}

/-- On inputs of less than some length, the rules end alike whatever depth they are unfolded to and
whatever stands behind the names there, as long as the depth is no less. -/
def Settles (g : Grammar) (ι ε : Type) {σ : Type} [Input ι σ] [LawfulInput ι σ] [Symbol σ]
    [ParseError ε ι] (m : Nat) : Prop :=
  ∀ name, (g.body? name).isSome → ∀ (bottom bottom' : Expr.Env ι σ ε) (depth depth' : Nat),
    m ≤ depth → m ≤ depth' →
      (endingBelow ι σ ε m).ValueParsers (g.unfold bottom depth name)
        (g.unfold bottom' depth' name)

theorem lt_depthBound {name : String} (h : (g.body? name).isSome) (n : Nat) :
    n + 1 < g.depthBound n := by
  obtain ⟨body, hbody⟩ := Option.isSome_iff_exists.1 h
  have hpos : 0 < g.rules.length := List.length_pos_of_mem (mem_rules_of_body? hbody)
  have hle : n + 1 ≤ g.rules.length * (n + 1) := Nat.le_mul_of_pos_left _ hpos
  rw [depthBound]
  omega

/-- An expression ends on the inputs on which the rules do. -/
theorem endingBelow_eval {m : Nat} {env env' : Expr.Env ι σ ε} {e : Expr} (he : g.Defines e)
    (hroom : e.Reservable) (henv : ∀ name, (g.body? name).isSome →
      (endingBelow ι σ ε m).ValueParsers (env name) (env' name)) :
    (endingBelow ι σ ε m).ValueParsers (e.eval env) (e.eval env') := by
  have heval := eval_related ((hroom.and he).imp fun ⟨hroom, hpart⟩ =>
    endingBelow_admits m hroom fun name hname => henv name (hpart name hname))
  rwa [Expr.mapMode_id] at heval

/-- An expression that is no reference ends on all inputs on which its parts do. -/
theorem ending_of_parts {env env' : Expr.Env ι σ ε} {e : Expr} (hleaf : e.isRef = false)
    (hroom : e.HasRoom) {m : Nat}
    (hparts : ∀ part ∈ e.children, ∀ j, Valid j → Input.length j < m →
      (ending ι σ ε).Runs (Value.Related Eq Eq) j (part.eval env j) (part.eval env' j))
    {i : ι} (hi : Valid i) (hlt : Input.length i < m) :
    (ending ι σ ε).Runs (Value.Related Eq Eq) i (e.eval env i) (e.eval env' i) := by
  have hadmits : (endingBelow ι σ ε m).Admits env env' id id e := by
    refine endingBelow_admits m hroom fun name hname => ?_
    rw [hname] at hleaf
    cases hleaf
  have heval := eval_of_parts hadmits (fun part hpart j j' ⟨⟨hj, heq⟩, hlt⟩ => by
    subst heq
    rw [Expr.mapMode_id]
    exact endingBelow_of_ending hlt (hparts part hpart j hj hlt)) ⟨⟨hi, rfl⟩, hlt⟩
  rw [Expr.mapMode_id] at heval
  exact heval.of_restrict

/-- A sequence ends if its parts in turn do. -/
theorem ending_of_row {env env' : Expr.Env ι σ ε} {e : Expr} {t : Tree Expr}
    (ht : e.sequence? = some t) {i : ι}
    (hrow : (ending ι σ ε).Runs Eq i (Parser.inTurn (fun e => e.eval env) t.toList i)
      (Parser.inTurn (fun e => e.eval env') t.toList i)) :
    (ending ι σ ε).Runs (Value.Related Eq Eq) i (e.eval env i) (e.eval env' i) := by
  obtain ⟨join, hjoin⟩ := Expr.exists_join (ι := ι) (ε := ε) ht
  rw [← Parser.map_flat_pairs, ← Parser.map_flat_pairs] at hrow
  rw [hjoin, hjoin]
  exact (hrow.of_map t.flat_injective).map fun {v v'} (hv : v = v') => hv ▸ Value.related_refl _

/-- A guarded expression ends on an input if the rules end on shorter ones. -/
theorem ending_of_guarded (hbound : ∀ n, n ≤ g.depthBound n) {e : Expr}
    (hguarded : e.Guarded (g.Consumes ι ε)) (he : g.Defines e) (hroom : e.Reservable) {m : Nat}
    (h : ∀ k ≤ m, g.Settles ι ε k) (bottom bottom' : Expr.Env ι σ ε) {depth depth' : Nat}
    (hdepth : m ≤ depth) (hdepth' : m ≤ depth') {i : ι} (hi : Valid i)
    (hle : Input.length i ≤ m) :
    (ending ι σ ε).Runs (Value.Related Eq Eq) i (e.eval (g.unfold bottom depth) i)
      (e.eval (g.unfold bottom' depth') i) := by
  induction hguarded generalizing m bottom' depth' i with
  | @parts e hleaf _ ih =>
    exact ending_of_parts hleaf hroom.here (fun part hpart j hj hlt => ih part hpart
      (he.part hpart) (hroom.part hpart) h bottom' hdepth hdepth' hj (Nat.le_of_lt_succ hlt)) hi
      (Nat.lt_succ_of_le hle)
  | @sequence e t ht _ ih =>
    have hparts := Expr.every_sequence ht he
    have hrooms := Expr.every_sequence ht hroom
    refine ending_of_row ht (inTurn_ending (g.Consumes ι ε) (fun part hpart j j' hj => ?_)
      (fun before part after hsplit hbefore j hj hle => ?_) hi hle)
    · have hrules := fun name hname =>
        h m (Nat.le_refl m) name hname bottom bottom' depth depth' hdepth hdepth'
      exact (endingBelow_eval (hparts part hpart) (hrooms part hpart) hrules hj).imp
        Value.Related.eq
    · have hmem : part ∈ t.toList := by rw [hsplit]; simp
      have hpart := hparts part hmem
      have hroom := hrooms part hmem
      refine ⟨(ih before part after hsplit hbefore hpart hroom h bottom' hdepth hdepth' hj hle).imp
        Value.Related.eq, fun hconsumes v r hsuccess => hconsumes j hj v r ?_⟩
      -- The run is compared with that of the grammar, for which the part is known to consume.
      have hparse := ih before part after hsplit hbefore hpart hroom
        (fun k hk => h k (Nat.le_trans hk hle)) (fun _ _ => .stuck .tooDeep)
        (Nat.le_trans hle hdepth) (hbound (Input.length j)) hj (Nat.le_refl _)
      exact (reply_eq_of_ending (hparse.imp Value.Related.eq)).1.symm.trans hsuccess

/-- The rules of a guarded grammar end on every input. -/
theorem settles (hguarded : ∀ rule ∈ g.rules, rule.2.Guarded (g.Consumes ι ε))
    (hdefined : ∀ rule ∈ g.rules, g.Defines rule.2) (hroom : g.Reservable) (m : Nat) :
    g.Settles ι ε m := by
  induction m using Nat.strongRecOn with
  | ind m ih =>
    rintro name hname bottom bottom' depth depth' hdepth hdepth' i _ ⟨⟨hi, rfl⟩, hlt⟩
    obtain ⟨body, hbody⟩ := Option.isSome_iff_exists.1 hname
    have hmem := mem_rules_of_body? hbody
    have hbound : ∀ n, n ≤ g.depthBound n := fun n =>
      Nat.le_of_lt (Nat.lt_of_succ_lt (lt_depthBound hname n))
    obtain ⟨depth, rfl⟩ : ∃ d, depth = d + 1 := Nat.exists_eq_succ_of_ne_zero (by omega)
    obtain ⟨depth', rfl⟩ : ∃ d, depth' = d + 1 := Nat.exists_eq_succ_of_ne_zero (by omega)
    have hruns : (ending ι σ ε).Runs (Value.Related Eq Eq) i
        (body.eval (g.unfold bottom depth) i) (body.eval (g.unfold bottom' depth') i) :=
      ending_of_guarded hbound (hguarded _ hmem) (hdefined _ hmem) (hroom _ hmem)
        (fun k hk => ih k (Nat.lt_of_le_of_lt hk hlt)) bottom bottom' (by omega) (by omega) hi
        (Nat.le_refl _)
    unfold unfold
    rw [hbody]
    exact endingBelow_of_ending hlt hruns

end Grammar

/-! ## Scanners that consume -/

omit [Symbol σ] in
/-- A judgement succeeds with what it takes. -/
theorem Judgement.exists_takes {α : Type} {mode : Mode} {value : ι → List σ → α} {i r : ι} {v : α}
    {j : Judgement} (h : (j.run mode value i : Run ι ε α).reply = .success v r) :
    ∃ count, j.verdict = .takes count ∧ r = (parts count i).2 := by
  have hverdict : (j.verdict.run value i : Run ι ε α).reply = .success v r := by
    unfold run at h
    split at h
    · exact h
    · cases mode with
      | complete => exact h
      | streaming => cases h
  cases hj : j.verdict with
  | takes count =>
    rw [hj] at hverdict
    cases hverdict
    exact ⟨count, rfl, rfl⟩
  | refuses kind =>
    rw [hj] at hverdict
    cases hverdict

/-- A scanner that does not succeed with nothing consumes, in any mode. -/
theorem Scan.Nonempty.consumes {s : Scan} (hs : s.Nonempty) (g : Grammar) (mode : Mode) :
    g.Consumes ι ε (.scan mode s) := by
  intro i hi v r hsuccess
  have hscan : (s.parser mode i : Run ι ε (Value ι σ)).reply = .success v r := hsuccess
  rw [parser_eq hi] at hscan
  obtain ⟨count, hcount, rfl⟩ := Judgement.exists_takes hscan
  exact length_parts_lt hi (hs.pos_of_takes hcount) (le_length_of_takes hcount)

/-! ## Loops that end -/

/-- A confined parser leads from valid inputs to valid ones and never to longer ones. -/
theorem Correspondence.keeps_of_confined {α : Type} {V : α → α → Prop} {tolerates : Fault → Prop}
    {p : Parser ι ε α} (h : (confined ι σ ε tolerates).Parsers V p p) : p.Keeps Valid :=
  fun _ hi _ _ hsuccess =>
    have hrest := isRemainder_of_success h hi hsuccess
    ⟨hrest.valid, hrest.length_le⟩

/-- With the rules of any grammar behind its references, no expression grows its input. -/
theorem Grammar.keeps_eval (g : Grammar) (e : Expr) :
    Parser.Keeps Valid (e.eval fun name => (g.parse (.ref name) : Parser ι ε (Value ι σ))) := by
  have hrules : ∀ name, (Correspondence.confined ι σ ε fun _ => True).ValueParsers
      (g.parse (.ref name)) (g.parse (.ref name)) := fun _ =>
    Correspondence.confined_parse (fun _ => trivial) trivial (.inr trivial)
  exact Correspondence.keeps_of_confined (Correspondence.confined_eval (.inr trivial)
    (Expr.every_of_forall (fun _ name _ => hrules name) e))

/-! ## Guarded grammars end -/

open Correspondence

end ParseKit
