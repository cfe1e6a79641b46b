/-
  Repetitions and lists keep correspondence.

  The two runs of a repetition go on and stop together: related inputs are
  shortened together, so the induction on the length of the first input
  carries both.
-/
import ParseKit.Parser.Separated
import ParseKit.Proofs.Correspondence.Basic
import ParseKit.Proofs.Parser.Repeat

set_option autoImplicit false

namespace ParseKit

/-- Collectors that request and take in related values alike. -/
structure Collector.Related {α α' β β' γ γ' : Type} (K : γ → γ' → Prop) (V : α → α' → Prop)
    (W : β → β' → Prop) (c : Collector α γ β) (c' : Collector α' γ' β') : Prop where
  start : K c.start c'.start
  wants : ∀ {k k'}, K k k' → c.wants k = c'.wants k'
  push : ∀ {k k' v v'}, K k k' → V v v' → K (c.push k v) (c'.push k' v')
  finish : ∀ {k k'}, K k k' → W (c.finish k 0) (c'.finish k' 0)

namespace Correspondence

variable {ι σ ε ι' σ' ε' : Type} [Input ι σ] [Symbol σ] [ParseError ε ι]
  [Input ι' σ'] [Symbol σ'] [ParseError ε' ι'] {C : Correspondence ι σ ε ι' σ' ε'}
  {α α' β β' γ γ' : Type} {V : α → α' → Prop} {W : β → β' → Prop} {K : γ → γ' → Prop}
  {p : Parser ι ε α} {p' : Parser ι' ε' α'} {q : Parser ι ε β} {q' : Parser ι' ε' β'}

/-! ## Requests -/

/-- The answers to a request on both sides: two values and related states behind them, or the
end of both repetitions with corresponding conclusions, or, where that leaves the second run
free, the end of the first one for want of input. -/
inductive Pulls (C : Correspondence ι σ ε ι' σ' ε') (V : α → α' → Prop) (i : ι) :
    Pull ι ε α → Pull ι' ε' α' → Prop
  | item {log log' v v' r r'} : V v v' → C.input r r' → C.follows i r →
    Input.length r < Input.length i →
    Pulls C V i ⟨log, some v, .start r⟩ ⟨log', some v', .start r'⟩
  | ended {log log' s s'} : (∀ {β β' : Type} {W : β → β' → Prop} {w w'}, W w w' →
      C.Runs W i (s.conclude w) (s'.conclude w')) →
    Pulls C V i ⟨log, none, s⟩ ⟨log', none, s'⟩
  | undecided {log s} (pull') : C.lax →
    (∀ {β : Type} (w : β), (s.conclude w).reply = .failure .incomplete) →
    Pulls C V i ⟨log, none, s⟩ pull'

theorem Parsers.next {i : ι} {i' : ι'} (guard : ErrorKind) (hp : C.Parsers V p p')
    (hi : C.input i i') :
    Pulls C V i ((Repeater.start i).next p guard) ((Repeater.start i').next p' guard) := by
  have h := hp hi
  unfold Runs at h
  unfold Repeater.start
  generalize hreply : (p i).reply = reply at h
  generalize hreply' : (p' i').reply = reply' at h
  cases h with
  | @success _ _ r r' hv hr hfollows =>
    have hshortens := shortens_iff hi hr hfollows
    have hkeeps := keeps_length_iff hi hr hfollows
    rcases Nat.lt_trichotomy (Input.length r) (Input.length i) with hlt | hlength | hgrown
    · rw [Repeater.next_of_success guard hreply hlt,
        Repeater.next_of_success guard hreply' (hshortens.1 hlt)]
      exact .item hv hr hfollows hlt
    · rw [Repeater.next_of_stalled guard hreply hlength,
        Repeater.next_of_stalled guard hreply' (hkeeps.1 hlength)]
      exact .ended fun _ => .recoverable (C.error_ofKind guard hi)
    · have hgrown' : Input.length i' < Input.length r' := by
        have := mt hshortens.2 (Nat.lt_asymm hgrown)
        have := mt hkeeps.2 (Nat.ne_of_gt hgrown)
        omega
      rw [Repeater.next_of_grown guard hreply hgrown, Repeater.next_of_grown guard hreply' hgrown']
      exact .ended fun _ => .stuck (C.grown hi hr hfollows (if_neg (Nat.not_le.2 hgrown)))
  | recoverable _ =>
    simp only [Repeater.next, hreply, hreply']
    exact .ended fun hw => .success hw hi (C.follows_refl hi)
  | fatal he =>
    simp only [Repeater.next, hreply, hreply']
    exact .ended fun _ => .fatal he
  | incomplete hwaits =>
    simp only [Repeater.next, hreply, hreply']
    exact .ended fun _ => .incomplete hwaits
  | undecided _ hlax =>
    simp only [Repeater.next, hreply]
    exact .undecided _ hlax fun _ => rfl
  | stuck hfault =>
    simp only [Repeater.next, hreply, hreply']
    exact .ended fun _ => .stuck hfault

/-! ## Unbounded repetition -/

/-- Related collectors drive corresponding repetitions to corresponding ends. -/
theorem Parsers.drive {c : Collector α γ β} {c' : Collector α' γ' β'} {k : γ} {k' : γ'}
    {i : ι} {i' : ι'} (guard : ErrorKind) (hc : Collector.Related K V W c c')
    (hp : C.Parsers V p p') (hk : K k k') (hi : C.input i i') :
    C.Runs W i (c.drive p guard k (.start i)) (c'.drive p' guard k' (.start i')) := by
  cases hwants : c.wants k with
  | false =>
    have hwants' := (hc.wants hk).symm.trans hwants
    rw [Collector.drive_of_not_wants hwants, Collector.drive_of_not_wants hwants']
    exact .success (hc.finish hk) hi (C.follows_refl hi)
  | true =>
    have hwants' := (hc.wants hk).symm.trans hwants
    have hnext := hp.next guard hi
    generalize hpull : (Repeater.start i).next p guard = pull at hnext
    generalize hpull' : (Repeater.start i').next p' guard = pull' at hnext
    cases hnext with
    | item hv hr hfollows hlt =>
      rw [Collector.drive_of_item hwants (congrArg Pull.item? hpull),
        Collector.drive_of_item hwants' (congrArg Pull.item? hpull'), hpull, hpull']
      exact (hp.drive guard hc (hc.push hk hv) hr).mono hfollows
    | ended hconclude =>
      rw [Collector.drive_of_none hwants (congrArg Pull.item? hpull),
        Collector.drive_of_none hwants' (congrArg Pull.item? hpull'), hpull, hpull']
      exact hconclude (hc.finish hk)
    | undecided _ hlax hconclude =>
      rw [Collector.drive_of_none hwants (congrArg Pull.item? hpull), hpull]
      have h := hconclude (c.finish k 0)
      unfold Runs
      change C.Replies W i ((Repeater.conclude (c.finish k 0) _).reply) _
      rw [h]
      exact .undecided _ hlax
termination_by Input.length i
decreasing_by assumption

theorem Parsers.collectMany0 {c : Collector α γ β} {c' : Collector α' γ' β'}
    (hc : Collector.Related K V W c c') (hp : C.Parsers V p p') :
    C.Parsers W (Parser.collectMany0 c p) (Parser.collectMany0 c' p') :=
  fun _ _ hi => hp.drive .many0 hc hc.start hi

theorem Parsers.collectMany1 {c : Collector α γ β} {c' : Collector α' γ' β'}
    (hc : Collector.Related K V W c c') (hp : C.Parsers V p p') :
    C.Parsers W (Parser.collectMany1 c p) (Parser.collectMany1 c' p') := by
  intro i i' hi
  refine (hp hi).handle (fun hv hr hfollows => ?_) fun he => .wrap .many1 hi he
  rw [hc.wants hc.start, ← dite_eq_ite, ← dite_eq_ite]
  refine .unless_stalled .many1 hi hr hfollows hi (C.follows_refl hi) fun _ _ => ?_
  split
  · exact (hp.drive .many1 hc (hc.push hc.start hv) hr).mono hfollows
  · exact .success (hc.finish hc.start) hr hfollows

/-! ## Counted repetition -/

theorem Parsers.countFrom {o i : ι} {o' i' : ι'} (ho : C.input o o') (hp : C.Parsers V p p')
    (n : Nat) (hi : C.input i i') (hfollows : C.follows o i) :
    C.Runs (List.Forall₂ V) o (Parser.countFrom o p n i) (Parser.countFrom o' p' n i') := by
  induction n generalizing i i' with
  | zero => exact .success .nil hi hfollows
  | succ n ih =>
    refine (hp hi).handle_of_mono (C.error_mono hfollows) (fun hv hr hfollows' => ?_)
      fun he => .wrap .count ho he
    exact (ih hr (C.follows_trans hfollows hfollows')).map fun hvs => .cons hv hvs

theorem Parsers.count (n : Nat) (hp : C.Parsers V p p') :
    C.Parsers (List.Forall₂ V) (Parser.count n p) (Parser.count n p') :=
  fun _ _ hi => hp.countFrom hi n hi (C.follows_refl hi)

/-- Parsers that reserve the same room correspond if a lack of it is tolerated. -/
theorem Parsers.reserving {n : Nat} (hroom : Parser.maxReserved < n → C.tolerates .unreserved)
    (hp : C.Parsers V p p') : C.Parsers V (Parser.reserving n p) (Parser.reserving n p') := by
  intro i i' hi
  unfold Parser.reserving
  split
  · exact hp hi
  · exact .stuck (hroom (Nat.lt_of_not_le ‹_›))

theorem Parsers.boundedFrom {o i : ι} {o' i' : ι'} (min max taken : Nat) (ho : C.input o o')
    (hp : C.Parsers V p p') (hi : C.input i i') (hfollows : C.follows o i) :
    C.Runs (List.Forall₂ V) o (Parser.boundedFrom o min max p taken i)
      (Parser.boundedFrom o' min max p' taken i') := by
  rw [Parser.boundedFrom, Parser.boundedFrom]
  split
  · refine (hp hi).handle_of_mono (C.error_mono hfollows)
      (fun {_ _ r _} hv hr hfollows' => ?_) fun he => ?_
    · refine .unless_stalled .manyMN hi hr hfollows' hi hfollows fun hlt _ => ?_
      exact (hp.boundedFrom min max (taken + 1) ho hr (C.follows_trans hfollows hfollows')).map
        fun hvs => .cons hv hvs
    · split
      · exact .wrap .manyMN ho he
      · exact .success .nil hi hfollows
  · exact .success .nil hi hfollows
termination_by Input.length i
decreasing_by assumption

theorem Parsers.manyMN (min max : Nat) (hp : C.Parsers V p p') :
    C.Parsers (List.Forall₂ V) (Parser.manyMN min max p) (Parser.manyMN min max p') := by
  intro i i' hi
  unfold Parser.manyMN
  split
  · exact .reject .manyMN hi
  · exact hp.boundedFrom min max 0 hi hi (C.follows_refl hi)

/-! ## Repetition up to a terminator -/

theorem Parsers.manyTill (hp : C.Parsers V p p') (hq : C.Parsers W q q') :
    C.Parsers (fun found found' => List.Forall₂ V found.1 found'.1 ∧ W found.2 found'.2)
      (Parser.manyTill p q) (Parser.manyTill p' q') := by
  intro i i' hi
  rw [Parser.manyTill, Parser.manyTill]
  refine (hq hi).handle (fun hw hr hfollows => .success ⟨.nil, hw⟩ hr hfollows) fun _ => ?_
  refine (hp hi).handle (fun {_ _ r _} hv hr hfollows => ?_) fun he => .wrap .manyTill hi he
  refine .unless_stalled .manyTill hi hr hfollows hi (C.follows_refl hi) fun hlt _ => ?_
  exact ((hp.manyTill hq hr).mono hfollows).map fun hfound => ⟨.cons hv hfound.1, hfound.2⟩
termination_by i => Input.length i
decreasing_by assumption

/-! ## Separated lists -/

theorem Parsers.separatedTail (hq : C.Parsers W q q') (hp : C.Parsers V p p') :
    C.Parsers (List.Forall₂ V) (Parser.separatedTail q p) (Parser.separatedTail q' p') := by
  intro i i' hi
  rw [Parser.separatedTail, Parser.separatedTail]
  refine (hq hi).handle (fun {_ _ s _} _ hs hfollows => ?_)
    fun _ => .success .nil hi (C.follows_refl hi)
  refine .unless_stalled .separatedList hi hs hfollows hi (C.follows_refl hi) fun hsep _ => ?_
  refine (hp hs).handle_of_mono (C.error_mono hfollows) (fun {_ _ r _} hv hr hfollows' => ?_)
    fun _ => .success .nil hi (C.follows_refl hi)
  refine .unless_stalled .separatedList hs hr hfollows' hi (C.follows_refl hi) fun hitem _ => ?_
  exact ((hq.separatedTail hp hr).mono (C.follows_trans hfollows hfollows')).map
    fun hvs => .cons hv hvs
termination_by i => Input.length i
decreasing_by omega

theorem Parsers.separatedAfter {v : α} {v' : α'} {i r : ι} {i' r' : ι'} (hq : C.Parsers W q q')
    (hp : C.Parsers V p p') (hi : C.input i i') (hv : V v v') (hr : C.input r r')
    (hfollows : C.follows i r) :
    C.Runs (List.Forall₂ V) i (Parser.separatedAfter q p i v r)
      (Parser.separatedAfter q' p' i' v' r') := by
  unfold Parser.separatedAfter
  rw [← dite_eq_ite, ← dite_eq_ite]
  refine .unless_stalled .separatedList hi hr hfollows hi (C.follows_refl hi) fun _ _ => ?_
  exact ((hq.separatedTail hp hr).mono hfollows).map fun hvs => .cons hv hvs

theorem Parsers.separatedList (hq : C.Parsers W q q') (hp : C.Parsers V p p') :
    C.Parsers (List.Forall₂ V) (Parser.separatedList q p) (Parser.separatedList q' p') :=
  fun _ _ hi => (hp hi).handle (hq.separatedAfter hp hi)
    fun _ => .success .nil hi (C.follows_refl hi)

theorem Parsers.separatedNonemptyList (hq : C.Parsers W q q') (hp : C.Parsers V p p') :
    C.Parsers (List.Forall₂ V) (Parser.separatedNonemptyList q p)
      (Parser.separatedNonemptyList q' p') :=
  fun _ _ hi => (hp hi).andThen (hq.separatedAfter hp hi)

end Correspondence

end ParseKit
