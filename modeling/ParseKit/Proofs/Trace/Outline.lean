/-
  The shape of a trace.

  A log in which every span is closed is an outline: events and spans in a
  row, and within each span an outline again, with the outcome of the span
  behind it.  Its records are numbered by how many spans they lie in, and the
  depth behind it is the depth before it.
-/
import ParseKit.Trace

set_option autoImplicit false

namespace ParseKit

/-! ## Outcomes and other events -/

/-- Whether an event is the outcome of a traced parser. -/
def Event.isOutcome : Event → Bool
  | .matched _ | .incomplete | .noMatch _ | .fatal _ => true
  | _ => false

/-- A log without its spans and their outcomes. -/
def Signal.untraced (log : List Signal) : List Signal :=
  log.filter fun
    | .event e => !e.isOutcome
    | _ => false

namespace Record

/-- The number of spans a record lies in. -/
def depth : Record → Nat
  | .span depth _ _ => depth
  | .event depth _ => depth

def isOutcome : Record → Bool
  | .span _ _ _ => false
  | .event _ e => e.isOutcome

/-- What is left of a record when spans and outcomes are left out, apart from its depth. -/
def remaining? : Record → Option Event
  | .span _ _ _ => none
  | .event _ e => if e.isOutcome then none else some e

end Record

namespace Signal

@[simp]
theorem untraced_append (log log' : List Signal) :
    untraced (log ++ log') = untraced log ++ untraced log' :=
  List.filter_append ..

@[simp]
theorem untraced_enter (rule : String) (length : Nat) (log : List Signal) :
    untraced (.enter rule length :: log) = untraced log := rfl

theorem untraced_outcome {e : Event} (he : e.isOutcome = true) (log : List Signal) :
    untraced (.event e :: log) = untraced log := by
  simp [untraced, he]

theorem untraced_event {e : Event} (he : e.isOutcome = false) (log : List Signal) :
    untraced (.event e :: log) = .event e :: untraced log := by
  simp [untraced, he]

end Signal

/-- Without spans and outcomes the same events are left in order, all at one depth. -/
theorem Record.ofSignals_untraced (depth depth' : Nat) (log : List Signal) :
    ofSignals depth' (Signal.untraced log) =
      ((ofSignals depth log).filterMap remaining?).map (.event depth') := by
  fun_induction ofSignals depth log with
  | case1 => rfl
  | case2 depth rule length rest ih => exact ih
  | case3 depth e rest ih =>
    cases he : e.isOutcome with
    | true =>
      rw [Signal.untraced_outcome he, ih, List.filterMap_cons, remaining?, he]
      rfl
    | false =>
      rw [Signal.untraced_event he, ofSignals, ih, List.filterMap_cons, remaining?, he]
      rfl
  | case4 depth rest ih => exact ih

/-! ## Outlines -/

/-- Events and spans in a row, with what lies inside each span and its outcome. -/
inductive Outline
  | done
  | event (e : Event) (next : Outline)
  | span (rule : String) (length : Nat) (inside : Outline) (outcome : Event) (next : Outline)

namespace Outline

/-- The log of an outline. -/
def signals : Outline → List Signal
  | .done => []
  | .event e next => .event e :: next.signals
  | .span rule length inside outcome next =>
    .enter rule length :: (inside.signals ++ .event outcome :: .leave :: next.signals)

/-- The records of an outline: what lies in a span is numbered one higher than the span, and its
outcome comes last. -/
def records (depth : Nat) : Outline → List Record
  | .done => []
  | .event e next => .event depth e :: next.records depth
  | .span rule length inside outcome next =>
    .span depth rule length ::
      (inside.records (depth + 1) ++ .event (depth + 1) outcome :: next.records depth)

/-- One outline behind another. -/
def append : Outline → Outline → Outline
  | .done, o => o
  | .event e next, o => .event e (next.append o)
  | .span rule length inside outcome next, o => .span rule length inside outcome (next.append o)

theorem signals_append (o o' : Outline) : (o.append o').signals = o.signals ++ o'.signals := by
  induction o with
  | done => rfl
  | event e next ih => rw [append, signals, ih, signals, List.cons_append]
  | span rule length inside outcome next _ ih =>
    rw [append, signals, ih, signals]
    simp only [List.cons_append, List.append_assoc]

/-- Every span of an outline is closed. -/
theorem depthAfter_signals (depth : Nat) (o : Outline) :
    Signal.depthAfter depth o.signals = depth := by
  induction o generalizing depth with
  | done => rfl
  | event e next ih => exact ih depth
  | span rule length inside outcome next ihinside ih =>
    rw [signals, Signal.depthAfter, Signal.depthAfter_append, ihinside]
    exact ih depth

/-- The records of an outline are those of its log. -/
theorem ofSignals_signals (depth : Nat) (o : Outline) :
    Record.ofSignals depth o.signals = o.records depth := by
  induction o generalizing depth with
  | done => rfl
  | event e next ih => exact congrArg (Record.event depth e :: ·) (ih depth)
  | span rule length inside outcome next ihinside ih =>
    rw [signals, records, Record.ofSignals, Record.ofSignals_append, depthAfter_signals, ihinside,
      ← ih depth]
    rfl

/-! ## Outlines of traced parsers -/

/-- An outline whose spans are those of some applications of traced parsers, each with its outcome,
and whose other events are no outcomes. -/
inductive Shows (application : String → Nat → Outline → Event → Prop) : Outline → Prop
  | done : Shows application .done
  | event {e : Event} {next : Outline} : e.isOutcome = false → Shows application next →
    Shows application (.event e next)
  | span {rule : String} {length : Nat} {inside next : Outline} {outcome : Event} :
    application rule length inside outcome → outcome.isOutcome = true →
      Shows application inside → Shows application next →
        Shows application (.span rule length inside outcome next)

namespace Shows

variable {application : String → Nat → Outline → Event → Prop} {o o' : Outline}

theorem append (h : o.Shows application) (h' : o'.Shows application) :
    (o.append o').Shows application := by
  induction h with
  | done => exact h'
  | event he _ ih => exact .event he ih
  | span happlication houtcome hinside _ _ ih => exact .span happlication houtcome hinside ih

/-- The records of an outline lie at its depth or deeper, and all outcomes among them lie deeper:
those at the depth itself are the outcomes of spans around it. -/
theorem depth_le (h : o.Shows application) {depth : Nat} {r : Record}
    (hr : r ∈ o.records depth) : depth ≤ r.depth ∧ (r.isOutcome = true → depth < r.depth) := by
  induction h generalizing depth with
  | done => cases hr
  | event he _ ih =>
    rcases List.mem_cons.1 hr with rfl | hr
    · exact ⟨Nat.le_refl _, fun houtcome => absurd (houtcome.symm.trans he) Bool.noConfusion⟩
    · exact ih hr
  | span _ _ _ _ ihinside ih =>
    rcases List.mem_cons.1 hr with rfl | hr
    · exact ⟨Nat.le_refl _, fun houtcome => absurd houtcome Bool.noConfusion⟩
    · rcases List.mem_append.1 hr with hr | hr
      · obtain ⟨hle, -⟩ := ihinside hr
        exact ⟨by omega, fun _ => by omega⟩
      · rcases List.mem_cons.1 hr with rfl | hr
        · exact ⟨Nat.le_succ _, fun _ => Nat.lt_succ_self _⟩
        · exact ih hr

end Shows

end Outline

end ParseKit
