/-
  What runs owe to the applications of leaves in them.

  A failure that no combinator goes on after stops a parse: the application
  that fails so is the last one.  The invariant `Run.Owes` ties a run to the
  applications in it: their spans, their stop and what primitives may not do.
  `Run.Owes.handle` is the step that all combinators share.
-/
import ParseKit.Proofs.Parser.Applications

set_option autoImplicit false

namespace ParseKit

variable {ι ε ε' α β : Type}

/-! ## Failures that stop a parse -/

/-- A failure that no combinator goes on after. -/
def Reply.stop? : Reply ι ε α → Option (Failure ε)
  | .failure .incomplete => some .incomplete
  | .failure (.fatal e) => some (.fatal e)
  | _ => none

theorem Reply.eq_of_stop? {reply : Reply ι ε α} {f : Failure ε} (h : reply.stop? = some f) :
    reply = .failure f := by
  rcases reply with ⟨value, rest⟩ | ⟨_ | e | e⟩ | fault <;> cases h <;> rfl

namespace Application

/-- The failure of an application that no combinator around it goes on after. -/
def stop? (a : Application ε) : Option (Failure ε) :=
  match a.failure? with
  | some .incomplete => if a.completed then none else some .incomplete
  | some (.fatal e) => some (.fatal (a.change e))
  | _ => none

@[simp]
theorem stop?_of (origin : Origin) (run : Run ι ε α) :
    (of origin run).stop? = run.reply.stop? := by
  rcases run with ⟨log, ⟨value, rest⟩ | ⟨_ | e | e⟩ | fault⟩ <;> rfl

@[simp]
theorem stop?_mapError (f : ε → ε') (a : Application ε) :
    (a.mapError f).stop? = a.stop?.map (Failure.map f) := by
  rcases a with ⟨origin, Error, log, _ | _ | e | e, change, _ | _⟩ <;> rfl

@[simp]
theorem stop?_complete (a : Application ε) :
    a.complete.stop? = a.stop?.filter Failure.isFatal := by
  rcases a with ⟨origin, Error, log, _ | _ | e | e, change, _ | _⟩ <;> rfl

theorem stop?_eq_fatal_iff {a : Application ε} {e : ε} :
    a.stop? = some (.fatal e) ↔ ∃ raw, a.failure? = some (.fatal raw) ∧ a.change raw = e := by
  rcases a with ⟨origin, Error, log, _ | _ | raw | raw, change, _ | _⟩ <;> simp [stop?]

theorem stop?_eq_incomplete_iff {a : Application ε} :
    a.stop? = some .incomplete ↔ a.failure? = some .incomplete ∧ a.completed = false := by
  rcases a with ⟨origin, Error, log, _ | _ | raw | raw, change, _ | _⟩ <;> simp [stop?]

/-- Primitives do not fail fatally, and those in complete mode ask for no more input. -/
def Lawful (a : Application ε) : Prop :=
  (∀ e, a.failure? = some (.fatal e) → a.origin = .client) ∧
    (a.failure? = some .incomplete → a.origin = .client ∨ a.origin = .primitive .streaming)

end Application

/-- Applications in a row with the failure that stops the parse: there is none, or it is that of
the last application. -/
inductive Application.Stops : List (Application ε) → Option (Failure ε) → Prop
  | running {applications} : (∀ a ∈ applications, a.stop? = none) → Stops applications none
  | stopped {before a f} : (∀ a ∈ before, a.stop? = none) → a.stop? = some f →
    Stops (before ++ [a]) (some f)

namespace Application.Stops

variable {before after applications : List (Application ε)} {a : Application ε}
  {f : Failure ε} {stop : Option (Failure ε)}

theorem none_iff : Stops applications none ↔ ∀ a ∈ applications, a.stop? = none :=
  ⟨fun | .running h => h, .running⟩

theorem single (a : Application ε) : Stops [a] a.stop? := by
  cases h : a.stop? with
  | none => exact .running (List.forall_mem_singleton.2 h)
  | some f => exact @Stops.stopped ε [] a f (List.forall_mem_nil _) h

theorem prepend (hbefore : Stops before none) (h : Stops applications stop) :
    Stops (before ++ applications) stop := by
  rw [none_iff] at hbefore
  cases h with
  | running h => exact .running (List.forall_mem_append.2 ⟨hbefore, h⟩)
  | stopped h ha =>
    rw [← List.append_assoc]
    exact .stopped (List.forall_mem_append.2 ⟨hbefore, h⟩) ha

/-- A change of every application that goes through its stop goes through the stop of all. -/
theorem map {g : Application ε → Application ε'} {change : Option (Failure ε) → Option (Failure ε')}
    (hnone : change none = none) (hg : ∀ a, (g a).stop? = change a.stop?)
    (h : Stops applications stop) : Stops (applications.map g) (change stop) := by
  have hrunning : ∀ {l : List (Application ε)}, (∀ a ∈ l, a.stop? = none) →
      ∀ b ∈ l.map g, b.stop? = none := by
    intro l hl
    exact List.forall_mem_map.2 fun a ha => by rw [hg, hl a ha, hnone]
  cases h with
  | running h => exact hnone ▸ .running (hrunning h)
  | @stopped before a f h ha =>
    rw [List.map_append]
    refine prepend (none_iff.2 (hrunning h)) ?_
    rw [← ha, ← hg]
    exact single (g a)

/-- An application that stops the parse is the last one, and the parse stops with its failure. -/
theorem eq_of_stop (h : Stops (before ++ a :: after) stop) (ha : a.stop? = some f) :
    after = [] ∧ stop = some f := by
  generalize happlications : before ++ a :: after = applications at h
  cases h with
  | running hnone =>
    have hmem : a ∈ applications := by simp [← happlications]
    rw [hnone a hmem] at ha
    cases ha
  | @stopped before' last f' hbefore hlast =>
    rcases List.eq_nil_or_concat after with rfl | ⟨init, last', rfl⟩
    · obtain ⟨rfl, hlast'⟩ := List.append_inj' happlications rfl
      obtain rfl := List.head_eq_of_cons_eq hlast'
      exact ⟨rfl, hlast.symm.trans ha⟩
    · -- Then the application is among those before the last one, none of which stops.
      rw [List.concat_eq_append, ← List.cons_append, ← List.append_assoc] at happlications
      obtain ⟨rfl, -⟩ := List.append_inj' happlications rfl
      have hmem : a ∈ before ++ a :: init := by simp
      rw [hbefore a hmem] at ha
      cases ha

theorem exists_last (h : Stops applications (some f)) :
    ∃ before a, applications = before ++ [a] ∧ a.stop? = some f := by
  cases h with
  | @stopped before a f _ ha => exact ⟨before, a, rfl, ha⟩

end Application.Stops

/-! ## What a run owes to its applications -/

/-- The entries of a log that open spans of reserved names. -/
def Signal.reservedSpans (reserved : String → Bool) (log : List Signal) : List Signal :=
  log.filter fun
    | .enter rule _ => reserved rule
    | _ => false

/-- The applications are all there is behind a run: what they log in spans of reserved names is
what the run logs in such spans, and the failure that stops the parse, if there is one, is that of
the last of them. -/
structure Run.Owes (reserved : String → Bool) (run : Run ι ε α)
    (applications : List (Application ε)) : Prop where
  spans_eq : Signal.reservedSpans reserved run.log =
    applications.flatMap fun a => Signal.reservedSpans reserved a.log
  stops : Application.Stops applications run.reply.stop?
  lawful : ∀ a ∈ applications, a.Lawful

namespace Run.Owes

variable {reserved : String → Bool} {run : Run ι ε α} {applications : List (Application ε)}

/-- What a combinator replies of its own accord it owes to nobody. -/
theorem own (hlog : Signal.reservedSpans reserved run.log = []) (hreply : run.reply.stop? = none) :
    run.Owes reserved [] :=
  ⟨hlog, hreply ▸ .running (List.forall_mem_nil _), List.forall_mem_nil _⟩

theorem success (value : α) (rest : ι) : (Run.success value rest : Run ι ε α).Owes reserved [] :=
  own rfl rfl

theorem recoverable (e : ε) : (Run.recoverable e : Run ι ε α).Owes reserved [] :=
  own rfl rfl

theorem reject [ParseError ε ι] (i : ι) (kind : ErrorKind) :
    (Run.reject i kind : Run ι ε α).Owes reserved [] :=
  recoverable _

theorem stuck (fault : Fault) : (Run.stuck fault : Run ι ε α).Owes reserved [] :=
  own rfl rfl

theorem stalled {σ : Type} [Input ι σ] [ParseError ε ι] (event : Event) (kind : ErrorKind)
    (place before rest : ι) :
    (Run.stalled event kind place before rest : Run ι ε α).Owes reserved [] := by
  unfold Run.stalled
  split
  · exact own rfl rfl
  · exact .stuck .grown

/-- A leaf is its own only application. -/
theorem leaf {origin : Origin} (hlawful : (Application.of origin run).Lawful) :
    run.Owes reserved [.of origin run] :=
  ⟨(List.append_nil _).symm, Application.stop?_of origin run ▸ .single _,
    List.forall_mem_singleton.2 hlawful⟩

/-- Runs with the same spans that stop in the same way owe the same. -/
theorem of_eq {run' : Run ι ε β} (h : run.Owes reserved applications)
    (hlog : Signal.reservedSpans reserved run'.log = Signal.reservedSpans reserved run.log)
    (hreply : run'.reply.stop? = run.reply.stop?) : run'.Owes reserved applications :=
  ⟨hlog.trans h.spans_eq, hreply ▸ h.stops, h.lawful⟩

theorem noting (e : Event) (h : run.Owes reserved applications) :
    (run.noting e).Owes reserved applications :=
  h.of_eq rfl rfl

theorem map (f : α → β) (h : run.Owes reserved applications) :
    (run.map f).Owes reserved applications := by
  refine h.of_eq rfl ?_
  rcases run with ⟨log, ⟨value, rest⟩ | ⟨_ | e | e⟩ | fault⟩ <;> rfl

/-- A run behind another one that did not stop owes what both owe. -/
theorem append {run' : Run ι ε β} {applications' : List (Application ε)}
    (h : run.Owes reserved applications) (hreply : run.reply.stop? = none)
    (h' : run'.Owes reserved applications') :
    (run'.after run.log).Owes reserved (applications ++ applications') := by
  refine ⟨?_, (hreply ▸ h.stops).prepend h'.stops,
    List.forall_mem_append.2 ⟨h.lawful, h'.lawful⟩⟩
  rw [Run.after, List.flatMap_append, ← h.spans_eq, ← h'.spans_eq]
  exact List.filter_append ..

/-- Going on after a reply adds what is owed to the applications after it.  After a failure that
stops the parse there are none. -/
theorem handle {onSuccess : α → ι → Run ι ε β} {onMiss : ε → Run ι ε β}
    {next : α → ι → List (Application ε)} {miss : List (Application ε)}
    (h : run.Owes reserved applications)
    (hsuccess : ∀ value rest, (onSuccess value rest).Owes reserved (next value rest))
    (hmiss : ∀ e, (onMiss e).Owes reserved miss) :
    (run.handle onSuccess onMiss).Owes reserved
      (applications ++ run.reply.followed next miss) := by
  rcases run with ⟨log, reply⟩
  -- Behind a stop, and behind a fault, nothing is run and nothing more is owed.
  cases reply with
  | success value rest => exact h.append rfl (hsuccess value rest)
  | stuck fault => exact (List.append_nil applications).symm ▸ h.of_eq rfl rfl
  | failure f =>
    cases f with
    | incomplete => exact (List.append_nil applications).symm ▸ h.of_eq rfl rfl
    | recoverable e => exact h.append rfl (hmiss e)
    | fatal e => exact (List.append_nil applications).symm ▸ h.of_eq rfl rfl

theorem andThen {onSuccess : α → ι → Run ι ε β} {next : α → ι → List (Application ε)}
    (h : run.Owes reserved applications)
    (hsuccess : ∀ value rest, (onSuccess value rest).Owes reserved (next value rest)) :
    (run.andThen onSuccess).Owes reserved (applications ++ run.reply.followed next []) :=
  h.handle hsuccess recoverable

/-- Going on without an application owes nothing further. -/
theorem handle_own {onSuccess : α → ι → Run ι ε β} {onMiss : ε → Run ι ε β}
    (h : run.Owes reserved applications)
    (hsuccess : ∀ value rest, (onSuccess value rest).Owes reserved [])
    (hmiss : ∀ e, (onMiss e).Owes reserved []) :
    (run.handle onSuccess onMiss).Owes reserved applications := by
  have hnothing : run.reply.followed (fun _ _ => []) ([] : List (Application ε)) = [] := by
    rcases run with ⟨log, ⟨value, rest⟩ | ⟨_ | e | e⟩ | fault⟩ <;> rfl
  have hboth := h.handle hsuccess hmiss
  rwa [hnothing, List.append_nil] at hboth

theorem andThen_own {onSuccess : α → ι → Run ι ε β} (h : run.Owes reserved applications)
    (hsuccess : ∀ value rest, (onSuccess value rest).Owes reserved []) :
    (run.andThen onSuccess).Owes reserved applications :=
  h.handle_own hsuccess recoverable

theorem mapError (f : ε → ε') (h : run.Owes reserved applications) :
    (run.mapFailure (Failure.map f)).Owes reserved (applications.map (.mapError f)) := by
  refine ⟨?_, ?_, List.forall_mem_map.2 h.lawful⟩
  · rw [List.flatMap_map]
    exact h.spans_eq
  · have hstop : (run.mapFailure (Failure.map f)).reply.stop? =
        run.reply.stop?.map (Failure.map f) := by
      rcases run with ⟨log, ⟨value, rest⟩ | ⟨_ | e | e⟩ | fault⟩ <;> rfl
    rw [hstop]
    exact h.stops.map rfl (Application.stop?_mapError f)

/-- What is owed in each of two cases. -/
theorem ite {c : Prop} [Decidable c] {run' : Run ι ε α} {applications' : List (Application ε)}
    (h : c → run.Owes reserved applications) (h' : ¬ c → run'.Owes reserved applications') :
    (if c then run else run').Owes reserved (if c then applications else applications') := by
  split
  · exact h ‹_›
  · exact h' ‹_›

theorem dite {c : Prop} [Decidable c] {run : c → Run ι ε α} {run' : Run ι ε α}
    {applications : c → List (Application ε)} {applications' : List (Application ε)}
    (h : ∀ hc, (run hc).Owes reserved (applications hc))
    (h' : ¬ c → run'.Owes reserved applications') :
    (if hc : c then run hc else run').Owes reserved
      (if hc : c then applications hc else applications') := by
  split
  · exact h _
  · exact h' ‹_›

end Run.Owes

theorem Parser.owes_cut {σ : Type} [Input ι σ] {reserved : String → Bool} (n : Nat) (i : ι) :
    (cut n i : Run ι ε ι).Owes reserved [] := by
  unfold cut
  split
  · exact .success _ _
  · exact .stuck .offBoundary

/-! ## Combinators -/

section

variable {σ γ : Type} [Input ι σ] [ParseError ε ι] {reserved : String → Bool}
  {p : Parser ι ε α} {ps : Applications ι ε} {q : Parser ι ε β} {qs : Applications ι ε}

omit [Input ι σ] in
/-- Taking the end of the input as final keeps fatal failures, and no request for more input is
left. -/
theorem Run.Owes.complete {i : ι} (h : (p i).Owes reserved (ps i)) :
    (Parser.complete p i).Owes reserved ((ps i).map .complete) := by
  have hlog : (Parser.complete p i).log = (p i).log := by rw [Parser.complete_eq]
  have hstop : (Parser.complete p i).reply.stop? = (p i).reply.stop?.filter Failure.isFatal := by
    rw [Parser.complete_eq]
    rcases (p i).reply with ⟨value, rest⟩ | ⟨_ | e | e⟩ | fault <;> rfl
  refine ⟨?_, ?_, List.forall_mem_map.2 h.lawful⟩
  · rw [hlog, List.flatMap_map]
    exact h.spans_eq
  · rw [hstop]
    exact h.stops.map rfl Application.stop?_complete

theorem Run.Owes.traced {rule : String} (hrule : reserved rule = false) {i : ι}
    (h : (p i).Owes reserved (ps i)) : (Parser.traced rule p i).Owes reserved (ps i) := by
  refine h.of_eq ?_ ?_
  · unfold Parser.traced
    dsimp only
    split <;> simp [Signal.reservedSpans, hrule]
  · unfold Parser.traced
    dsimp only
    split
    · rfl
    · rename_i hreply
      rw [hreply]
    · rename_i hnone hstuck
      cases hreply : (p i).reply with
      | success value rest => rfl
      | stuck fault => exact absurd hreply (hstuck fault)
      | failure f => cases f <;> simp [hreply, Parser.outcome?] at hnone

/-! ## Repetitions -/

theorem Collector.owes_drive (c : Collector α γ β) (hp : ∀ i, (p i).Owes reserved (ps i))
    (guard : ErrorKind) (collected : γ) (i : ι) :
    (c.drive p guard collected ⟨i, none⟩).Owes reserved
      (Applications.ofDrive c p ps guard collected ⟨i, none⟩) := by
  -- As a plain loop, the collector goes on only behind a value that shortens the input.
  rw [drive_open, Applications.ofDrive_open]
  refine .ite (fun _ => ?_) fun _ => .success _ i
  refine (hp i).handle (fun value rest => ?_) fun _ => .noting _ (.success _ i)
  refine .ite (fun hlt => ?_) fun _ => .stalled _ guard i i rest
  exact c.owes_drive hp guard (c.push collected value) rest
termination_by Input.length i
decreasing_by exact hlt

theorem Parser.owes_countFrom (hp : ∀ i, (p i).Owes reserved (ps i)) (origin : ι) (n : Nat)
    (i : ι) : (countFrom origin p n i).Owes reserved (Applications.repeated p ps n i) := by
  induction n generalizing i with
  | zero => exact .success [] i
  | succ n ih => exact (hp i).handle (fun _ rest => (ih rest).map _) fun _ => .recoverable _

theorem Parser.owes_boundedFrom (hp : ∀ i, (p i).Owes reserved (ps i)) (origin : ι)
    {min max taken n : Nat} (hn : taken + n = max) (i : ι) :
    (boundedFrom origin min max p taken i).Owes reserved (Applications.bounded p ps n i) := by
  induction n generalizing taken i with
  | zero =>
    rw [boundedFrom, if_neg (by omega)]
    exact .success [] i
  | succ n ih =>
    rw [boundedFrom, if_pos (by omega)]
    refine (hp i).handle (fun value rest => ?_) fun e => ?_
    · refine .dite (fun _ => ?_) fun _ => .stalled _ .manyMN i i rest
      exact (ih (by omega) rest).map _
    · split
      · exact .recoverable _
      · exact .success [] i

theorem Parser.owes_manyTill (hp : ∀ i, (p i).Owes reserved (ps i))
    (hq : ∀ i, (q i).Owes reserved (qs i)) (i : ι) :
    (manyTill p q i).Owes reserved (Applications.manyTill p ps q qs i) := by
  rw [manyTill, Applications.manyTill]
  refine (hq i).handle (fun _ rest => .success _ rest) fun _ => ?_
  refine (hp i).handle (fun value rest => ?_) fun _ => .recoverable _
  refine .dite (fun hlt => ?_) fun _ => .stalled _ .manyTill i i rest
  exact (owes_manyTill hp hq rest).map _
termination_by Input.length i
decreasing_by exact hlt

theorem Parser.owes_separatedTail (hq : ∀ i, (q i).Owes reserved (qs i))
    (hp : ∀ i, (p i).Owes reserved (ps i)) (i : ι) :
    (separatedTail q p i).Owes reserved (Applications.separatedTail q qs p ps i) := by
  rw [separatedTail, Applications.separatedTail]
  refine (hq i).handle (fun _ afterSep => ?_) fun _ => .success [] i
  refine .dite (fun hsep => ?_) fun _ => .stalled _ .separatedList i i afterSep
  refine (hp afterSep).handle (fun value rest => ?_) fun _ => .noting _ (.success [] i)
  refine .dite (fun hitem => ?_) fun _ => .stalled _ .separatedList i afterSep rest
  exact (owes_separatedTail hq hp rest).map _
termination_by Input.length i
decreasing_by omega

theorem Parser.owes_separatedAfter (hq : ∀ i, (q i).Owes reserved (qs i))
    (hp : ∀ i, (p i).Owes reserved (ps i)) (i : ι) (first : α) (rest : ι) :
    (separatedAfter q p i first rest).Owes reserved
      (if Input.length rest < Input.length i then Applications.separatedTail q qs p ps rest
        else []) :=
  .ite (fun _ => (owes_separatedTail hq hp rest).map _) fun _ =>
    .stalled _ .separatedList i i rest

/-! ## Loops -/

omit [ParseError ε ι] in
theorem Loop.owes_within {loop : Loop ι ε α β} {round : List α → Applications ι ε}
    (h : ∀ origin items i, (loop origin items i).Owes reserved (round items i)) (origin : ι)
    (n : Nat) (items : List α) (i : ι) :
    (loop.within origin n items i).Owes reserved
      (Applications.ofRounds loop round origin n items i) := by
  induction n generalizing items i with
  | zero => exact .stuck .grown
  | succ n ih =>
    refine (h origin items i).andThen fun outcome rest => ?_
    cases outcome with
    | item value => exact ih (items ++ [value]) rest
    | result value => exact .success value rest

omit [ParseError ε ι] in
/-- A loop owes what its rounds do, however many it is given. -/
theorem Loop.owes_parser {loop : Loop ι ε α β} {round : List α → Applications ι ε}
    (h : ∀ origin items i, (loop origin items i).Owes reserved (round items i)) (rounds : ι → Nat)
    (i : ι) :
    (loop.parser rounds i).Owes reserved (Applications.ofLoop loop rounds round i) :=
  owes_within h i (rounds i) [] i

theorem Loop.owes_taking {event : Event} {kind : ErrorKind} {place before : ι} (value : α)
    (rest : ι) :
    (taking event kind place before value rest : Run ι ε (Round α β)).Owes reserved [] := by
  unfold taking
  split
  · exact .noting event (.reject place kind)
  · exact .success _ rest

theorem Loop.owes_collecting (c : Collector α γ β) (guard : ErrorKind)
    (hp : ∀ i, (p i).Owes reserved (ps i)) (origin : ι) (items : List α) (i : ι) :
    (collecting c guard p origin items i).Owes reserved (Applications.ofCollecting c ps items i) :=
  .ite (fun _ => (hp i).handle_own owes_taking fun _ => .noting _ (.success _ i)) fun _ =>
    .success _ i

theorem Loop.owes_collectingOnce (c : Collector α γ β) (hp : ∀ i, (p i).Owes reserved (ps i))
    (origin : ι) (items : List α) (i : ι) :
    (collectingOnce c p origin items i).Owes reserved
      (Applications.ofCollectingOnce c ps items i) := by
  cases items with
  | nil => exact (hp i).handle_own owes_taking fun _ => .recoverable _
  | cons first more =>
    exact .ite (fun _ => owes_collecting c .many1 hp origin (first :: more) i) fun _ => .success _ i

theorem Loop.owes_bounded {min max : Nat} (hp : ∀ i, (p i).Owes reserved (ps i)) (origin : ι)
    (items : List α) (i : ι) :
    (bounded min max p origin items i).Owes reserved (if items.length < max then ps i else []) := by
  refine .ite (fun _ => ?_) fun _ => .success _ i
  refine (hp i).handle_own owes_taking fun _ => ?_
  split
  · exact .recoverable _
  · exact .success _ i

theorem Loop.owes_till (hp : ∀ i, (p i).Owes reserved (ps i))
    (hq : ∀ i, (q i).Owes reserved (qs i)) (origin : ι) (items : List α) (i : ι) :
    (till p q origin items i).Owes reserved (Applications.orElse q qs ps i) := by
  refine (hq i).handle (fun _ rest => .success _ rest) fun _ => ?_
  exact (hp i).handle_own owes_taking fun _ => .recoverable _

theorem Loop.owes_separated {onMiss : ι → ε → Run ι ε (Round α (List α))}
    (hmiss : ∀ i e, (onMiss i e).Owes reserved []) (hq : ∀ i, (q i).Owes reserved (qs i))
    (hp : ∀ i, (p i).Owes reserved (ps i)) (origin : ι) (items : List α) (i : ι) :
    (separated q p onMiss origin items i).Owes reserved
      (Applications.ofSeparated q qs ps items i) := by
  cases items with
  | nil => exact (hp i).handle_own owes_taking (hmiss i)
  | cons first more =>
    refine (hq i).handle (fun _ afterSep => ?_) fun _ => .success _ i
    refine .ite (fun _ => .noting _ (.reject i .separatedList)) fun _ => ?_
    exact (hp afterSep).handle_own owes_taking fun _ => .noting _ (.success _ i)

end

end ParseKit
