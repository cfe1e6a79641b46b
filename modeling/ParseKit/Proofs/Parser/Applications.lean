/-
  Leaf applications.

  A parser assembled from combinators applies its leaves, primitives of the
  library and parsers given from outside, one after another.  For every
  combinator this module says which applications it makes, given those of
  its parts: a combinator applies a part to the remainder that another one
  leaves, or in its place where it fails recoverably, and it never goes on
  after a failure of another sort.  `Assembled` ties a parser to the
  applications it makes on each input.

  A leaf given from outside may leave a remainder longer than its input.  The
  repetitions give up there, as they may never end; their loops, given any
  number of rounds, go on.
-/
import ParseKit.Parser.Adapt
import ParseKit.Parser.Choice
import ParseKit.Parser.Scan
import ParseKit.Parser.Separated
import ParseKit.Parser.Sequence
import ParseKit.Proofs.Parser.Repeat
import ParseKit.Proofs.Parser.Rounds

set_option autoImplicit false

namespace ParseKit

/-! ## Applications -/

/-- Who has written a leaf. -/
inductive Origin
  /-- A primitive of the library, in a mode; one without modes counts as complete. -/
  | primitive (mode : Mode)
  | client
  deriving DecidableEq, Repr

/-- What is known of one application of a leaf, in a parser with errors of type `ε`. -/
structure Application (ε : Type) where
  origin : Origin
  /-- The type of the errors of the leaf. -/
  Error : Type
  log : List Signal
  /-- The failure the leaf replied with. -/
  failure? : Option (Failure Error)
  /-- What the changes of errors around the leaf make of an error of it. -/
  change : Error → ε
  /-- Whether a parser around the leaf takes the end of the input as final. -/
  completed : Bool

namespace Application

variable {ι ε ε' α : Type}

/-- The application that a run of a leaf is. -/
def of (origin : Origin) (run : Run ι ε α) : Application ε :=
  ⟨origin, ε, run.log, run.reply.failure?, id, false⟩

/-- The application with one more change of errors around it. -/
def mapError (f : ε → ε') (a : Application ε) : Application ε' :=
  ⟨a.origin, a.Error, a.log, a.failure?, fun e => f (a.change e), a.completed⟩

/-- The application with the end of the input taken as final around it. -/
def complete (a : Application ε) : Application ε := { a with completed := true }

end Application

/-- The applications a parser makes on each input, in order. -/
abbrev Applications (ι ε : Type) := ι → List (Application ε)

/-- The applications after a reply: some after a success, others after a recoverable failure and
none after any other reply. -/
def Reply.followed {ι ε α : Type} (reply : Reply ι ε α)
    (onSuccess : α → ι → List (Application ε)) (onMiss : List (Application ε)) :
    List (Application ε) :=
  match reply with
  | .success value rest => onSuccess value rest
  | .failure (.recoverable _) => onMiss
  | _ => []

/-! ## The applications of combinators -/

namespace Applications

variable {ι σ ε α β γ : Type} [Input ι σ] [ParseError ε ι]

/-- Those of `p`, then those made on the remainder that `p` leaves. -/
def andThen (p : Parser ι ε α) (ps qs : Applications ι ε) : Applications ι ε := fun i =>
  ps i ++ (p i).reply.followed (fun _ rest => qs rest) []

/-- Those of `p`, then those made in its place if `p` fails recoverably. -/
def orElse (p : Parser ι ε α) (ps qs : Applications ι ε) : Applications ι ε := fun i =>
  ps i ++ (p i).reply.followed (fun _ _ => []) (qs i)

/-- Those of a number of repetitions. -/
def repeated (p : Parser ι ε α) (ps : Applications ι ε) : Nat → Applications ι ε
  | 0 => fun _ => []
  | n + 1 => andThen p ps (repeated p ps n)

/-- Those of at most so many repetitions, each of which has to shorten the input. -/
def bounded (p : Parser ι ε α) (ps : Applications ι ε) : Nat → Applications ι ε
  | 0 => fun _ => []
  | n + 1 => fun i =>
    ps i ++ (p i).reply.followed
      (fun _ rest => if _ : Input.length rest < Input.length i then bounded p ps n rest else []) []

/-- Those of repetitions before each of which a terminator is tried. -/
def manyTill (p : Parser ι ε α) (ps : Applications ι ε) (terminator : Parser ι ε β)
    (ts : Applications ι ε) : Applications ι ε := fun i =>
  ts i ++ (terminator i).reply.followed (fun _ _ => [])
    (ps i ++ (p i).reply.followed
      (fun _ rest =>
        if _ : Input.length rest < Input.length i then manyTill p ps terminator ts rest else [])
      [])
termination_by i => Input.length i
decreasing_by assumption

/-- Those behind the first item of a list with separators. -/
def separatedTail (sep : Parser ι ε β) (ss : Applications ι ε) (item : Parser ι ε α)
    (is : Applications ι ε) : Applications ι ε := fun i =>
  ss i ++ (sep i).reply.followed
    (fun _ afterSep =>
      if _ : Input.length afterSep < Input.length i then
        is afterSep ++ (item afterSep).reply.followed
          (fun _ rest =>
            if _ : Input.length rest < Input.length afterSep then separatedTail sep ss item is rest
            else [])
          []
      else [])
    []
termination_by i => Input.length i
decreasing_by omega

/-- Those of a list with separators. -/
def separated (sep : Parser ι ε β) (ss : Applications ι ε) (item : Parser ι ε α)
    (is : Applications ι ε) : Applications ι ε := fun i =>
  is i ++ (item i).reply.followed
    (fun _ rest =>
      if Input.length rest < Input.length i then separatedTail sep ss item is rest else [])
    []

/-! ## Repeaters and collectors -/

/-- Those of one request; there are none once the repetition has ended. -/
def ofRequest (ps : Applications ι ε) (s : Repeater ι ε) : List (Application ε) :=
  match s.ending with
  | some _ => []
  | none => ps s.input

/-- Those of some requests in a row. -/
def ofRequests (p : Parser ι ε α) (ps : Applications ι ε) (guard : ErrorKind) :
    Nat → Repeater ι ε → List (Application ε)
  | 0, _ => []
  | n + 1, s => ofRequest ps s ++ ofRequests p ps guard n (s.next p guard).state

/-- Those of the requests of a collector that holds `collected`. -/
def ofDrive (c : Collector α γ β) (p : Parser ι ε α) (ps : Applications ι ε) (guard : ErrorKind)
    (collected : γ) (s : Repeater ι ε) : List (Application ε) :=
  if c.wants collected then
    ofRequest ps s ++
      match _ : (s.next p guard).item? with
      | some value => ofDrive c p ps guard (c.push collected value) (s.next p guard).state
      | none => ofRequests p ps guard c.extra (s.next p guard).state
  else []
termination_by Input.length s.input
decreasing_by exact Repeater.next_shortens (by assumption)

/-- Those of a repetition. -/
def collectMany0 (c : Collector α γ β) (p : Parser ι ε α) (ps : Applications ι ε) :
    Applications ι ε := fun i =>
  ofDrive c p ps .many0 c.start (.start i)

/-- Those of a repetition whose first value is there before the collector makes a request. -/
def collectMany1 (c : Collector α γ β) (p : Parser ι ε α) (ps : Applications ι ε) :
    Applications ι ε := fun i =>
  ps i ++ (p i).reply.followed
    (fun first rest =>
      if Input.length rest < Input.length i then
        if c.wants c.start then ofDrive c p ps .many1 (c.push c.start first) (.start rest) else []
      else [])
    []

section

variable {c : Collector α γ β} {p : Parser ι ε α} {ps : Applications ι ε} {guard : ErrorKind}
  {collected : γ} {s : Repeater ι ε}

/-- A repetition that has ended applies nothing, however often it is asked. -/
theorem ofRequests_of_ended {ending : Ending ε} (h : s.ending = some ending) (n : Nat) :
    ofRequests p ps guard n s = [] := by
  induction n with
  | zero => rfl
  | succ n ih => rw [ofRequests, Repeater.next_of_ended h, ih, ofRequest, h, List.nil_append]

theorem ofDrive_of_item {value : α} (h : c.wants collected = true)
    (hitem : (s.next p guard).item? = some value) :
    ofDrive c p ps guard collected s =
      ofRequest ps s ++ ofDrive c p ps guard (c.push collected value) (s.next p guard).state := by
  rw [ofDrive, if_pos h]
  split
  · rename_i value' hitem'
    rw [hitem] at hitem'
    cases hitem'
    rfl
  · rename_i hnone
    rw [hitem] at hnone
    cases hnone

/-- Once no value is left, further requests apply nothing. -/
theorem ofDrive_of_none (h : c.wants collected = true) (hitem : (s.next p guard).item? = none) :
    ofDrive c p ps guard collected s = ofRequest ps s := by
  rw [ofDrive, if_pos h]
  split
  · rename_i value hsome
    rw [hitem] at hsome
    cases hsome
  · obtain ⟨ending, hending⟩ := Repeater.exists_ending_of_item?_eq_none hitem
    rw [ofRequests_of_ended hending, List.append_nil]

/-- The applications of a repetition that has not ended are those of a plain loop. -/
theorem ofDrive_open (i : ι) :
    ofDrive c p ps guard collected ⟨i, none⟩ =
      if c.wants collected then
        ps i ++ (p i).reply.followed
          (fun value rest =>
            if Input.length rest < Input.length i then
              ofDrive c p ps guard (c.push collected value) ⟨rest, none⟩
            else [])
          []
      else [] := by
  cases hwants : c.wants collected with
  | false =>
    rw [ofDrive, hwants]
    rfl
  | true =>
    have hended : ((⟨i, none⟩ : Repeater ι ε).next p guard).item? = none →
        ofDrive c p ps guard collected ⟨i, none⟩ = ps i ++ [] := by
      intro hitem
      rw [ofDrive_of_none hwants hitem, List.append_nil]
      rfl
    rw [if_pos rfl]
    rcases hrun : p i with ⟨log, ⟨value, rest⟩ | ⟨_ | e | e⟩ | fault⟩
    · by_cases hlt : Input.length rest < Input.length i
      · have hnext : (⟨i, none⟩ : Repeater ι ε).next p guard = ⟨log, some value, ⟨rest, none⟩⟩ := by
          simp only [Repeater.next, hrun, hlt, if_true]
        have hitem : ((⟨i, none⟩ : Repeater ι ε).next p guard).item? = some value := by rw [hnext]
        rw [ofDrive_of_item hwants hitem, hnext]
        simp only [Reply.followed, hlt, if_true]
        rfl
      · simp only [Reply.followed, hlt, if_false]
        exact hended (by simp only [Repeater.next, hrun, hlt, if_false]; split <;> rfl)
    · exact hended (by simp only [Repeater.next, hrun])
    · exact hended (by simp only [Repeater.next, hrun])
    · exact hended (by simp only [Repeater.next, hrun])
    · exact hended (by simp only [Repeater.next, hrun])

end

/-! ## Loops -/

/-- Those of `n` rounds of a loop, given those of each round. -/
def ofRounds (loop : Loop ι ε α β) (round : List α → Applications ι ε) (origin : ι) :
    Nat → List α → Applications ι ε
  | 0, _, _ => []
  | n + 1, items, i =>
    round items i ++ (loop origin items i).reply.followed
      (fun outcome rest =>
        match outcome with
        | .item value => ofRounds loop round origin n (items ++ [value]) rest
        | .result _ => [])
      []

/-- Those of a loop that is given a number of rounds for each input. -/
def ofLoop (loop : Loop ι ε α β) (rounds : ι → Nat) (round : List α → Applications ι ε) :
    Applications ι ε := fun i => ofRounds loop round i (rounds i) [] i

/-- Those of one round of a collector. -/
def ofCollecting (c : Collector α γ β) (ps : Applications ι ε) (items : List α) :
    Applications ι ε := fun i =>
  if c.wants (items.foldl c.push c.start) then ps i else []

/-- Those of one round of a collector behind a first value. -/
def ofCollectingOnce (c : Collector α γ β) (ps : Applications ι ε) : List α → Applications ι ε
  | [], i => ps i
  | first :: more, i => if c.wants c.start then ofCollecting c ps (first :: more) i else []

/-- Those of one round of a list with separators. -/
def ofSeparated (sep : Parser ι ε β) (ss is : Applications ι ε) : List α → Applications ι ε
  | [], i => is i
  | _ :: _, i =>
    ss i ++ (sep i).reply.followed
      (fun _ afterSep => if Input.length afterSep = Input.length i then [] else is afterSep) []

end Applications

/-! ## Assembled parsers -/

variable {ι σ : Type} [Input ι σ] [Symbol σ]

/-- The primitives of the library and the mode each of them is in. -/
inductive Primitive : Mode → {ε α : Type} → [ParseError ε ι] → Parser ι ε α → Prop
  | tag {ε} [ParseError ε ι] (mode rule pattern) :
    Primitive mode (Parser.tag mode rule pattern : Parser ι ε ι)
  | take {ε} [ParseError ε ι] (mode count) :
    Primitive mode (Parser.take mode count : Parser ι ε ι)
  | takeRun {ε} [ParseError ε ι] (mode) (accepts : σ → Bool) (nonempty) :
    Primitive mode (Parser.takeRun mode accepts nonempty : Parser ι ε ι)
  | takeBounded {ε} [ParseError ε ι] (mode min max) (accepts : σ → Bool) :
    Primitive mode (Parser.takeBounded mode min max accepts : Parser ι ε ι)
  | one {ε} [ParseError ε ι] (mode) (accepts : σ → Bool) (kind) :
    Primitive mode (Parser.one mode accepts kind : Parser ι ε σ)
  | char {ε} [ParseError ε ι] (mode c) :
    Primitive mode (Parser.char mode c : Parser ι ε Char)
  | succeed {ε α} [ParseError ε ι] (value : α) :
    Primitive .complete (Parser.succeed value : Parser ι ε α)
  | fail {ε α} [ParseError ε ι] (kind) :
    Primitive .complete (Parser.fail kind : Parser ι ε α)
  | eof {ε} [ParseError ε ι] : Primitive .complete (Parser.eof : Parser ι ε Unit)
  | rest {ε} [ParseError ε ι] : Primitive .complete (Parser.rest : Parser ι ε ι)
  | restLength {ε} [ParseError ε ι] : Primitive .complete (Parser.restLength : Parser ι ε Nat)

/-- Parsers assembled from the combinators of the library over any leaves, with the applications
of leaves that they make.  The repetitions are there with their loops as well, which stop at a
remainder as long as the input only and not at a longer one.  Names in `reserved` are left to
clients: the combinators log no spans of these names. -/
inductive Assembled (reserved : String → Bool) :
    {ε α : Type} → [ParseError ε ι] → Parser ι ε α → Applications ι ε → Prop
  | primitive {ε α} [ParseError ε ι] {mode} {p : Parser ι ε α} :
    Primitive mode p → Assembled reserved p fun i => [.of (.primitive mode) (p i)]
  | client {ε α} [ParseError ε ι] (p : Parser ι ε α) :
    Assembled reserved p fun i => [.of .client (p i)]
  | map {ε α β} [ParseError ε ι] {p : Parser ι ε α} {ps} (f : α → β) :
    Assembled reserved p ps → Assembled reserved (Parser.map f p) ps
  | mapRes {ε α β} [ParseError ε ι] {p : Parser ι ε α} {ps} (f : α → Option β) :
    Assembled reserved p ps → Assembled reserved (Parser.mapRes f p) ps
  | mapError {ε ε' α} [ParseError ε ι] [ParseError ε' ι] {p : Parser ι ε α} {ps} (f : ε → ε') :
    Assembled reserved p ps →
      Assembled reserved (Parser.mapError f p) fun i => (ps i).map (.mapError f)
  | replace {ε α β} [ParseError ε ι] {p : Parser ι ε α} {ps} (value : β) :
    Assembled reserved p ps → Assembled reserved (Parser.replace value p) ps
  | verify {ε α} [ParseError ε ι] {p : Parser ι ε α} {ps} (check : α → Bool) :
    Assembled reserved p ps → Assembled reserved (Parser.verify check p) ps
  | recognize {ε α} [ParseError ε ι] {p : Parser ι ε α} {ps} :
    Assembled reserved p ps → Assembled reserved (Parser.recognize p) ps
  | opt {ε α} [ParseError ε ι] {p : Parser ι ε α} {ps} :
    Assembled reserved p ps → Assembled reserved (Parser.opt p) ps
  | cond {ε α} [ParseError ε ι] {p : Parser ι ε α} {ps} (condition : Bool) :
    Assembled reserved p ps →
      Assembled reserved (Parser.cond condition p) fun i => if condition then ps i else []
  | peek {ε α} [ParseError ε ι] {p : Parser ι ε α} {ps} :
    Assembled reserved p ps → Assembled reserved (Parser.peek p) ps
  | not {ε α} [ParseError ε ι] {p : Parser ι ε α} {ps} :
    Assembled reserved p ps → Assembled reserved (Parser.not p) ps
  | allConsuming {ε α} [ParseError ε ι] {p : Parser ι ε α} {ps} :
    Assembled reserved p ps → Assembled reserved (Parser.allConsuming p) ps
  | complete {ε α} [ParseError ε ι] {p : Parser ι ε α} {ps} :
    Assembled reserved p ps →
      Assembled reserved (Parser.complete p) fun i => (ps i).map .complete
  | traced {ε α} [ParseError ε ι] {p : Parser ι ε α} {ps} {rule} : reserved rule = false →
    Assembled reserved p ps → Assembled reserved (Parser.traced rule p) ps
  | pair {ε α β} [ParseError ε ι] {p : Parser ι ε α} {q : Parser ι ε β} {ps qs} :
    Assembled reserved p ps → Assembled reserved q qs →
      Assembled reserved (Parser.pair p q) (.andThen p ps qs)
  | separatedPair {ε α β γ} [ParseError ε ι] {p : Parser ι ε α} {sep : Parser ι ε β}
    {q : Parser ι ε γ} {ps ss qs} :
    Assembled reserved p ps → Assembled reserved sep ss → Assembled reserved q qs →
      Assembled reserved (Parser.separatedPair p sep q) (.andThen p ps (.andThen sep ss qs))
  | delimited {ε α β γ} [ParseError ε ι] {left : Parser ι ε α} {p : Parser ι ε β}
    {right : Parser ι ε γ} {ls ps rs} :
    Assembled reserved left ls → Assembled reserved p ps → Assembled reserved right rs →
      Assembled reserved (Parser.delimited left p right) (.andThen left ls (.andThen p ps rs))
  | preceded {ε α β} [ParseError ε ι] {left : Parser ι ε α} {p : Parser ι ε β} {ls ps} :
    Assembled reserved left ls → Assembled reserved p ps →
      Assembled reserved (Parser.preceded left p) (.andThen left ls ps)
  | terminated {ε α β} [ParseError ε ι] {p : Parser ι ε α} {right : Parser ι ε β} {ps rs} :
    Assembled reserved p ps → Assembled reserved right rs →
      Assembled reserved (Parser.terminated p right) (.andThen p ps rs)
  | either {ε α} [ParseError ε ι] {p q : Parser ι ε α} {ps qs} :
    Assembled reserved p ps → Assembled reserved q qs →
      Assembled reserved (Parser.either p q) (.orElse p ps qs)
  | choice {ε α} [ParseError ε ι] {p : Parser ι ε α} {ps} :
    Assembled reserved p ps → Assembled reserved (Parser.choice p) ps
  | collectMany0 {ε α β γ} [ParseError ε ι] {p : Parser ι ε α} {ps} (c : Collector α γ β) :
    Assembled reserved p ps →
      Assembled reserved (Parser.collectMany0 c p) (.collectMany0 c p ps)
  | collectMany1 {ε α β γ} [ParseError ε ι] {p : Parser ι ε α} {ps} (c : Collector α γ β) :
    Assembled reserved p ps →
      Assembled reserved (Parser.collectMany1 c p) (.collectMany1 c p ps)
  | count {ε α} [ParseError ε ι] {p : Parser ι ε α} {ps} (n : Nat) :
    Assembled reserved p ps → Assembled reserved (Parser.count n p) (.repeated p ps n)
  | reserving {ε α} [ParseError ε ι] {p : Parser ι ε α} {ps} (n : Nat) :
    Assembled reserved p ps →
      Assembled reserved (Parser.reserving n p) fun i => if n ≤ Parser.maxReserved then ps i else []
  | manyMN {ε α} [ParseError ε ι] {p : Parser ι ε α} {ps} (min max : Nat) :
    Assembled reserved p ps →
      Assembled reserved (Parser.manyMN min max p) fun i =>
        if max < min then [] else Applications.bounded p ps max i
  | manyTill {ε α β} [ParseError ε ι] {p : Parser ι ε α} {terminator : Parser ι ε β} {ps ts} :
    Assembled reserved p ps → Assembled reserved terminator ts →
      Assembled reserved (Parser.manyTill p terminator) (.manyTill p ps terminator ts)
  | separatedList {ε α β} [ParseError ε ι] {sep : Parser ι ε β} {item : Parser ι ε α} {ss is} :
    Assembled reserved sep ss → Assembled reserved item is →
      Assembled reserved (Parser.separatedList sep item) (.separated sep ss item is)
  | separatedNonemptyList {ε α β} [ParseError ε ι] {sep : Parser ι ε β} {item : Parser ι ε α}
    {ss is} :
    Assembled reserved sep ss → Assembled reserved item is →
      Assembled reserved (Parser.separatedNonemptyList sep item) (.separated sep ss item is)
  | collecting {ε α β γ} [ParseError ε ι] {p : Parser ι ε α} {ps} (c : Collector α γ β)
    (guard : ErrorKind) (rounds : ι → Nat) :
    Assembled reserved p ps →
      Assembled reserved (Loop.parser (.collecting c guard p) rounds)
        (.ofLoop (.collecting c guard p) rounds (.ofCollecting c ps))
  | collectingOnce {ε α β γ} [ParseError ε ι] {p : Parser ι ε α} {ps} (c : Collector α γ β)
    (rounds : ι → Nat) :
    Assembled reserved p ps →
      Assembled reserved (Loop.parser (.collectingOnce c p) rounds)
        (.ofLoop (.collectingOnce c p) rounds (.ofCollectingOnce c ps))
  | bounded {ε α} [ParseError ε ι] {p : Parser ι ε α} {ps} {min max : Nat} (rounds : ι → Nat) :
    min ≤ max → Assembled reserved p ps →
      Assembled reserved (Loop.parser (.bounded min max p) rounds)
        (.ofLoop (.bounded min max p) rounds fun items i => if items.length < max then ps i else [])
  | till {ε α β} [ParseError ε ι] {p : Parser ι ε α} {terminator : Parser ι ε β} {ps ts}
    (rounds : ι → Nat) :
    Assembled reserved p ps → Assembled reserved terminator ts →
      Assembled reserved (Loop.parser (.till p terminator) rounds)
        (.ofLoop (.till p terminator) rounds fun _ => .orElse terminator ts ps)
  | list {ε α β} [ParseError ε ι] {sep : Parser ι ε β} {item : Parser ι ε α} {ss is}
    (rounds : ι → Nat) :
    Assembled reserved sep ss → Assembled reserved item is →
      Assembled reserved (Loop.parser (.list sep item) rounds)
        (.ofLoop (.list sep item) rounds (.ofSeparated sep ss is))
  | nonemptyList {ε α β} [ParseError ε ι] {sep : Parser ι ε β} {item : Parser ι ε α} {ss is}
    (rounds : ι → Nat) :
    Assembled reserved sep ss → Assembled reserved item is →
      Assembled reserved (Loop.parser (.nonemptyList sep item) rounds)
        (.ofLoop (.nonemptyList sep item) rounds (.ofSeparated sep ss is))

end ParseKit
