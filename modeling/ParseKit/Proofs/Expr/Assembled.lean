/-
  Expressions are assembled parsers.

  An expression is assembled from its scanners and the other primitives in
  it, and from leaves of a client: the rules it refers to and the parsers
  that make or change failures of their own accord.
-/
import ParseKit.Expr.Eval
import ParseKit.Proofs.Expr.Parts
import ParseKit.Proofs.Parser.Applications

set_option autoImplicit false

namespace ParseKit

/-- The value of a leaf is not a part of its application. -/
theorem Application.of_map {ι ε α β : Type} (origin : Origin) (f : α → β) (run : Run ι ε α) :
    of origin (run.map f) = of origin run := by
  rcases run with ⟨log, value | failure | fault⟩ <;> rfl

variable {ι σ ε : Type} [Input ι σ] [Symbol σ] [ParseError ε ι] {reserved : String → Bool}

/-- A primitive with its value changed is a leaf as well. -/
theorem Primitive.assembled_map {α β : Type} {mode : Mode} {p : Parser ι ε α}
    (hp : Primitive mode p) (f : α → β) :
    Assembled reserved (Parser.map f p) fun i => [.of (.primitive mode) (Parser.map f p i)] := by
  simp only [Parser.map, Application.of_map]
  exact .map f (.primitive hp)

/-- A scanner is a primitive with its value put into a common type. -/
theorem Scan.assembled (mode : Mode) (s : Scan) :
    Assembled reserved (s.parser mode : Parser ι ε (Value ι σ))
      fun i => [.of (.primitive mode) (s.parser mode i : Run ι ε (Value ι σ))] := by
  cases s with
  | tag rule pattern => exact (Primitive.tag mode rule pattern).assembled_map Value.piece
  | take count => exact (Primitive.take mode count).assembled_map Value.piece
  | run accepts nonempty => exact (Primitive.takeRun mode _ nonempty).assembled_map Value.piece
  | bounded min max accepts =>
    exact (Primitive.takeBounded mode min max _).assembled_map Value.piece
  | one accepts kind => exact (Primitive.one mode _ kind).assembled_map Value.symbol
  | char c => exact (Primitive.char mode c).assembled_map Value.char

namespace Expr

/-- The applications of leaves that an expression makes. -/
def applications (env : Env ι σ ε) : Expr → Applications ι ε
  | .scan mode s => fun i => [.of (.primitive mode) (s.parser mode i : Run ι ε (Value ι σ))]
  | .succeed literal => fun i => [.of (.primitive .complete) (eval env (.succeed literal) i)]
  | .fail kind => fun i => [.of (.primitive .complete) (eval env (.fail kind) i)]
  | .eof => fun i => [.of (.primitive .complete) (eval env .eof i)]
  | .rest => fun i => [.of (.primitive .complete) (eval env .rest i)]
  | .restLength => fun i => [.of (.primitive .complete) (eval env .restLength i)]
  | .failFatally kind => fun i => [.of .client (eval env (.failFatally kind) i)]
  | .askForMore => fun i => [.of .client (eval env .askForMore i)]
  | .context kind e => fun i => [.of .client (eval env (.context kind e) i)]
  | .commit e => fun i => [.of .client (eval env (.commit e) i)]
  | .ref name => fun i => [.of .client (env name i)]
  | .map _ e | .mapRes _ e | .replace _ e | .opt e | .verify _ e | .recognize e | .peek e | .not e
  | .allConsuming e | .traced _ e | .flatten _ e | .choice e => applications env e
  | .mapError f e => fun i => (applications env e i).map (.mapError f.apply)
  | .complete e => fun i => (applications env e i).map .complete
  | .cond condition e => fun i => if condition then applications env e i else []
  | .pair e f | .preceded e f | .terminated e f =>
    .andThen (eval env e) (applications env e) (applications env f)
  | .separatedPair e sep f =>
    .andThen (eval env e) (applications env e)
      (.andThen (eval env sep) (applications env sep) (applications env f))
  | .delimited left e right =>
    .andThen (eval env left) (applications env left)
      (.andThen (eval env e) (applications env e) (applications env right))
  | .either e f => .orElse (eval env e) (applications env e) (applications env f)
  | .many0 e => .collectMany0 .list (eval env e) (applications env e)
  | .many1 e => .collectMany1 .list (eval env e) (applications env e)
  | .collectMany0 container e =>
    .collectMany0 container.collector (eval env e) (applications env e)
  | .collectMany1 container e =>
    .collectMany1 container.collector (eval env e) (applications env e)
  | .foldMany0 folding e =>
    .collectMany0 (.folding folding.start folding.step) (eval env e) (applications env e)
  | .count n e => fun i =>
    if n ≤ Parser.maxReserved then Applications.repeated (eval env e) (applications env e) n i
    else []
  | .manyMN min max e => fun i =>
    if max < min then [] else Applications.bounded (eval env e) (applications env e) max i
  | .manyTill e terminator =>
    .manyTill (eval env e) (applications env e) (eval env terminator) (applications env terminator)
  | .separatedList sep item | .separatedNonemptyList sep item =>
    .separated (eval env sep) (applications env sep) (eval env item) (applications env item)

/-- An expression is assembled from its leaves, if it traces no spans of names that are left to
clients. -/
theorem assembled_eval (env : Env ι σ ε) {e : Expr}
    (he : e.Every fun part => ∀ rule inner, part = .traced rule inner → reserved rule = false) :
    Assembled reserved (e.eval env) (e.applications env) := by
  induction e with
  | scan mode s => exact s.assembled mode
  | succeed literal => exact .primitive (.succeed _)
  | fail kind => exact .primitive (.fail kind)
  | eof => exact Primitive.eof.assembled_map _
  | rest => exact Primitive.rest.assembled_map _
  | restLength => exact Primitive.restLength.assembled_map _
  | failFatally kind => exact .client _
  | askForMore => exact .client _
  | context kind e ih => exact .client _
  | commit e ih => exact .client _
  | ref name => exact .client _
  | map f e ih => exact (ih (he.part (.head _))).map _
  | mapRes f e ih => exact (ih (he.part (.head _))).mapRes _
  | mapError f e ih => exact (ih (he.part (.head _))).mapError _
  | replace literal e ih => exact (ih (he.part (.head _))).replace _
  | opt e ih => exact (ih (he.part (.head _))).opt.map _
  | verify check e ih => exact (ih (he.part (.head _))).verify _
  | recognize e ih => exact (ih (he.part (.head _))).recognize.map _
  | peek e ih => exact (ih (he.part (.head _))).peek
  | not e ih => exact (ih (he.part (.head _))).not.map _
  | cond condition e ih => exact ((ih (he.part (.head _))).cond condition).map _
  | allConsuming e ih => exact (ih (he.part (.head _))).allConsuming
  | complete e ih => exact (ih (he.part (.head _))).complete
  | traced rule e ih => exact (ih (he.part (.head _))).traced (he.here rule e rfl)
  | flatten shape e ih => exact (ih (he.part (.head _))).map _
  | choice e ih => exact (ih (he.part (.head _))).choice
  | many0 e ih => exact ((ih (he.part (.head _))).collectMany0 .list).map _
  | many1 e ih => exact ((ih (he.part (.head _))).collectMany1 .list).map _
  | collectMany0 container e ih => exact (ih (he.part (.head _))).collectMany0 container.collector
  | collectMany1 container e ih => exact (ih (he.part (.head _))).collectMany1 container.collector
  | foldMany0 folding e ih =>
    exact (ih (he.part (.head _))).collectMany0 (.folding folding.start folding.step)
  | count n e ih => exact (((ih (he.part (.head _))).count n).reserving n).map _
  | manyMN min max e ih => exact ((ih (he.part (.head _))).manyMN min max).map _
  | pair e f ihe ihf =>
    exact ((ihe (he.part (.head _))).pair (ihf (he.part (.tail _ (.head _))))).map _
  | preceded left e ihl ihe =>
    exact (ihl (he.part (.head _))).preceded (ihe (he.part (.tail _ (.head _))))
  | terminated e right ihe ihr =>
    exact (ihe (he.part (.head _))).terminated (ihr (he.part (.tail _ (.head _))))
  | either e f ihe ihf =>
    exact (ihe (he.part (.head _))).either (ihf (he.part (.tail _ (.head _))))
  | manyTill e terminator ihe iht =>
    exact ((ihe (he.part (.head _))).manyTill (iht (he.part (.tail _ (.head _))))).map _
  | separatedList sep item ihs ihi =>
    exact ((ihs (he.part (.head _))).separatedList (ihi (he.part (.tail _ (.head _))))).map _
  | separatedNonemptyList sep item ihs ihi =>
    exact ((ihs (he.part (.head _))).separatedNonemptyList
      (ihi (he.part (.tail _ (.head _))))).map _
  | separatedPair e sep f ihe ihs ihf =>
    exact ((ihe (he.part (.head _))).separatedPair (ihs (he.part (.tail _ (.head _))))
      (ihf (he.part (.tail _ (.tail _ (.head _)))))).map _
  | delimited left e right ihl ihe ihr =>
    exact (ihl (he.part (.head _))).delimited (ihe (he.part (.tail _ (.head _))))
      (ihr (he.part (.tail _ (.tail _ (.head _)))))

end Expr

end ParseKit
