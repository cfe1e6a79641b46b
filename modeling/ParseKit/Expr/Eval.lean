/-
  Running parser expressions.

  `eval` gives an expression its parser on one kind of input with one error
  type; the parsers behind names come from an environment.
-/
import ParseKit.Expr
import ParseKit.Parser.Adapt
import ParseKit.Parser.Choice
import ParseKit.Parser.Separated
import ParseKit.Parser.Sequence

set_option autoImplicit false

namespace ParseKit

variable {ι σ ε : Type} [Input ι σ] [Symbol σ] [ParseError ε ι]

/-- The parser of a scanner in a mode. -/
def Scan.parser (mode : Mode) : Scan → Parser ι ε (Value ι σ)
  | .tag rule pattern => Parser.map .piece (Parser.tag mode rule pattern)
  | .take count => Parser.map .piece (Parser.take mode count)
  | .run accepts nonempty => Parser.map .piece (Parser.takeRun mode accepts.holds nonempty)
  | .bounded min max accepts =>
    Parser.map .piece (Parser.takeBounded mode min max accepts.holds)
  | .one accepts kind => Parser.map .symbol (Parser.one mode accepts.holds kind)
  | .char c => Parser.map .char (Parser.char mode c)

namespace Value

/-- Two values as one. -/
def ofPair (both : Value ι σ × Value ι σ) : Value ι σ := .tuple [both.1, both.2]

/-- The values up to a terminator, and the terminator's. -/
def ofTill (found : List (Value ι σ) × Value ι σ) : Value ι σ := .tuple [.list found.1, found.2]

end Value

namespace Expr

/-- The parsers behind names. -/
abbrev Env (ι σ ε : Type) := String → Parser ι ε (Value ι σ)

/-- The run of an expression on an input. -/
def eval (env : Env ι σ ε) : Expr → ι → Run ι ε (Value ι σ)
  | .scan mode s, i => s.parser mode i
  | .succeed literal, i => Parser.succeed (Value.ofLiteral literal) i
  | .fail kind, i => Parser.fail kind i
  | .failFatally kind, i => Parser.failFatally kind i
  | .askForMore, i => Parser.askForMore i
  | .eof, i => Parser.map (fun _ => .unit) Parser.eof i
  | .rest, i => Parser.map .piece Parser.rest i
  | .restLength, i => Parser.map (fun length => .int (Int.ofNat length)) Parser.restLength i
  | .map f e, i => Parser.map f.apply (eval env e) i
  | .mapRes f e, i => Parser.mapRes f.result? (eval env e) i
  | .mapError f e, i => Parser.mapError f.apply (eval env e) i
  | .context kind e, i => Parser.context kind (eval env e) i
  | .commit e, i => Parser.commit (eval env e) i
  | .replace literal e, i => Parser.replace (Value.ofLiteral literal) (eval env e) i
  | .opt e, i => Parser.map .ofOption (Parser.opt (eval env e)) i
  | .verify check e, i => Parser.verify check.holds (eval env e) i
  | .recognize e, i => Parser.map .piece (Parser.recognize (eval env e)) i
  | .peek e, i => Parser.peek (eval env e) i
  | .not e, i => Parser.map (fun _ => .unit) (Parser.not (eval env e)) i
  | .cond condition e, i => Parser.map .ofOption (Parser.cond condition (eval env e)) i
  | .allConsuming e, i => Parser.allConsuming (eval env e) i
  | .complete e, i => Parser.complete (eval env e) i
  | .traced rule e, i => Parser.traced rule (eval env e) i
  | .pair e f, i => Parser.map .ofPair (Parser.pair (eval env e) (eval env f)) i
  | .separatedPair e sep f, i =>
    Parser.map .ofPair (Parser.separatedPair (eval env e) (eval env sep) (eval env f)) i
  | .delimited left e right, i =>
    Parser.delimited (eval env left) (eval env e) (eval env right) i
  | .preceded left e, i => Parser.preceded (eval env left) (eval env e) i
  | .terminated e right, i => Parser.terminated (eval env e) (eval env right) i
  | .flatten shape e, i => Parser.map (fun v => .tuple (v.flatten shape)) (eval env e) i
  | .either e f, i => Parser.either (eval env e) (eval env f) i
  | .choice e, i => Parser.choice (eval env e) i
  | .many0 e, i => Parser.map .list (Parser.many0 (eval env e)) i
  | .many1 e, i => Parser.map .list (Parser.many1 (eval env e)) i
  | .collectMany0 container e, i => Parser.collectMany0 container.collector (eval env e) i
  | .collectMany1 container e, i => Parser.collectMany1 container.collector (eval env e) i
  | .foldMany0 folding e, i => Parser.foldMany0 folding.start folding.step (eval env e) i
  | .count n e, i =>
    Parser.map .list (Parser.reserving n (Parser.count n (eval env e))) i
  | .manyMN min max e, i => Parser.map .list (Parser.manyMN min max (eval env e)) i
  | .manyTill e terminator, i =>
    Parser.map .ofTill (Parser.manyTill (eval env e) (eval env terminator)) i
  | .separatedList sep item, i =>
    Parser.map .list (Parser.separatedList (eval env sep) (eval env item)) i
  | .separatedNonemptyList sep item, i =>
    Parser.map .list (Parser.separatedNonemptyList (eval env sep) (eval env item)) i
  | .ref name, i => env name i

end Expr

end ParseKit
