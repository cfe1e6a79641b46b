/-
  Parser expressions: parsers as data.

  An expression names neither the kind of input nor the error type, so one
  expression can be run on every kind and with every error type.  Scanners
  carry their mode.  `tuple` and `alt` of many parsers are nested pairs and
  nested choices of two.
-/
import ParseKit.Parser.Scan
import ParseKit.SymbolSet
import ParseKit.Value.Collect
import ParseKit.Value.Mapping

set_option autoImplicit false

namespace ParseKit

/-! ## Scanners -/

/-- A parser that looks at symbols, without its mode. -/
inductive Scan
  | tag (rule : CaseRule) (pattern : List UInt8)
  | take (count : Nat)
  /-- The longest run of accepted symbols; with a kind given, an empty one is an error. -/
  | run (accepts : Pred) (nonempty : Option ErrorKind)
  /-- The longest run of at most `max` accepted symbols; fewer than `min` are an error. -/
  | bounded (min max : Nat) (accepts : Pred)
  /-- One accepted symbol; anything else is an error of the kind. -/
  | one (accepts : Pred) (kind : ErrorKind)
  | char (c : Char)

namespace Scan

def takeWhile (p : Pred) : Scan := .run p none
def takeWhile1 (p : Pred) : Scan := .run p (some .takeWhile1)
def takeTill (p : Pred) : Scan := .run p.not none
def takeTill1 (p : Pred) : Scan := .run p.not (some .takeTill1)

/-- A nonempty run of members of a set. -/
def isA (set : SymbolSet) : Scan := .run (.member set) (some .isA)

/-- A nonempty run of symbols outside a set. -/
def isNot (set : SymbolSet) : Scan := .run (Pred.member set).not (some .isNot)

def digit0 : Scan := .run (.inClass .digit) none
def digit1 : Scan := .run (.inClass .digit) (some .digit)
def alpha0 : Scan := .run (.inClass .alpha) none
def alpha1 : Scan := .run (.inClass .alpha) (some .alpha)
def alphanumeric0 : Scan := .run (.inClass .alphanum) none
def alphanumeric1 : Scan := .run (.inClass .alphanum) (some .alphaNumeric)
def space0 : Scan := .run (.inClass .space) none
def space1 : Scan := .run (.inClass .space) (some .space)
def multispace0 : Scan := .run (.inClass .multispace) none
def multispace1 : Scan := .run (.inClass .multispace) (some .multiSpace)

def oneOf (set : SymbolSet) : Scan := .one (.member set) .oneOf
def noneOf (set : SymbolSet) : Scan := .one (Pred.member set).not .noneOf
def satisfy (p : Pred) : Scan := .one p .char
def anyChar : Scan := .one .any .eof

end Scan

/-! ## Changes of errors -/

/-- A level of an error as it is seen from outside: its kind and the codes at its position. -/
abbrev CodedLevel := ErrorKind × List Nat

/-- An error to be made of another one: the innermost level and the levels around it from the inside
out, each at the position of the level of the other error that it refers to by number. -/
structure ErrorTemplate where
  root : ErrorKind × Nat
  contexts : List (ErrorKind × Nat)
  deriving DecidableEq, Repr

namespace ErrorTemplate

variable {ι ε : Type} [ParseError ε ι]

/-- The position of a level of an error, counted from the outermost one; that of the outermost one
if there is no such level. -/
def place (e : ε) (level : Nat) : ι :=
  (((ParseError.levels e)[level]?).map Prod.snd).getD (ParseError.position e)

/-- The error a template makes of an error. -/
def fill (e : ε) (template : ErrorTemplate) : ε :=
  template.contexts.foldl (fun inner level => ParseError.wrap inner (place e level.2) level.1)
    (ParseError.ofKind (place e template.root.2) template.root.1)

end ErrorTemplate

/-- A function from errors to errors. -/
inductive ErrorMap
  /-- One level with another kind, at the position of the error. -/
  | rekind (kind : ErrorKind)
  /-- A level around the error, at its own position. -/
  | wrap (kind : ErrorKind)
  /-- The innermost level alone. -/
  | root
  /-- A function from outside, of the levels of the error, the outermost one first. -/
  | outside (f : List CodedLevel → ErrorTemplate)

namespace ErrorMap

variable {ι σ ε : Type} [ParseError ε ι]

/-- The error made of an error whose levels are seen in some way. -/
def change (seen : List CodedLevel) : ErrorMap → ε → ε
  | .rekind kind, e => ParseError.ofKind (ParseError.position e) kind
  | .wrap kind, e => ParseError.wrap e (ParseError.position e) kind
  | .root, e => ParseError.rooted e
  | .outside f, e => (f seen).fill e

/-- The levels of an error as they are seen from outside. -/
def coded [Input ι σ] [Symbol σ] (e : ε) : List CodedLevel :=
  (ParseError.levels e).map fun level => (level.1, (Input.symbols level.2).map Symbol.code)

/-- The error made of an error. -/
def apply [Input ι σ] [Symbol σ] (g : ErrorMap) (e : ε) : ε := g.change (coded e) e

end ErrorMap

/-! ## Expressions -/

/-- A parser expression. -/
inductive Expr
  | scan (mode : Mode) (s : Scan)
  | succeed (literal : Literal)
  | fail (kind : ErrorKind)
  | failFatally (kind : ErrorKind)
  | askForMore
  | eof
  | rest
  | restLength
  | map (f : Mapping) (e : Expr)
  | mapRes (f : Conversion) (e : Expr)
  | mapError (f : ErrorMap) (e : Expr)
  | context (kind : ErrorKind) (e : Expr)
  | commit (e : Expr)
  | replace (literal : Literal) (e : Expr)
  | opt (e : Expr)
  | verify (check : Check) (e : Expr)
  | recognize (e : Expr)
  | peek (e : Expr)
  | not (e : Expr)
  | cond (condition : Bool) (e : Expr)
  | allConsuming (e : Expr)
  | complete (e : Expr)
  | traced (rule : String) (e : Expr)
  | pair (e f : Expr)
  | separatedPair (e sep f : Expr)
  | delimited (left e right : Expr)
  | preceded (left e : Expr)
  | terminated (e right : Expr)
  /-- Turns nested pairs of a shape into one tuple. -/
  | flatten (shape : Tree Unit) (e : Expr)
  | either (e f : Expr)
  | choice (e : Expr)
  | many0 (e : Expr)
  | many1 (e : Expr)
  | collectMany0 (container : Container) (e : Expr)
  | collectMany1 (container : Container) (e : Expr)
  | foldMany0 (folding : Folding) (e : Expr)
  | count (n : Nat) (e : Expr)
  | manyMN (min max : Nat) (e : Expr)
  | manyTill (e terminator : Expr)
  | separatedList (sep item : Expr)
  | separatedNonemptyList (sep item : Expr)
  /-- A parser that is given by its name. -/
  | ref (name : String)

namespace Expr

/-- An expression whose value is dropped. -/
def ignore (e : Expr) : Expr := .replace .unit e

/-- Expressions one after the other and the tuple of their values.  One function gives both trees,
that of the expressions and that of the pattern the values are taken out by; for lists of one length
they have one shape. -/
def tuple (es : List Expr) : Expr :=
  match Tree.balanced? es, Tree.balanced? (List.replicate es.length ()) with
  | some tree, some shape => .flatten shape (tree.fold .pair)
  | _, _ => .succeed (.tuple [])

/-- The first of some expressions that does not fail recoverably; none of no expressions. -/
def alt? (es : List Expr) : Option Expr :=
  (Tree.balanced? es).map fun tree => .choice (tree.fold .either)

end Expr

end ParseKit
