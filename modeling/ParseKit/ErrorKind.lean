/-
  The kinds of error a parser reports.
-/

set_option autoImplicit false

namespace ParseKit

/-- What was expected where a parser failed, in the order kinds compare. -/
inductive ErrorKind
  | tag
  | char
  | oneOf
  | noneOf
  | digit
  | alpha
  | alphaNumeric
  | space
  | multiSpace
  | eof
  | takeWhile1
  | takeWhileMN
  | takeTill1
  | isA
  | isNot
  | many0
  | many1
  | manyMN
  | manyTill
  | count
  | separatedList
  | alt
  | verify
  | not
  | mapRes
  | fail
  | user
  deriving DecidableEq, Repr

namespace ErrorKind

/-- Every kind, in order. -/
def all : List ErrorKind :=
  [.tag, .char, .oneOf, .noneOf, .digit, .alpha, .alphaNumeric, .space, .multiSpace, .eof,
   .takeWhile1, .takeWhileMN, .takeTill1, .isA, .isNot, .many0, .many1, .manyMN, .manyTill,
   .count, .separatedList, .alt, .verify, .not, .mapRes, .fail, .user]

/-- The word a kind goes by. -/
def name : ErrorKind → String
  | .tag => "Tag"
  | .char => "Char"
  | .oneOf => "OneOf"
  | .noneOf => "NoneOf"
  | .digit => "Digit"
  | .alpha => "Alpha"
  | .alphaNumeric => "AlphaNumeric"
  | .space => "Space"
  | .multiSpace => "MultiSpace"
  | .eof => "Eof"
  | .takeWhile1 => "TakeWhile1"
  | .takeWhileMN => "TakeWhileMN"
  | .takeTill1 => "TakeTill1"
  | .isA => "IsA"
  | .isNot => "IsNot"
  | .many0 => "Many0"
  | .many1 => "Many1"
  | .manyMN => "ManyMN"
  | .manyTill => "ManyTill"
  | .count => "Count"
  | .separatedList => "SeparatedList"
  | .alt => "Alt"
  | .verify => "Verify"
  | .not => "Not"
  | .mapRes => "MapRes"
  | .fail => "Fail"
  | .user => "User"

/-- The kind with a given name. -/
def ofName? (s : String) : Option ErrorKind := all.find? fun kind => kind.name == s

/-- What was expected, as it stands in a message. -/
def description : ErrorKind → String
  | .tag => "tag"
  | .char => "character"
  | .oneOf => "one of a set"
  | .noneOf => "none of a set"
  | .digit => "digit"
  | .alpha => "alphabetic"
  | .alphaNumeric => "alphanumeric"
  | .space => "space"
  | .multiSpace => "whitespace"
  | .eof => "end of input"
  | .takeWhile1 => "at least one matching symbol"
  | .takeWhileMN => "bounded run of matching symbols"
  | .takeTill1 => "at least one non-terminating symbol"
  | .isA => "run of set members"
  | .isNot => "run of non-members"
  | .many0 => "repetition"
  | .many1 => "at least one repetition"
  | .manyMN => "bounded repetition"
  | .manyTill => "repetition until terminator"
  | .count => "exact repetition"
  | .separatedList => "separated list"
  | .alt => "one of the alternatives"
  | .verify => "verification"
  | .not => "negative lookahead"
  | .mapRes => "conversion"
  | .fail => "failure"
  | .user => "user defined"

instance : ToString ErrorKind := ⟨description⟩

/-- The place in the order. -/
def rank (kind : ErrorKind) : Nat := all.idxOf kind

instance : Ord ErrorKind := ⟨fun a b => compare a.rank b.rank⟩

end ErrorKind

end ParseKit
