/-
  Quoted text: how a text is shown inside a message.

  The text stands between double quotes.  A quote, a backslash and the line
  feed, carriage return, tab and null characters have short escapes; every
  other character without a visible form of its own is written by its code.
-/
import ParseKit.Text.Invisible

set_option autoImplicit false

namespace ParseKit.Text.Quoted

/-- A character by its code, in lower-case hexadecimal between braces. -/
def byCode (c : Char) : List Char :=
  '\\' :: 'u' :: '\x7b' :: (Nat.toDigits 16 c.toNat ++ ['\x7d'])

/-- One character as it stands inside the quotes. -/
def encodeChar (c : Char) : List Char :=
  if c = '"' then ['\\', '"']
  else if c = '\\' then ['\\', '\\']
  else if c = '\n' then ['\\', 'n']
  else if c = '\r' then ['\\', 'r']
  else if c = '\t' then ['\\', 't']
  else if c = '\x00' then ['\\', '0']
  else if Invisible.contains c then byCode c
  else [c]

/-- A text between its quotes. -/
def encode (cs : List Char) : String :=
  String.ofList ('"' :: (cs.flatMap encodeChar ++ ['"']))

end ParseKit.Text.Quoted
