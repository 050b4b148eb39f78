import FrameMachine.Text.Digits
import FrameMachine.Text.Unprinted

/-!
# Quoted text

Strings and characters as they stand in listings: between quotes, with a backslash before the quote
and the backslash, short names for the four common controls, and the number in hexadecimal for every
other character without a printed form of its own. A string keeps a single quote as it is, and a
character constant a double quote.
-/

set_option autoImplicit false

namespace FrameMachine.Text

/-- The hexadecimal number of a character between braces, as in `\u{1f468}`. -/
def numbered (c : Char) : List Char :=
  ['\\', 'u', '\x7b'] ++ Nat.toDigits 16 c.toNat ++ ['\x7d']

/-- One character inside quotes of the given kind. -/
def escape (quote : Char) (c : Char) : List Char :=
  if c = quote || c = '\\' then ['\\', c]
  else if c = '\x00' then ['\\', '0']
  else if c = '\t' then ['\\', 't']
  else if c = '\n' then ['\\', 'n']
  else if c = '\r' then ['\\', 'r']
  else if isUnprinted c then numbered c
  else [c]

/-- A list of characters between two quotes. -/
def quoteWith (quote : Char) (cs : List Char) : List Char :=
  quote :: cs.flatMap (escape quote) ++ [quote]

/-- A string between double quotes. -/
def quoteString (s : String) : String := String.ofList (quoteWith '\x22' s.toList)

/-- A character between single quotes. -/
def quoteChar (c : Char) : String := String.ofList (quoteWith '\x27' [c])

/-- A list of strings, each between double quotes, in brackets. -/
def quoteList (names : List String) : String :=
  "[" ++ String.intercalate ", " (names.map quoteString) ++ "]"

end FrameMachine.Text
