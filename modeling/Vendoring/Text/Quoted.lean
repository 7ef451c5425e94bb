import Vendoring.Text.Hex
import Vendoring.Text.Printable

/-!
# Quoted literals

Diagnostics show a text between quotes so that its extent and every hidden character can be seen.
Single quotes are used unless the text holds a single quote and no double quote. A backslash and
the quote in use are escaped; line feed, carriage return and tab have short escapes, and any other
hidden character is written by its code point in two, four or eight hexadecimal digits.
-/

namespace Vendoring.Text

/-- The quote that encloses a text. -/
def quoteFor (cs : List Char) : Char :=
  if cs.contains '\'' && !cs.contains '"' then '"' else '\''

/-- A character as a literal shows it between the given quotes. -/
def quotedChar (quote c : Char) : List Char :=
  if c == quote || c == '\\' then ['\\', c]
  else if c == '\n' then ['\\', 'n']
  else if c == '\r' then ['\\', 'r']
  else if c == '\t' then ['\\', 't']
  else if isPrintable c then [c]
  else if c.toNat < 0x100 then '\\' :: 'x' :: hexDigits 2 c.toNat
  else if c.toNat < 0x10000 then '\\' :: 'u' :: hexDigits 4 c.toNat
  else '\\' :: 'U' :: hexDigits 8 c.toNat

/-- A text as a quoted literal. -/
def quoted (s : String) : String :=
  let cs := s.toList
  let quote := quoteFor cs
  String.ofList (quote :: cs.flatMap (quotedChar quote) ++ [quote])

/-- A list of texts as literals between brackets. -/
def quotedList (items : List String) : String :=
  "[" ++ ", ".intercalate (items.map quoted) ++ "]"

/-- A list of texts as literals between parentheses; a single one is followed by a comma. -/
def quotedTuple (items : List String) : String :=
  match items with
  | [item] => "(" ++ quoted item ++ ",)"
  | items => "(" ++ ", ".intercalate (items.map quoted) ++ ")"

end Vendoring.Text
