import Vendoring.Text.Integer

/-!
# Errors in TOML documents

A document is refused for the first problem found in it. A refusal inside the parser tells how many
characters were left; against the whole text this becomes a line and a column, both counted from
one, or the end of the document. The one refusal without a place is a decimal integer with too many
digits.
-/

namespace Vendoring.Toml

open Vendoring.Text

/-- A dotted key. -/
abbrev Key := List String

/-- What is wrong at a place of a document. -/
inductive Problem where
  | invalidStatement
  | trailingText
  | invalidValue
  | missingEquals
  | invalidKeyStart
  | unclosedArray
  | unclosedInlineTable
  | unclosedTableHeader
  | unclosedArrayHeader
  | unterminatedString
  | unterminatedLiteral (delimiter : String)
  | illegalCharacter (c : Char)
  | invalidCharacter (c : Char)
  | invalidEscape
  | invalidHex
  | notScalar
  | invalidMoment
  | duplicateInlineKey (key : String)
  | overwrite
  | immutable (key : Key)
  | redefined (key : Key)
  | declaredTwice (key : Key)
  deriving DecidableEq, Repr

/-- The wording of a problem. -/
def Problem.message : Problem → String
  | invalidStatement => "Invalid statement"
  | trailingText => "Expected newline or end of document after a statement"
  | invalidValue => "Invalid value"
  | missingEquals => "Expected '=' after a key in a key/value pair"
  | invalidKeyStart => "Invalid initial character for a key part"
  | unclosedArray => "Unclosed array"
  | unclosedInlineTable => "Unclosed inline table"
  | unclosedTableHeader => "Expected ']' at the end of a table declaration"
  | unclosedArrayHeader => "Expected ']]' at the end of an array declaration"
  | unterminatedString => "Unterminated string"
  | unterminatedLiteral delimiter => "Expected " ++ quoted delimiter
  | illegalCharacter c => "Illegal character " ++ quoted (String.singleton c)
  | invalidCharacter c => "Found invalid character " ++ quoted (String.singleton c)
  | invalidEscape => "Unescaped '\\' in a string"
  | invalidHex => "Invalid hex value"
  | notScalar => "Escaped character is not a Unicode scalar value"
  | invalidMoment => "Invalid date or datetime"
  | duplicateInlineKey key => "Duplicate inline table key " ++ quoted key
  | overwrite => "Cannot overwrite a value"
  | immutable key => "Cannot mutate immutable namespace " ++ quotedTuple key
  | redefined key => "Cannot redefine namespace " ++ quotedTuple key
  | declaredTwice key => "Cannot declare " ++ quotedTuple key ++ " twice"

/-- Where a problem is. -/
inductive Place where
  | lineColumn (line column : Nat)
  | endOfDocument
  deriving DecidableEq, Repr

/-- The wording of a place. -/
def Place.message : Place → String
  | lineColumn line column => "line " ++ toString line ++ ", column " ++ toString column
  | endOfDocument => "end of document"

/-- The place in a text after a number of its characters. -/
def Place.ofOffset (cs : List Char) (offset : Nat) : Place :=
  if cs.length ≤ offset then .endOfDocument
  else
    let before := cs.take offset
    let line := before.filter (· == '\n')
    let column := before.reverse.takeWhile (· != '\n')
    .lineColumn (line.length + 1) (column.length + 1)

/-- Why a document is refused. -/
inductive TomlError where
  | malformed (problem : Problem) (place : Place)
  | oversizedInteger (e : IntegerError)
  deriving DecidableEq, Repr

/-- The wording of an error. -/
def TomlError.message : TomlError → String
  | .malformed problem place => problem.message ++ " (at " ++ place.message ++ ")"
  | .oversizedInteger e => e.message

/-- A refusal inside the parser: a problem and the number of characters left, or an integer with
too many digits. -/
inductive Refusal where
  | malformed (problem : Problem) (left : Nat)
  | oversizedInteger (e : IntegerError)
  deriving DecidableEq, Repr

/-- A refusal against the whole text. -/
def Refusal.toError (cs : List Char) : Refusal → TomlError
  | .malformed problem left => .malformed problem (.ofOffset cs (cs.length - left))
  | .oversizedInteger e => .oversizedInteger e

/-- Parsing a part of a document; a part's content is given along with the text after it. -/
abbrev Parse := Except Refusal

/-- Refuse the text at hand. -/
def refuse {α : Type} (problem : Problem) (cs : List Char) : Parse α :=
  .error (.malformed problem cs.length)

end Vendoring.Toml
