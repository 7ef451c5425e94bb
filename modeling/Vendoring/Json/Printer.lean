import Vendoring.Data.Value

/-!
# Writing JSON

Values as ASCII JSON text. Characters outside printable ASCII are escaped by their UTF-16 units.
The indented layout puts every item on a line of its own, two spaces deeper than its container;
the compact layout has no blanks. An empty container is written as its two brackets in both.
-/

namespace Vendoring.Json

open Vendoring.Text Vendoring.Data

/-- A UTF-16 unit as an escape. -/
def unitEscape (n : Nat) : List Char := '\\' :: 'u' :: hexDigits 4 n

/-- A character inside a string. -/
def escapedChar (c : Char) : List Char :=
  if c = '"' ∨ c = '\\' then ['\\', c]
  else if c = '\n' then ['\\', 'n']
  else if c = '\r' then ['\\', 'r']
  else if c = '\t' then ['\\', 't']
  else if c = '\x08' then ['\\', 'b']
  else if c = '\x0c' then ['\\', 'f']
  else
    let n := c.toNat
    if 0x20 ≤ n ∧ n ≤ 0x7E then [c]
    else if n < 0x10000 then unitEscape n
    else unitEscape (0xD800 + (n - 0x10000) / 0x400) ++ unitEscape (0xDC00 + (n - 0x10000) % 0x400)

/-- A text as a string. -/
def string (s : String) : List Char :=
  '"' :: s.toList.flatMap escapedChar ++ ['"']

/-- What surrounds the items of a container at each depth. -/
structure Layout where
  /-- What stands before an item, and before a closing bracket, at a depth. -/
  lineBreak : Nat → List Char
  /-- What stands between a key and its value. -/
  colon : List Char

/-- Every item on its own line, two spaces deeper than its container. -/
def Layout.indented : Layout :=
  ⟨fun depth ↦ '\n' :: List.replicate (2 * depth) ' ', [':', ' ']⟩

/-- No blanks at all. -/
def Layout.compact : Layout := ⟨fun _ ↦ [], [':']⟩

mutual

/-- A value at a depth. -/
def write (layout : Layout) (depth : Nat) : Value → List Char
  | .null => "null".toList
  | .bool b => if b then "true".toList else "false".toList
  | .int n => (intText n).toList
  | .decimal d => d.text.toList
  | .infinite negative => if negative then "-Infinity".toList else "Infinity".toList
  | .notANumber => "NaN".toList
  | .text s => string s
  | .moment s => string s
  | .list [] => ['[', ']']
  | .list (item :: rest) =>
    '[' :: layout.lineBreak (depth + 1) ++ write layout (depth + 1) item ++
      writeItems layout (depth + 1) rest ++ layout.lineBreak depth ++ [']']
  | .table [] => ['\x7b', '\x7d']
  | .table ((key, value) :: rest) =>
    '\x7b' :: layout.lineBreak (depth + 1) ++ string key ++ layout.colon ++
      write layout (depth + 1) value ++ writeEntries layout (depth + 1) rest ++
      layout.lineBreak depth ++ ['\x7d']

/-- The items after the first, each after a comma. -/
def writeItems (layout : Layout) (depth : Nat) : List Value → List Char
  | [] => []
  | item :: rest =>
    ',' :: layout.lineBreak depth ++ write layout depth item ++ writeItems layout depth rest

/-- The entries after the first, each after a comma. -/
def writeEntries (layout : Layout) (depth : Nat) : List (String × Value) → List Char
  | [] => []
  | (key, value) :: rest =>
    ',' :: layout.lineBreak depth ++ string key ++ layout.colon ++ write layout depth value ++
      writeEntries layout depth rest

end

/-- A value as an indented document. -/
def indented (v : Value) : String := String.ofList (write .indented 0 v)

/-- A value on one line. -/
def compact (v : Value) : String := String.ofList (write .compact 0 v)

end Vendoring.Json
