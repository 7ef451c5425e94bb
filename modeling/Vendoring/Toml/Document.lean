import Vendoring.Text.Split
import Vendoring.Toml.Value

/-!
# Documents

A document is a row of lines: assignments, headers that open a table or append to an array of
tables, comments and blank lines. A table is declared at most once; tables that dotted keys make
are closed to headers from the next header on; arrays and inline tables are never changed after
they were given.
-/

namespace Vendoring.Toml

open Vendoring.Text Vendoring.Data

/-- What a document has said so far. -/
structure Draft where
  /-- The content. -/
  entries : Entries
  /-- The key of the open table. -/
  header : Key
  /-- Tables that may not be declared. -/
  declared : List Key
  /-- Tables that may not be declared once the next header comes. -/
  pending : List Key
  /-- Values that may not be changed, at their keys and below. -/
  frozen : List Key

namespace Draft

/-- Nothing has been said. -/
def empty : Draft := ⟨[], [], [], [], []⟩

/-- Whether a key is that of an unchangeable value or lies below one. -/
def isFrozen (d : Draft) (key : Key) : Bool := key ≠ [] && d.frozen.any key.isWithin

/-- Whether a table has been declared. -/
def isDeclared (d : Draft) (key : Key) : Bool := key ≠ [] && d.declared.contains key

/-- A header has come: the pending tables count as declared. -/
def settle (d : Draft) : Draft := { d with declared := d.declared ++ d.pending, pending := [] }

/-- Open a table, given the text after its key. -/
def openTable (d : Draft) (key : Key) (rest : List Char) : Parse Draft :=
  if d.isDeclared key || d.isFrozen key then refuse (.declaredTwice key) rest
  else match changeNest true some key d.entries with
    | some entries => .ok { d with entries, header := key, declared := d.declared ++ [key] }
    | none => refuse .overwrite rest

/-- Append a table to an array of tables and open it, given the text after its key. What was
declared in the table before does not bind the new one. -/
def openArray (d : Draft) (key : Key) (rest : List Char) : Parse Draft :=
  if d.isFrozen key then refuse (.immutable key) rest
  else
    let declared := d.declared.filter (fun k ↦ !k.isWithin key) ++ [key]
    let frozen := d.frozen.filter fun k ↦ !k.isWithin key
    match changeNest true (appendTable (key.getLast?.getD "")) key.dropLast d.entries with
    | some entries => .ok { d with entries, header := key, declared, frozen }
    | none => refuse .overwrite rest

/-- The keys of the tables that a dotted key passes through below a header. -/
def passedKeys (header key : Key) : List Key :=
  (List.range (key.length - 1)).map fun i ↦ header ++ key.take (i + 1)

/-- Assign a value to a key of the open table, given the text after the value. -/
def assign (d : Draft) (key : Key) (value : Value) (rest : List Char) : Parse Draft :=
  let passed := passedKeys d.header key
  match passed.find? d.isDeclared with
  | some k => refuse (.redefined k) rest
  | none =>
    let above := d.header ++ key.dropLast
    if d.isFrozen above then refuse (.immutable above) rest
    else match changeNest true (addNew (key.getLast?.getD "") value) above d.entries with
      | none => refuse .overwrite rest
      | some entries =>
        let frozen := if isContainer value then d.frozen ++ [d.header ++ key] else d.frozen
        .ok { d with entries, pending := d.pending ++ passed, frozen }

end Draft

/-- The text after a header's closing brackets, which have to come next. -/
def closeHeader (brackets : List Char) (problem : Problem) (cs : List Char) : Parse (List Char) :=
  if brackets.isPrefixOf cs then .ok (cs.drop brackets.length) else refuse problem cs

/-- One statement, if the line has one, and the text after it and its blanks. -/
def statement (d : Draft) (cs : List Char) : Parse (Draft × List Char) :=
  match cs with
  | '[' :: '[' :: rest => do
    let (k, rest) ← key (skipBlanks rest)
    let d ← d.settle.openArray k rest
    let rest ← closeHeader [']', ']'] .unclosedArrayHeader rest
    return (d, skipBlanks rest)
  | '[' :: rest => do
    let (k, rest) ← key (skipBlanks rest)
    let d ← d.settle.openTable k rest
    let rest ← closeHeader [']'] .unclosedTableHeader rest
    return (d, skipBlanks rest)
  | '#' :: rest => .ok (d, '#' :: rest)
  | c :: rest =>
    if startsKey c then do
      let (k, value, rest) ← pair (c :: rest)
      let d ← d.assign k value rest
      return (d, skipBlanks rest)
    else refuse .invalidStatement (c :: rest)
  | [] => .ok (d, [])

/-- The lines of a document. The fuel bounds their number. -/
def linesUpTo : Nat → Draft → List Char → Parse Draft
  | 0, d, _ => .ok d
  | fuel + 1, d, cs =>
    match skipBlanks cs with
    | [] => .ok d
    | '\n' :: rest => linesUpTo fuel d rest
    | cs => do
      let (d, rest) ← statement d cs
      match ← skipComment rest with
      | [] => return d
      | '\n' :: rest => linesUpTo fuel d rest
      | rest => refuse .trailingText rest

/-- The content of a document. -/
def parse (s : String) : Except TomlError Entries :=
  let cs := joinNewlinePairs s.toList
  match linesUpTo (cs.length + 1) .empty cs with
  | .ok d => .ok d.entries
  | .error refusal => .error (refusal.toError cs)

end Vendoring.Toml
