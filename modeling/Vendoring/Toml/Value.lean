import Vendoring.Toml.Key
import Vendoring.Toml.Scalar
import Vendoring.Toml.Table

/-!
# Values

Strings, flags, numbers, moments, arrays and inline tables. Line feeds and comments may stand
between the items of an array but not within an inline table. An array or a table given in an
inline table may not be extended by a later key of it.
-/

namespace Vendoring.Toml

open Vendoring.Data

/-- What an inline table holds so far, and the keys of arrays and tables given in it. -/
structure Inline where
  entries : Entries
  frozen : List Key

/-- Add a value to an inline table, given the text after the value. -/
def Inline.add (t : Inline) (key : Key) (value : Value) (rest : List Char) : Parse Inline :=
  if t.frozen.any key.isWithin then refuse (.immutable key) rest
  else
    let name := key.getLast?.getD ""
    let frozen := if isContainer value then t.frozen ++ [key] else t.frozen
    match changeNest false (addNew name value) key.dropLast t.entries with
    | some entries => .ok ⟨entries, frozen⟩
    | none =>
      match changeNest false some key.dropLast t.entries with
      | some _ => refuse (.duplicateInlineKey name) rest
      | none => refuse .overwrite rest

mutual

/-- A value. The fuel bounds the number of values and keys. -/
def valueUpTo : Nat → List Char → Parse (Value × List Char)
  | 0, cs => refuse .invalidValue cs
  | fuel + 1, cs =>
    match cs with
    | '"' :: '"' :: '"' :: rest => do
      let (s, rest) ← multilineString false rest
      return (.text s, rest)
    | '"' :: rest => do
      let (s, rest) ← basicString rest
      return (.text s, rest)
    | '\'' :: '\'' :: '\'' :: rest => do
      let (s, rest) ← multilineString true rest
      return (.text s, rest)
    | '\'' :: rest => do
      let (s, rest) ← literalString rest
      return (.text s, rest)
    | 't' :: 'r' :: 'u' :: 'e' :: rest => .ok (.bool true, rest)
    | 'f' :: 'a' :: 'l' :: 's' :: 'e' :: rest => .ok (.bool false, rest)
    | '[' :: rest => do
      match ← skipFiller rest with
      | ']' :: rest => return (.list [], rest)
      | rest =>
        let (items, rest) ← itemsUpTo fuel rest
        return (.list items, rest)
    | '\x7b' :: rest =>
      match skipBlanks rest with
      | '\x7d' :: rest => .ok (.table [], rest)
      | rest => do
        let (entries, rest) ← inlineUpTo fuel ⟨[], []⟩ rest
        return (.table entries, rest)
    | cs => scalar cs

/-- One item of an array and those after it, up to the closing bracket. -/
def itemsUpTo : Nat → List Char → Parse (List Value × List Char)
  | 0, cs => refuse .unclosedArray cs
  | fuel + 1, cs => do
    let (item, rest) ← valueUpTo fuel cs
    match ← skipFiller rest with
    | ']' :: rest => return ([item], rest)
    | ',' :: rest =>
      match ← skipFiller rest with
      | ']' :: rest => return ([item], rest)
      | rest =>
        let (items, rest) ← itemsUpTo fuel rest
        return (item :: items, rest)
    | rest => refuse .unclosedArray rest

/-- One entry of an inline table and those after it, up to the closing brace. -/
def inlineUpTo : Nat → Inline → List Char → Parse (Entries × List Char)
  | 0, _, cs => refuse .unclosedInlineTable cs
  | fuel + 1, t, cs => do
    let (key, value, rest) ← pairUpTo fuel cs
    let t ← t.add key value rest
    match skipBlanks rest with
    | '\x7d' :: rest => return (t.entries, rest)
    | ',' :: rest => inlineUpTo fuel t (skipBlanks rest)
    | rest => refuse .unclosedInlineTable rest

/-- A key, an equals sign and a value. -/
def pairUpTo : Nat → List Char → Parse (Key × Value × List Char)
  | 0, cs => refuse .invalidKeyStart cs
  | fuel + 1, cs => do
    let (k, rest) ← key cs
    match rest with
    | '=' :: rest =>
      let (value, rest) ← valueUpTo fuel (skipBlanks rest)
      return (k, value, rest)
    | rest => refuse .missingEquals rest

end

/-- A key, an equals sign and a value, and the text after them. -/
def pair (cs : List Char) : Parse (Key × Value × List Char) := pairUpTo (2 * cs.length + 2) cs

end Vendoring.Toml
