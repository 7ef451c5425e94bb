import Vendoring.Provenance.Record
import Vendoring.Toml.Document

/-!
# Records as documents

A record is written as a TOML document of five lines, one for each field in a fixed order. Texts
are basic strings in which quotes, backslashes and control characters are escaped; collections are
arrays on one line, the tags in canonical order.
-/

namespace Vendoring.Provenance

open Vendoring.Text Vendoring.Data Vendoring.Instrumentation

/-- A character inside a basic string. -/
def escapedChar (c : Char) : List Char :=
  if c = '\\' then ['\\', '\\']
  else if c = '"' then ['\\', '"']
  else if c = '\x08' then ['\\', 'b']
  else if c = '\t' then ['\\', 't']
  else if c = '\n' then ['\\', 'n']
  else if c = '\x0c' then ['\\', 'f']
  else if c = '\r' then ['\\', 'r']
  else if c.toNat < 0x20 ∨ c.toNat = 0x7F then '\\' :: 'u' :: upperHexDigits 4 c.toNat
  else [c]

/-- A text as a basic string. -/
def basicString (s : String) : String :=
  String.ofList ('"' :: s.toList.flatMap escapedChar ++ ['"'])

/-- Texts as an array of basic strings. -/
def stringArray (items : List String) : String :=
  "[" ++ ", ".intercalate (items.map basicString) ++ "]"

namespace Record

/-- The lines of a record's document. -/
def lines (r : Record) : List String :=
  ["libname = " ++ basicString r.libname,
    "version = " ++ basicString r.version,
    "instrumentation = " ++ stringArray r.instrumentation.names,
    "known_vulnerabilities = " ++ stringArray r.knownVulnerabilities,
    "fixed_vulnerabilities = " ++ stringArray r.fixedVulnerabilities]

/-- The document of a record. -/
def render (r : Record) : String := "\n".intercalate r.lines ++ "\n"

/-- Why a text is not the document of a record. -/
inductive ReadError where
  | document (e : Toml.TomlError)
  | fields (e : ValidationError)
  deriving DecidableEq, Repr

/-- The record that a document holds. Other keys in the document are ignored. -/
def parse (s : String) : Except ReadError Record :=
  match Toml.parse s with
  | .error e => .error (.document e)
  | .ok entries => match (ofFields entries).toExcept recordName with
    | .ok r => .ok r
    | .error e => .error (.fields e)

end Record
end Vendoring.Provenance
