import Vendoring.Data.Decimal

/-!
# Values before validation

What a document or a caller offers for a field, before its type is checked: the scalars, lists and
tables of structured data. Tables keep their keys in the order of first appearance and hold each
key once.
-/

namespace Vendoring.Data

open Vendoring.Text

/-- A value of structured data. -/
inductive Value where
  | null
  | bool (b : Bool)
  | int (n : Int)
  | decimal (d : Decimal)
  /-- An infinity, given its sign. -/
  | infinite (negative : Bool)
  | notANumber
  | text (s : String)
  /-- A date, a time or both, as written. -/
  | moment (s : String)
  | list (items : List Value)
  | table (entries : List (String × Value))
  deriving Inhabited

/-- The entries of a table. -/
abbrev Entries := List (String × Value)

namespace Entries

/-- The value at a key. -/
def get? (entries : Entries) (key : String) : Option Value := entries.lookup key

/-- Set the value at a key: a present key keeps its place, a new one comes last. -/
def set (entries : Entries) (key : String) (value : Value) : Entries :=
  match entries with
  | [] => [(key, value)]
  | (k, v) :: rest => if k = key then (k, value) :: rest else (k, v) :: set rest key value

/-- The value just set is the value at the key. -/
theorem get?_set_self (entries : Entries) (key : String) (value : Value) :
    get? (set entries key value) key = some value := by
  induction entries with
  | nil => simp [set, get?]
  | cons e rest ih =>
    obtain ⟨k, v⟩ := e
    by_cases h : k = key
    · simp [set, get?, h]
    · have h' : (key == k) = false := by simpa using Ne.symm h
      rw [set, if_neg h, get?, List.lookup_cons, h']
      exact ih

/-- Setting a key leaves the other keys as they are. -/
theorem get?_set_of_ne (entries : Entries) {key other : String} (value : Value)
    (hne : other ≠ key) : get? (set entries key value) other = get? entries other := by
  induction entries with
  | nil =>
    have h' : (other == key) = false := by simpa using hne
    simp [set, get?, List.lookup_cons, h']
  | cons e rest ih =>
    obtain ⟨k, v⟩ := e
    by_cases h : k = key
    · subst h
      have h' : (other == k) = false := by simpa using hne
      simp [set, get?, List.lookup_cons, h']
    · rw [set, if_neg h, get?, get?, List.lookup_cons, List.lookup_cons]
      split
      · rfl
      · exact ih

end Entries

namespace Value

/-- A list of texts as a value. -/
def texts (items : List String) : Value := .list (items.map .text)

/-- A text or nothing as a value. -/
def text? : Option String → Value
  | none => .null
  | some s => .text s

/-- An integer or nothing as a value. -/
def int? : Option Int → Value
  | none => .null
  | some n => .int n

/-- The name of a value's type in diagnostics. -/
def typeName : Value → String
  | .null => "NoneType"
  | .bool _ => "bool"
  | .int _ => "int"
  | .decimal _ | .infinite _ | .notANumber => "float"
  | .text _ => "str"
  | .moment _ => "datetime"
  | .list _ => "list"
  | .table _ => "dict"

mutual

/-- A value as a diagnostic shows it. -/
def shown : Value → String
  | .null => "None"
  | .bool b => if b then "True" else "False"
  | .int n => intText n
  | .decimal d => d.text
  | .infinite negative => if negative then "-inf" else "inf"
  | .notANumber => "nan"
  | .text s => quoted s
  | .moment s => s
  | .list items => "[" ++ ", ".intercalate (shownItems items) ++ "]"
  | .table entries => "\x7b" ++ ", ".intercalate (shownEntries entries) ++ "\x7d"

/-- The items of a list, each as shown. -/
def shownItems : List Value → List String
  | [] => []
  | item :: rest => shown item :: shownItems rest

/-- The entries of a table, each as shown. -/
def shownEntries : List (String × Value) → List String
  | [] => []
  | (key, value) :: rest => (quoted key ++ ": " ++ shown value) :: shownEntries rest

end

/-- The values that iteration over a value yields: the items of a list, the characters of a text,
the keys of a table. Other values cannot be iterated over. -/
def iterate? : Value → Option (List Value)
  | .list items => some items
  | .text s => some (s.toList.map fun c ↦ .text (String.singleton c))
  | .table entries => some (entries.map fun e ↦ .text e.1)
  | _ => none

end Value
end Vendoring.Data
