import Vendoring.Data.Value
import Vendoring.Toml.Error

/-!
# Tables under construction

Following a key into nested tables makes the tables that are not there yet; an array of tables is
entered at its last table where arrays may be entered at all. Any other value in the way stops it.
-/

namespace Vendoring.Toml

open Vendoring.Data

/-- Whether a key is another or lies below it. -/
def Key.isWithin (key above : Key) : Bool := above.isPrefixOf key

/-- Change the table behind a key, making the tables on the way; nothing if a value is in the way
or the change is refused. -/
def changeNest (enterArrays : Bool) (change : Entries → Option Entries) :
    Key → Entries → Option Entries
  | [], entries => change entries
  | name :: rest, entries =>
    match entries.get? name with
    | none =>
      (changeNest enterArrays change rest []).map fun sub ↦ entries.set name (.table sub)
    | some (.table sub) =>
      (changeNest enterArrays change rest sub).map fun sub ↦ entries.set name (.table sub)
    | some (.list tables) =>
      if enterArrays then
        match tables.getLast? with
        | some (.table sub) => (changeNest enterArrays change rest sub).map fun sub ↦
            entries.set name (.list (tables.dropLast ++ [.table sub]))
        | _ => none
      else none
    | some _ => none

/-- Add an empty table to the array of tables at the last part of a key. -/
def appendTable (name : String) (entries : Entries) : Option Entries :=
  match entries.get? name with
  | none => some (entries.set name (.list [.table []]))
  | some (.list tables) => some (entries.set name (.list (tables ++ [.table []])))
  | some _ => none

/-- Set a name that is not present yet. -/
def addNew (name : String) (value : Value) (entries : Entries) : Option Entries :=
  match entries.get? name with
  | none => some (entries.set name value)
  | some _ => none

/-- Whether a value is a table or an array, which may not be changed after it was given. -/
def isContainer : Value → Bool
  | .table _ | .list _ => true
  | _ => false

/-- A new name in a table is set. -/
theorem addNew_of_get?_eq_none {name : String} {entries : Entries} (value : Value)
    (h : Entries.get? entries name = none) :
    addNew name value entries = some (Entries.set entries name value) := by
  simp [addNew, h]

end Vendoring.Toml
