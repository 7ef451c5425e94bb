import Vendoring.Session.Action
import Vendoring.Settings.Fields

/-!
# Loading settings

Settings are loaded from the environment, and overrides replace what it says. Before the first load,
the files of variables in the project, the current directory and the home directory are adopted in
this order; a variable that is set already is never replaced. An empty variable counts as none.
-/

namespace Vendoring

open Vendoring.Text Vendoring.Data Vendoring.Files

namespace Settings

/-- The name of a file of variables. -/
def envFileName : String := ".env"

/-- The text of a directory without slashes at its end; the root keeps one. -/
def withoutSlashes (directory : String) : String :=
  match (directory.toList.reverse.dropWhile (· == '/')).reverse with
  | [] => "/"
  | cs => String.ofList cs

/-- The home directory: what the variable says, or else what the account has. -/
def homeDirectory (around : Surroundings) (e : Environment) : Except VariableError Path :=
  match (e.get? "HOME").or around.accountHome with
  | none => .error .noHome
  | some directory =>
    let text := withoutSlashes directory
    if text.startsWith "~" then .error .noHome else .ok (.ofString text)

/-- The files of variables in the order of their precedence. -/
def envFiles (around : Surroundings) (e : Environment) : Except VariableError (List Path) :=
  (homeDirectory around e).map fun home ↦
    [around.project, Path.here, home].map (·.below envFileName)

/-- Adopt a file of variables, if there is one. -/
def adoptEnvFile (p : Path) : Action Unit := do
  match ← Action.lookUp p with
  | some (.file bytes) =>
    let text ← Action.ofExcept .undecodable (Utf8.decode bytes)
    let s ← get
    let (r, environment) := s.environment.adoptFile text
    set { s with environment }
    Action.ofExcept .environment r
  | _ => return

/-- Adopt the files of variables unless this has been done. -/
def adoptEnvFiles : Action Unit := do
  let s ← get
  if s.adopted then return
  for p in ← Action.ofExcept .environment (envFiles (← read) s.environment) do
    adoptEnvFile p
  modify fun s ↦ { s with adopted := true }

/-- The value of a variable, if it is set and not empty. -/
def nonempty? (e : Environment) (name : String) : Option String :=
  (e.get? name).filter (· ≠ "")

/-- Whether a variable holds a word for yes, in any case. -/
def isOn (e : Environment) (name : String) : Bool :=
  ["1", "true", "yes"].contains (((e.get? name).getD "").map Char.toLower)

/-- The variables that are taken over as they are, with the fields they set. -/
def textVariables : List (String × String) :=
  [("VENDORKIT_NM", "nm_tool"), ("VENDORKIT_CLAIMER_MARKER", "claimer_marker"),
    ("VENDORKIT_CC", "cc"), ("VENDORKIT_CMAKE", "cmake"), ("VENDORKIT_LIBCRYPTO", "libcrypto_path")]

/-- The fields that an environment sets. -/
def fieldsOf (e : Environment) : Except IntegerError Entries := do
  let texts := textVariables.filterMap fun (name, field) ↦
    (nonempty? e name).map fun value ↦ (field, Value.text value)
  let jobs ← match nonempty? e "VENDORKIT_JOBS" with
    | none => pure []
    | some value => pure [("build_jobs", Value.int (← parseInt value))]
  return ("debug", .bool (isOn e "VENDORKIT_DEBUG")) :: texts ++ jobs

/-- Fields with overrides. -/
def override (fields overrides : Entries) : Entries :=
  overrides.foldl (fun fields (name, value) ↦ Entries.set fields name value) fields

/-- Load settings. -/
def load (overrides : Entries) : Action Settings := do
  adoptEnvFiles
  let fields ← Action.ofExcept .integer (fieldsOf (← get).environment)
  Action.ofExcept .fields (ofEntries (← read).processors (override fields overrides))

end Settings

/-- The settings given, or else those loaded without overrides. -/
def Action.settings (given : Option Settings) : Action Settings :=
  match given with
  | some settings => return settings
  | none => Settings.load []

end Vendoring
