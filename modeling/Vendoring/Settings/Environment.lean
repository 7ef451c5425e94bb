import Vendoring.Settings.EnvFile

/-!
# The environment

Variables and their values. `get?` is the view: setting a variable changes it alone, and adopting a
file's bindings sets only variables that are not there yet, so whatever is set first wins.
-/

namespace Vendoring.Settings

/-- The variables of a process, each once. -/
structure Environment where
  pairs : List (String × String)
  deriving DecidableEq, Repr

/-- Why an environment cannot be set up. -/
inductive VariableError where
  /-- The name holds an equals sign. -/
  | illegalName
  /-- The name or the value holds a null character. -/
  | nullCharacter
  /-- No variable and no account tells a home directory. -/
  | noHome
  deriving DecidableEq, Repr

/-- The wording of an error. -/
def VariableError.message : VariableError → String
  | .illegalName => "illegal environment variable name"
  | .nullCharacter => "embedded null byte"
  | .noHome => "Could not determine home directory."

namespace Environment

/-- The value of a variable. -/
def get? (e : Environment) (name : String) : Option String := e.pairs.lookup name

/-- Set a variable. -/
def set (e : Environment) (name value : String) : Environment :=
  ⟨(name, value) :: e.pairs.filter fun v ↦ v.1 ≠ name⟩

/-- Remove a variable. -/
def unset (e : Environment) (name : String) : Environment :=
  ⟨e.pairs.filter fun v ↦ v.1 ≠ name⟩

/-- What is wrong with a name or a value. -/
def fault? (name value : String) : Option VariableError :=
  if name.toList.contains '\x00' || value.toList.contains '\x00' then some .nullCharacter
  else if name.toList.contains '=' then some .illegalName
  else none

/-- Set the variables of bindings that have values and whose names are not set, in order. An
unusable name or value stops the adoption; what was set before it stays. -/
def adopt : List EnvFile.Binding → Environment → Except VariableError Unit × Environment
  | [], e => (.ok (), e)
  | (_, none) :: rest, e => adopt rest e
  | (name, some value) :: rest, e =>
    if (e.get? name).isSome then adopt rest e
    else match fault? name value with
      | some fault => (.error fault, e)
      | none => adopt rest (e.set name value)

/-- Adopt the bindings of a file's text. -/
def adoptFile (text : String) (e : Environment) : Except VariableError Unit × Environment :=
  adopt (EnvFile.expand e.get? (EnvFile.parse text)) e

private theorem lookup_filter_name_ne (vs : List (String × String)) {name other : String}
    (h : other ≠ name) : (vs.filter fun v ↦ v.1 ≠ name).lookup other = vs.lookup other := by
  induction vs with
  | nil => rfl
  | cons v rest ih =>
    obtain ⟨k, x⟩ := v
    by_cases hk : k = name
    · subst hk
      have ho : (other == k) = false := by simpa using h
      simpa [List.lookup_cons, ho] using ih
    · simp only [ne_eq, hk, not_false_eq_true, decide_true, List.filter_cons_of_pos,
        List.lookup_cons]
      split
      · rfl
      · simpa using ih

/-- A variable just set has its value. -/
@[simp]
theorem get?_set_self (e : Environment) (name value : String) :
    (e.set name value).get? name = some value := by
  simp [get?, set]

/-- Setting a variable leaves the others as they are. -/
theorem get?_set_of_ne (e : Environment) {name other : String} (value : String)
    (h : other ≠ name) : (e.set name value).get? other = e.get? other := by
  have ho : (other == name) = false := by simpa using h
  simp only [get?, set, List.lookup_cons, ho]
  exact lookup_filter_name_ne e.pairs h

/-- A removed variable has no value. -/
@[simp]
theorem get?_unset_self (e : Environment) (name : String) : (e.unset name).get? name = none := by
  simp only [get?, unset, List.lookup_eq_none_iff, List.mem_filter]
  rintro ⟨k, x⟩ ⟨_, hk⟩
  simp only [decide_eq_true_eq] at hk
  simpa using Ne.symm hk

end Environment
end Vendoring.Settings
