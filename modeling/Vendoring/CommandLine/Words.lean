import Vendoring.CommandLine.UsageError

/-!
# Words of a command line

The words after a command are options and plain words in any order. An option that takes a value
takes the next word, whatever it is, unless the value is joined to it: after an equals sign for a
long option, directly for a short one. Two dashes alone end the options.
-/

namespace Vendoring.CommandLine

/-- An option: its long name, its short name if it has one, and whether it takes a value. -/
structure OptionSpec where
  long : String
  short : Option Char
  takesValue : Bool
  deriving DecidableEq, Repr

namespace OptionSpec

/-- An option that takes a value. -/
def valued (long : String) (short : Option Char) : OptionSpec := ⟨long, short, true⟩

/-- An option that is given or not. -/
def switch (long : String) : OptionSpec := ⟨long, none, false⟩

/-- The short name of an option as it is written. -/
def shortName (c : Char) : String := String.ofList ['-', c]

/-- All names of an option. -/
def names (o : OptionSpec) : List String := o.long :: (o.short.map shortName).toList

end OptionSpec

/-- What words mean: an option with its value, an option that is given, or a plain word. -/
inductive Item where
  | value (option : OptionSpec) (value : String)
  | given (option : OptionSpec)
  | plain (word : String)
  deriving DecidableEq, Repr

/-- How a word that is an option begins. -/
structure Opening where
  /-- The option's name as written. -/
  name : String
  /-- The value joined to the name. -/
  joined : Option String
  /-- The option, if there is one of this name. -/
  option : Option OptionSpec
  deriving DecidableEq, Repr

/-- How a word begins, if it is an option. -/
def opening? (options : List OptionSpec) (word : String) : Option Opening :=
  match word.toList with
  | '-' :: '-' :: rest =>
    let name := String.ofList ('-' :: '-' :: rest.takeWhile (· != '='))
    let joined := match rest.dropWhile (· != '=') with
      | [] => none
      | _ :: value => some (String.ofList value)
    some ⟨name, joined, options.find? fun o ↦ o.long = name⟩
  | '-' :: c :: rest =>
    some ⟨OptionSpec.shortName c, if rest.isEmpty then none else some (String.ofList rest),
      options.find? fun o ↦ o.short = some c⟩
  | _ => none

/-- What the words of a command line mean. -/
def readWords (options : List OptionSpec) : List String → Except UsageError (List Item)
  | [] => .ok []
  | word :: rest =>
    if word = "--" then .ok (rest.map .plain)
    else match opening? options word with
      | none => (.plain word :: ·) <$> readWords options rest
      | some ⟨name, _, none⟩ => .error (.noSuchOption name)
      | some ⟨name, some value, some o⟩ =>
        if o.takesValue then (.value o value :: ·) <$> readWords options rest
        else .error (.takesNoValue name)
      | some ⟨name, none, some o⟩ =>
        if o.takesValue then
          match rest with
          | [] => .error (.noValue name)
          | value :: rest => (.value o value :: ·) <$> readWords options rest
        else (.given o :: ·) <$> readWords options rest

/-- The values given to an option, in order. -/
def valuesOf (o : OptionSpec) (items : List Item) : List String :=
  items.filterMap fun
    | .value p v => if p = o then some v else none
    | _ => none

/-- The last value given to an option. -/
def valueOf? (o : OptionSpec) (items : List Item) : Option String := (valuesOf o items).getLast?

/-- Whether an option is given. -/
def isGiven (o : OptionSpec) (items : List Item) : Bool := items.contains (.given o)

/-- The plain words, in order. -/
def plainWords (items : List Item) : List String :=
  items.filterMap fun
    | .plain w => some w
    | _ => none

end Vendoring.CommandLine
