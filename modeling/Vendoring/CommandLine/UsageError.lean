import Vendoring.Data.Validation
import Vendoring.Instrumentation.Tag

/-!
# Usage errors

What is wrong with a command line, found before the command does anything or when its tags are
looked up.
-/

namespace Vendoring.CommandLine

open Vendoring.Text Vendoring.Data Vendoring.Instrumentation

/-- Why a command line is refused. -/
inductive UsageError where
  | missingCommand
  | noSuchCommand (word : String)
  | noSuchOption (word : String)
  /-- An option stands at the end without its value. -/
  | noValue (word : String)
  /-- A switch is given a value. -/
  | takesNoValue (word : String)
  | missingOption (name : String)
  | missingArgument (name : String)
  | extraArguments (words : List String)
  /-- The value of an option, shown with all its names, is unusable. -/
  | badValue (names : List String) (problem : Problem)
  | unknownTag (word : String)
  deriving DecidableEq, Repr

/-- The wording of an error. -/
def UsageError.message : UsageError → String
  | .missingCommand => "Missing command."
  | .noSuchCommand word => "No such command " ++ quoted word ++ "."
  | .noSuchOption word => "No such option: " ++ word
  | .noValue word => "Option " ++ quoted word ++ " requires an argument."
  | .takesNoValue word => "Option " ++ quoted word ++ " does not take a value."
  | .missingOption name => "Missing option '" ++ name ++ "'."
  | .missingArgument name => "Missing argument '" ++ name ++ "'."
  | .extraArguments words =>
    "Got unexpected extra argument(s) (" ++ " ".intercalate words ++ ")"
  | .badValue names problem =>
    "Invalid value for " ++ " / ".intercalate (names.map quoted) ++ ": " ++ problem.message
  | .unknownTag word =>
    "Invalid value: unknown instrumentation " ++ quoted word ++ " (choose from " ++
      ", ".intercalate Tag.names ++ ")"

end Vendoring.CommandLine
