import Vendoring.CommandLine.Run

/-!
# The program

Runs a command line on an empty directory, without tools: dumps and records are written to the
standard output, what a command tells goes to the standard error, and a command that needs archives
or a compiler reports that there are none. A usage error exits with two and any other failure with
one.
-/

namespace Vendoring.Program

open Vendoring.Data Vendoring.Files Vendoring.Settings Vendoring.Tool

/-- The variables that commands look at. -/
def variableNames : List String :=
  ["HOME", "VENDORKIT_CC", "VENDORKIT_CMAKE", "VENDORKIT_JOBS", "VENDORKIT_NM",
    "VENDORKIT_CLAIMER_MARKER", "VENDORKIT_LIBCRYPTO", "VENDORKIT_DEBUG"]

/-- The variables that are set. -/
def readEnvironment : IO Environment := do
  let mut environment : Environment := ⟨[]⟩
  for name in variableNames do
    if let some value ← IO.getEnv name then environment := environment.set name value
  return environment

/-- Surroundings in which no tool is found and no time passes. -/
def surroundings : Surroundings where
  tools := {
    listSymbols := fun _ _ ↦ .notStarted .notFound
    build := fun _ _ files ↦ (.notStarted .notFound, files.tree) }
  clock := fun _ ↦ .zero
  now := "1970-01-01T00:00:00+00:00"
  processors := none
  project := Path.here
  located := none
  loadable := []

/-- A session in an empty directory. -/
def session (environment : Environment) : Session where
  files := ⟨Tree.empty, []⟩
  environment := environment
  adopted := false
  host := .ofLibraries []
  readings := 0
  builds := 0
  calls := []
  console := []
  output := ""

/-- The exit code of a failure. -/
def exitCode : Failure → Nat
  | .usage _ => 2
  | _ => 1

end Vendoring.Program

open Vendoring in
/-- Run a command line. -/
def main (words : List String) : IO UInt32 := do
  let environment ← Program.readEnvironment
  let (result, session) :=
    (CommandLine.run words).perform Program.surroundings (Program.session environment)
  for line in session.console do
    IO.eprintln line
  IO.print session.output
  match result with
  | .ok code => return code.toUInt32
  | .error e =>
    IO.eprintln e.message
    return (Program.exitCode e).toUInt32
