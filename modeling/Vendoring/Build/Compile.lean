import Vendoring.Instrumentation.Profile
import Vendoring.Settings.Load

/-!
# Compiling a library

A build is configured and then run by the build tool, under the compiler and the flags of a profile.
Only static libraries are built. The tool gets the current environment with the compiler added. The
first step that fails ends the compilation.
-/

namespace Vendoring.Build

open Vendoring.Text Vendoring.Files Vendoring.Instrumentation Vendoring.Tool

/-- The command line that configures a build. -/
def configureCommand (source build : String) (profile : Profile) (settings : Settings) :
    List String :=
  [settings.cmake, "-S", source, "-B", build, "-DCMAKE_C_COMPILER=" ++ settings.cc,
    "-DCMAKE_C_FLAGS=" ++ " ".intercalate profile.compilerFlags, "-DBUILD_SHARED_LIBS=OFF",
    "-DCMAKE_BUILD_TYPE=RelWithDebInfo"]

/-- The command line that runs a build. -/
def buildCommand (build : String) (settings : Settings) : List String :=
  [settings.cmake, "--build", build, "-j", intText settings.buildJobs]

/-- Run one step of a compilation. What the tool writes has to be text. -/
def runStep (words : List String) (settings : Settings) : Action (Except StepFault Unit) := do
  Action.debug settings.debug "compiler" (" ".intercalate words)
  let environment := (← get).environment.set "CC" settings.cc
  let run : Invocation := ⟨words, settings.compileTimeout, some environment⟩
  match ← Action.runBuilder run with
  | .exited status output errors =>
    let output ← Action.decoded output
    let errors ← Action.decoded errors
    return if status = 0 then .ok () else .error (.exited status output errors)
  | .notStarted fault => return .error (.notStarted run.tool fault)
  | .timedOut => return .error (.timedOut (Path.ofString run.tool).name)
  | .refused => throw .nullByte
  | .unwaitable wording => throw (.integer (.outOfRange wording))

/-- Compile a library. -/
def compile (settings : Settings) (source build : Path) (profile : Profile) :
    Action (Except CompileError Unit) := do
  if (← Action.lookUp source) ≠ some .directory then return .error (.noSource source.text)
  Action.makeDirectories build
  Action.say ("  [dim]Configuring " ++ source.name ++ " (" ++ profile.variantName ++ ")…[/]")
  match ← runStep (configureCommand source.text build.text profile settings) settings with
  | .error fault => return .error (.configure fault)
  | .ok _ =>
    Action.say "  [dim]Building…[/]"
    Action.writable settings.buildJobs
    match ← runStep (buildCommand build.text settings) settings with
    | .error fault => return .error (.build fault)
    | .ok _ => return .ok ()

end Vendoring.Build
