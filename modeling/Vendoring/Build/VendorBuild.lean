import Vendoring.Build.Compile
import Vendoring.Build.Install
import Vendoring.Build.Progress
import Vendoring.Build.Report
import Vendoring.Build.Scan
import Vendoring.Provenance.Storage

/-!
# Vendored builds

A build compiles the library, installs it, scans the installed archives for the claimer and emits
the provenance record, in four stages of which the first that fails is the last that runs. The
report is saved in any case; that it cannot be saved is only told.
-/

namespace Vendoring.Build

open Vendoring.Files Vendoring.Instrumentation Vendoring.Provenance

/-- The record of a request's build after a scan. -/
def recordOf (r : Request) (probe : Probe) : Record :=
  ⟨r.libname, r.version, carriedTags r.profile probe, r.knownVulnerabilities,
    r.fixedVulnerabilities⟩

/-- Compile, unless the request says not to. -/
def compileStage (settings : Settings) (r : Request) : Action (Unit × String) := do
  if r.skipCompile then return ((), "skipped by request; using existing build output")
  match ← compile settings r.source r.build r.profile with
  | .error e => throw (.compile e)
  | .ok _ =>
    let flags := " ".intercalate r.profile.compilerFlags
    return ((), "flags: " ++ if flags = "" then "(none)" else flags)

/-- Install into the request's destination. -/
def installStage (settings : Settings) (r : Request) : Action (Unit × String) := do
  let installed ← install (.ofSettings settings r.source r.build r.destination [] "")
  return ((), toString installed.archives.length ++ " archive(s) → " ++ installed.libDir.text)

/-- Scan the installed archives. -/
def probeStage (settings : Settings) (r : Request) : Action (Probe × String) := do
  let probe ← scan settings (libraryDirectory r.destination)
  let found := if probe.claimerPresent then
      " found in " ++ toString probe.archivesMatched.length ++ " archive(s)"
    else " not found"
  return (probe, probe.marker ++ found)

/-- Write the record. -/
def emitStage (settings : Settings) (r : Request) (probe : Probe) : Action (Path × String) := do
  let path ← writeRecord settings r.destination (recordOf r probe)
  return (path, path.text)

/-- Save the report of a result, or tell that the files do not allow it. -/
def reportResult (r : Result) : Action Unit :=
  tryCatch (discard (saveReport r r.request.destination)) fun
    | .file e => Action.say ("[yellow]Could not save build report: " ++ e.message ++ "[/]")
    | e => throw e

/-- Build a vendored library. -/
def runBuild (settings : Settings) (r : Request) : Action Result := do
  let compiled ← (Progress.start ()).next "compile" fun _ ↦ compileStage settings r
  let installed ← compiled.next "install" fun _ ↦ installStage settings r
  let probed ← installed.next "probe" fun _ ↦ probeStage settings r
  let emitted ← probed.next "emit" (emitStage settings r)
  let result : Result :=
    ⟨r, emitted.stages, probed.carried.map (recordOf r), emitted.carried⟩
  reportResult result
  return result

end Vendoring.Build
