import Vendoring.Build.VendorBuild
import Vendoring.CommandLine.Command

/-!
# Running commands

A command gives an exit code: zero, or one when an install or a build fails. Tags are looked up when
the command runs, after its settings are loaded.
-/

namespace Vendoring.CommandLine

open Vendoring.Text Vendoring.Data Vendoring.Files Vendoring.Instrumentation
open Vendoring.Entropy Vendoring.Build Vendoring.Provenance

/-- The tags of words, or an error for the first word that is none. -/
def tagsOfWords (words : List String) : Except UsageError TagSet :=
  TagSet.ofList <$> words.mapM fun word ↦
    match Tag.ofName? word with
    | some t => .ok t
    | none => .error (.unknownTag word)

/-- The settings with the overrides that are given. -/
def settingsWith (overrides : List (String × Option Value)) : Action Settings :=
  Settings.load (overrides.filterMap fun (name, value) ↦ value.map (name, ·))

/-- The override that a switch for debug lines stands for. -/
def debugOverride (debug : Bool) : String × Option Value :=
  ("debug", if debug then some (.bool true) else none)

/-- Install a build and tell how it went. -/
def runInstall (source build destination : Path) (debug : Bool) : Action Nat := do
  let settings ← settingsWith [debugOverride debug]
  match ← Action.outcome (Build.install (.ofSettings settings source build destination [] "")) with
  | .ok installed =>
    Action.writeLine ("[green]Installed " ++ toString installed.archives.length ++
      " archive(s) into " ++ installed.destination.text ++ "[/]")
    return 0
  | .error (.install e) =>
    Action.writeLine ("[red]Install failed: " ++ e.message ++ "[/]")
    return 1
  | .error e => throw e

/-- Scan a directory and tell the tags its libraries carry. -/
def runProbe (directory : Path) (tags : List String) (nm marker : Option String) (debug : Bool) :
    Action Nat := do
  let settings ← settingsWith
    [("nm_tool", nm.map .text), ("claimer_marker", marker.map .text), debugOverride debug]
  let requested ← Action.ofExcept .usage (tagsOfWords tags)
  let probe ← scan settings directory
  let names := (carriedTags (.ofTags requested) probe).names
  Action.writeLine ("Archives scanned: " ++ toString probe.archivesScanned.length)
  for path in probe.archivesMatched do
    Action.writeLine ("  [green]" ++ probe.marker ++ "[/] in " ++ path)
  if !probe.toolAvailable then
    Action.writeLine ("  [yellow]" ++ settings.nmTool ++
      " unavailable; claimer treated as absent[/]")
  Action.writeLine ("Instrumentation: " ++
    if names.isEmpty then "(none)" else ", ".intercalate names)
  return 0

/-- Emit the record of a description, into a directory if one is given. -/
def runMetadata (destination : Option Path) (d : Description) : Action Nat := do
  let tags ← Action.ofExcept .usage (tagsOfWords d.tags)
  let record : Record := ⟨d.libname, d.version, tags, d.known, d.fixed⟩
  match destination with
  | none => Action.write record.render
  | some directory =>
    let settings ← settingsWith []
    discard (writeRecord settings directory record)
  return 0

/-- Build a library and tell whether it succeeded. -/
def runBuildCommand (source build destination : Path) (d : Description) (skipCompile : Bool)
    (cc : Option String) (jobs : Option Int) (debug : Bool) : Action Nat := do
  let settings ← settingsWith
    [("cc", cc.map .text), ("build_jobs", jobs.map .int), debugOverride debug]
  let tags ← Action.ofExcept .usage (tagsOfWords d.tags)
  let result ← runBuild settings
    ⟨d.libname, d.version, source, build, destination, .ofTags tags, d.known, d.fixed,
      skipCompile⟩
  return if result.success then 0 else 1

/-- How many bytes a line of a dump shows. -/
def dumpWidth : Nat := 16

/-- The lines of a dump: an offset of at least eight digits, and the bytes from there on. -/
def dumpLines (offset : Nat) (bytes : List UInt8) : List String :=
  match bytes with
  | [] => []
  | b :: rest =>
    let row := (b :: rest).take dumpWidth
    (String.ofList (hexDigits 8 offset) ++ "  " ++
      " ".intercalate (row.map fun b ↦ String.ofList (hexByte b))) ::
      dumpLines (offset + dumpWidth) ((b :: rest).drop dumpWidth)
termination_by bytes.length
decreasing_by simp only [List.length_drop, List.length_cons, dumpWidth]; omega

/-- Dump the bytes drawn after seeding; a negative count draws none. -/
def runRng (seed count : Int) : Action Nat := do
  let g := ((default : Generator).seed (wordBytes (wordOf seed)) none).2
  for line in dumpLines 0 (g.draw count.toNat).1 do
    Action.write (line ++ "\n")
  return 0

/-- Run a command and give its exit code. -/
def Command.run : Command → Action Nat
  | .install source output destination debug => runInstall source output destination debug
  | .probe directory tags nm marker debug => runProbe directory tags nm marker debug
  | .metadata destination d => runMetadata destination d
  | .build source output destination d skipCompile cc jobs debug =>
    runBuildCommand source output destination d skipCompile cc jobs debug
  | .rng seed count => runRng seed count

/-- Run a command line. -/
def run (words : List String) : Action Nat := do
  let command ← Action.ofExcept .usage (Command.read (← read).integers words)
  command.run

end Vendoring.CommandLine
