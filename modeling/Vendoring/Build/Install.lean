import Vendoring.Build.Archives
import Vendoring.Files.Copy
import Vendoring.Settings.Load

/-!
# Installing a build

The archives of the build's output directories go into the `lib` directory below the destination,
and the header tree of the source into a directory of its name beside it; `bin` is made and left
empty. All archives are found before the first is copied. Nothing is undone on failure: what was
copied before stays. A path that the system refuses to look up is no missing artefact: the refusal
is passed on as it is.
-/

namespace Vendoring.Build

open Vendoring.Data Vendoring.Files

/-- What an install was asked to take from where; absent choices come from the settings. -/
structure InstallRequest where
  source : Path
  build : Path
  destination : Path
  archiveSubdirs : List String
  headerDir : String
  deriving DecidableEq, Repr

/-- Where an install put things. -/
structure Installed where
  destination : Path
  libDir : Path
  binDir : Path
  includeDir : Path
  archives : List Path
  deriving DecidableEq, Repr

namespace Installed

/-- The fields of an install's result. -/
def toValue (r : Installed) : Value :=
  .table [("prefix", .text r.destination.text), ("lib_dir", .text r.libDir.text),
    ("bin_dir", .text r.binDir.text), ("include_dir", .text r.includeDir.text),
    ("archives", .texts (r.archives.map Path.text))]

end Installed

/-- The directory of installed archives. -/
def libraryDirectory (destination : Path) : Path := destination.below "lib"

/-- The directory of installed programs. -/
def programDirectory (destination : Path) : Path := destination.below "bin"

/-- The archives of an output directory, of which there has to be one. -/
def outputArchives (w : Workspace) (directory : Path) : Except Failure (List Path) :=
  match w.lookUp directory with
  | .error e => .error (.file e)
  | .ok (some .directory) =>
    let found := archivesIn w directory
    if found.isEmpty then .error (.install (.noArchives directory)) else .ok found
  | .ok _ => .error (.install (.noBuildOutput directory))

/-- The archives of the output directories, in the order of the directories. -/
def collectArchives (w : Workspace) (build : Path) : List String → Except Failure (List Path)
  | [] => .ok []
  | sub :: rest => do
    let found ← outputArchives w (build.below sub)
    return found ++ (← collectArchives w build rest)

/-- Copy an archive into the directory of installed archives. -/
def installArchive (libDir archive : Path) : Action Path := do
  let target := libDir.entry archive.name
  Action.onFilesElse (fun e ↦ .install (.archive archive e))
    (Workspace.copyFile (.ofPath archive) (.ofPath target))
  return target

/-- Install a build. -/
def install (r : InstallRequest) : Action Installed := do
  let libDir := libraryDirectory r.destination
  let binDir := programDirectory r.destination
  Action.refusedAs (fun e ↦ .install (.layout r.destination e)) (Action.checkPath libDir)
  Action.onFilesElse (fun e ↦ .install (.layout r.destination e)) do
    Workspace.makeDirectories libDir
    Workspace.makeDirectories binDir
  let archives ← Action.ofExcept id
    (collectArchives (← get).files r.build r.archiveSubdirs)
  let installed ← archives.mapM (installArchive libDir)
  Action.say ("  [dim]Installed " ++ toString installed.length ++ " archive(s) into " ++
    libDir.text ++ "[/]")
  let headers := r.source.below r.headerDir
  if (← Action.lookUp headers) ≠ some .directory then throw (.install (.noHeaders headers))
  let includeDir := r.destination.below headers.name
  Action.onFilesElse (fun e ↦ .install (.headers headers e))
    (Workspace.copyTree headers.text includeDir.text)
  return ⟨r.destination, libDir, binDir, includeDir, installed⟩

/-- A request with the choices of the settings wherever none is made. -/
def InstallRequest.ofSettings (settings : Settings) (source build destination : Path)
    (archiveSubdirs : List String) (headerDir : String) : InstallRequest :=
  ⟨source, build, destination,
    if archiveSubdirs.isEmpty then settings.archiveSubdirs else archiveSubdirs,
    if headerDir.isEmpty then settings.headerDir else headerDir⟩

end Vendoring.Build
