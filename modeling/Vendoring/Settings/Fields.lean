import Vendoring.Data.Validation

/-!
# Settings

What a run needs to know beside its request: the tools and how long they may take, the marker to
look for, the layout of builds and records, the host library, and whether to print debug lines.
Every field has a default; that of the number of build jobs is the number of processors.
-/

namespace Vendoring

open Vendoring.Data

/-- The settings of a run. -/
structure Settings where
  cc : String
  cmake : String
  buildJobs : Int
  compileTimeout : Option Int
  nmTool : String
  claimerMarker : String
  probeTimeout : Option Int
  archiveSubdirs : List String
  headerDir : String
  metadataFilename : String
  libcryptoPath : Option String
  debug : Bool
  deriving DecidableEq, Repr

namespace Settings

/-- The name of the record in diagnostics. -/
def recordName : String := "Config"

/-- The number of jobs for a number of processors, which may be unknown. -/
def jobsFor (processors : Option Int) : Int :=
  match processors with
  | none => 1
  | some n => if n = 0 then 1 else n

/-- Read the fields of settings. -/
def ofFields (processors : Option Int) (entries : Entries) : Checked Settings :=
  Settings.mk <$> entries.withDefault "cc" Reader.text "clang"
    <*> entries.withDefault "cmake" Reader.text "cmake"
    <*> entries.withDefault "build_jobs" Reader.integer (jobsFor processors)
    <*> entries.withDefault "compile_timeout" (Reader.optional Reader.integer) none
    <*> entries.withDefault "nm_tool" Reader.text "nm"
    <*> entries.withDefault "claimer_marker" Reader.text "register_claimer"
    <*> entries.withDefault "probe_timeout" (Reader.optional Reader.integer) none
    <*> entries.withDefault "archive_subdirs" (Reader.items .notList Reader.text) ["crypto", "ssl"]
    <*> entries.withDefault "header_dir" Reader.text "include"
    <*> entries.withDefault "metadata_filename" Reader.text "vendor.toml"
    <*> entries.withDefault "libcrypto_path" (Reader.optional Reader.text) none
    <*> entries.withDefault "debug" Reader.flag false

/-- The settings that fields describe. -/
def ofEntries (processors : Option Int) (entries : Entries) : Except ValidationError Settings :=
  (ofFields processors entries).toExcept recordName

/-- The fields of settings. -/
def toValue (s : Settings) : Value :=
  .table [("cc", .text s.cc), ("cmake", .text s.cmake), ("build_jobs", .int s.buildJobs),
    ("compile_timeout", .int? s.compileTimeout), ("nm_tool", .text s.nmTool),
    ("claimer_marker", .text s.claimerMarker), ("probe_timeout", .int? s.probeTimeout),
    ("archive_subdirs", .texts s.archiveSubdirs), ("header_dir", .text s.headerDir),
    ("metadata_filename", .text s.metadataFilename), ("libcrypto_path", .text? s.libcryptoPath),
    ("debug", .bool s.debug)]

end Settings
end Vendoring
