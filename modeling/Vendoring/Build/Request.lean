import Vendoring.Files.Path
import Vendoring.Instrumentation.Profile

/-!
# Build requests

What one vendored build is asked to do: which library and version, from which source, in which
directories, with which instrumentation, and which vulnerabilities its record should list.
-/

namespace Vendoring.Build

open Vendoring.Data Vendoring.Files Vendoring.Instrumentation

/-- Reads a path from text. -/
def pathReader : Reader Path
  | .text s => .valid (.ofString s)
  | _ => .fail .notPath

/-- A request for one vendored build. -/
structure Request where
  libname : String
  version : String
  source : Path
  build : Path
  destination : Path
  profile : Profile
  knownVulnerabilities : List String
  fixedVulnerabilities : List String
  skipCompile : Bool
  deriving DecidableEq, Repr

namespace Request

/-- The name of the record in diagnostics. -/
def recordName : String := "BuildRequest"

/-- Read the fields of a request. -/
def ofFields (entries : Entries) : Checked Request :=
  let texts := Reader.items .notList Reader.text
  Request.mk <$> entries.required "libname" Reader.text
    <*> entries.required "version" Reader.text
    <*> entries.required "source_dir" pathReader
    <*> entries.required "build_dir" pathReader
    <*> entries.required "prefix" pathReader
    <*> entries.withDefault "profile" (Reader.record Profile.recordName Profile.ofFields) .plain
    <*> entries.withDefault "known_vulnerabilities" texts []
    <*> entries.withDefault "fixed_vulnerabilities" texts []
    <*> entries.withDefault "skip_compile" Reader.flag false

/-- The fields of a request. -/
def toValue (r : Request) : Value :=
  .table [("libname", .text r.libname), ("version", .text r.version),
    ("source_dir", .text r.source.text), ("build_dir", .text r.build.text),
    ("prefix", .text r.destination.text), ("profile", r.profile.toValue),
    ("known_vulnerabilities", .texts r.knownVulnerabilities),
    ("fixed_vulnerabilities", .texts r.fixedVulnerabilities),
    ("skip_compile", .bool r.skipCompile)]

end Request
end Vendoring.Build
