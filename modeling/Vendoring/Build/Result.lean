import Vendoring.Build.Request
import Vendoring.Provenance.Record

/-!
# Build results

What became of each stage of a build, and the record it left. A build has succeeded when it has
stages and all of them went well.
-/

namespace Vendoring.Build

open Vendoring.Data Vendoring.Files Vendoring.Instrumentation Vendoring.Provenance

/-- What became of a stage. -/
inductive StageStatus where
  | ok
  | failed
  | skipped
  deriving DecidableEq, Repr

namespace StageStatus

/-- The word for a status. -/
def name : StageStatus → String
  | ok => "ok"
  | failed => "failed"
  | skipped => "skipped"

/-- All statuses. -/
def all : List StageStatus := [ok, failed, skipped]

/-- The status with a name. -/
def ofName? (word : String) : Option StageStatus := all.find? fun s ↦ s.name = word

end StageStatus

/-- One stage of a build. -/
structure Stage where
  name : String
  status : StageStatus
  detail : String
  /-- How long the stage took, in milliseconds. -/
  duration : Decimal
  deriving DecidableEq, Repr

namespace Stage

/-- The name of the record in diagnostics. -/
def recordName : String := "StageResult"

/-- A stage that was not run. -/
def skipped (name : String) : Stage := ⟨name, .skipped, "", .zero⟩

/-- Read the fields of a stage. -/
def ofFields (entries : Entries) : Checked Stage :=
  Stage.mk <$> entries.required "name" Reader.text
    <*> entries.withDefault "status"
      (Reader.choice (StageStatus.all.map StageStatus.name) StageStatus.ofName?) .ok
    <*> entries.withDefault "detail" Reader.text ""
    <*> entries.withDefault "duration_ms" Reader.number .zero

/-- The fields of a stage. -/
def toValue (s : Stage) : Value :=
  .table [("name", .text s.name), ("status", .text s.status.name), ("detail", .text s.detail),
    ("duration_ms", .decimal s.duration)]

end Stage

/-- The result of a build. -/
structure Result where
  request : Request
  stages : List Stage
  record : Option Record
  recordPath : Option Path
  deriving DecidableEq, Repr

namespace Result

/-- The name of the record in diagnostics. -/
def recordName : String := "VendorBuildResult"

/-- Whether the build has succeeded. -/
def success (r : Result) : Bool := !r.stages.isEmpty && r.stages.all (·.status = .ok)

/-- The stages that failed. -/
def failures (r : Result) : List Stage := r.stages.filter (·.status = .failed)

/-- The names of the stages that failed. -/
def failedNames (r : Result) : List String := r.failures.map Stage.name

/-- Read the fields of a result. -/
def ofFields (entries : Entries) : Checked Result :=
  Result.mk <$> entries.required "request" (Reader.record Request.recordName Request.ofFields)
    <*> entries.withDefault "stages"
      (Reader.items .notList (Reader.record Stage.recordName Stage.ofFields)) []
    <*> entries.withDefault "metadata"
      (Reader.optional (Reader.record Record.recordName Record.ofFields)) none
    <*> entries.withDefault "metadata_path" (Reader.optional pathReader) none

/-- The fields of a result, with its record's tags as they are listed. -/
def toValue (r : Result) (listed : TagSet → List Tag := TagSet.tags) : Value :=
  .table [("request", r.request.toValue), ("stages", .list (r.stages.map Stage.toValue)),
    ("metadata", (r.record.map (·.toValue listed)).getD .null),
    ("metadata_path", .text? (r.recordPath.map Path.text))]

end Result
end Vendoring.Build
