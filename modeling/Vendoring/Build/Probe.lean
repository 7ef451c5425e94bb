import Vendoring.Data.Validation
import Vendoring.Instrumentation.Profile

/-!
# Probe results

What scanning installed archives for a marker symbol found. The tags a build carries are the
requested ones, except that the claimer hook is carried exactly when its marker was found; asking
for it neither adds nor removes it.
-/

namespace Vendoring.Build

open Vendoring.Data Vendoring.Instrumentation

/-- The outcome of a scan. -/
structure Probe where
  marker : String
  archivesScanned : List String
  archivesMatched : List String
  toolAvailable : Bool
  errors : List String
  deriving DecidableEq, Repr

namespace Probe

/-- The name of the record in diagnostics. -/
def recordName : String := "ProbeResult"

/-- Nothing has been scanned yet. -/
def start (marker : String) : Probe := ⟨marker, [], [], true, []⟩

/-- Whether the marker was found in any archive. -/
def claimerPresent (p : Probe) : Bool := !p.archivesMatched.isEmpty

/-- Read the fields of an outcome. -/
def ofFields (entries : Entries) : Checked Probe :=
  let texts := Reader.items .notList Reader.text
  Probe.mk <$> entries.required "marker" Reader.text
    <*> entries.withDefault "archives_scanned" texts []
    <*> entries.withDefault "archives_matched" texts []
    <*> entries.withDefault "tool_available" Reader.flag true
    <*> entries.withDefault "errors" texts []

/-- The fields of an outcome. -/
def toValue (p : Probe) : Value :=
  .table [("marker", .text p.marker), ("archives_scanned", .texts p.archivesScanned),
    ("archives_matched", .texts p.archivesMatched), ("tool_available", .bool p.toolAvailable),
    ("errors", .texts p.errors)]

end Probe

/-- The tags a build carries: what was requested, with the claimer according to the probe. -/
def carriedTags (profile : Profile) (probe : Probe) : TagSet :=
  let requested := profile.requestedTags.erase .claimer
  if probe.claimerPresent then requested.insert .claimer else requested

/-- The claimer is carried exactly when its marker was found. -/
theorem claimer_mem_carriedTags {profile : Profile} {probe : Probe} :
    Tag.claimer ∈ carriedTags profile probe ↔ probe.claimerPresent = true := by
  unfold carriedTags
  split <;> simp_all

/-- Any other tag is carried exactly when it was requested. -/
theorem mem_carriedTags_of_ne {profile : Profile} {probe : Probe} {t : Tag} (h : t ≠ .claimer) :
    t ∈ carriedTags profile probe ↔ profile.requests t = true := by
  unfold carriedTags
  split <;> simp [h]

end Vendoring.Build
