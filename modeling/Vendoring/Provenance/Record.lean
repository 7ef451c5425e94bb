import Vendoring.Data.Validation
import Vendoring.Instrumentation.Tag

/-!
# Provenance records

What an installed library was built from: its name and version, the instrumentation it carries,
and the vulnerabilities known and fixed in it. The two vulnerability lists are independent of each
other and keep their order; the instrumentation is a set.
-/

namespace Vendoring.Provenance

open Vendoring.Data Vendoring.Instrumentation

/-- The provenance of one installed library. -/
structure Record where
  libname : String
  version : String
  instrumentation : TagSet
  knownVulnerabilities : List String
  fixedVulnerabilities : List String
  deriving DecidableEq, Repr

namespace Record

/-- The name of the record in diagnostics. -/
def recordName : String := "VendorMetadata"

/-- Reads one tag. -/
def tagReader : Reader Tag := Reader.choice Tag.names Tag.ofName?

/-- Read a record's fields. The collections may be absent and are empty then. -/
def ofFields (entries : Entries) : Checked Record :=
  let texts := Reader.items .notTuple Reader.text
  Record.mk <$> entries.required "libname" Reader.text
    <*> entries.required "version" Reader.text
    <*> (entries.withDefault "instrumentation" (Reader.items .notSet tagReader) []).map
      TagSet.ofList
    <*> entries.withDefault "known_vulnerabilities" texts []
    <*> entries.withDefault "fixed_vulnerabilities" texts []

/-- A record's fields, with its tags as they are listed. -/
def toValue (r : Record) (listed : TagSet → List Tag := TagSet.tags) : Value :=
  .table [("libname", .text r.libname), ("version", .text r.version),
    ("instrumentation", .texts ((listed r.instrumentation).map Tag.name)),
    ("known_vulnerabilities", .texts r.knownVulnerabilities),
    ("fixed_vulnerabilities", .texts r.fixedVulnerabilities)]

end Record
end Vendoring.Provenance
