import Vendoring.Build.Result
import Vendoring.Json.Printer
import Vendoring.Session.Action

/-!
# Build reports

A summary of a build's result, written as JSON beside the installed files.
-/

namespace Vendoring.Build

open Vendoring.Data Vendoring.Files Vendoring.Instrumentation

/-- The name of a report's file. -/
def reportFileName : String := "vendor_build_report.json"

/-- The report of a result at a date and time, with its record's tags as they are listed. -/
def report (now : String) (r : Result) (listed : TagSet → List Tag := TagSet.tags) : Value :=
  .table [("vendorkit_report", .bool true), ("version", .text "1.0"), ("generated_at", .text now),
    ("success", .bool r.success), ("failed_stages", .texts r.failedNames),
    ("build", r.toValue listed)]

/-- The report of a result as it is made in surroundings. -/
def reportIn (around : Surroundings) (r : Result) : Value :=
  report around.now r (around.listing.tags r.request.profile)

/-- Write the report of a result into a directory and give the path of its file. -/
def saveReport (r : Result) (directory : Path) : Action Path := do
  Action.makeDirectories directory
  let path := directory.below reportFileName
  Action.writeText path (Json.indented (reportIn (← read) r))
  Action.say ("  [dim]Report saved: " ++ path.text ++ "[/]")
  return path

end Vendoring.Build
