import Vendoring.Settings.Load

/-!
# Records in files

A record is written into an install directory under the name that the settings give, and read back
from a path.
-/

namespace Vendoring.Provenance

open Vendoring.Files

/-- Write a record into a directory and give the path of its file. -/
def writeRecord (settings : Settings) (directory : Path) (r : Record) : Action Path := do
  Action.makeDirectories directory
  let path := directory.below settings.metadataFilename
  Action.writeText path r.render
  Action.say ("  [dim]Vendor metadata written: " ++ path.text ++ "[/]")
  return path

/-- Read the record in a file. -/
def loadRecord (path : Path) : Action Record := do
  let text ← Action.readText path
  Action.ofExcept Failure.ofReadError (Record.parse text)

end Vendoring.Provenance
