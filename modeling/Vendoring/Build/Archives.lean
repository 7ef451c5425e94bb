import Vendoring.Files.Workspace

/-!
# Archives in a directory

The archives of a directory are its entries whose names end in `.a`, whatever they are, in code
point order of their names. A directory that does not exist has none, and one that cannot be looked
up cannot be listed.
-/

namespace Vendoring.Build

open Vendoring.Files

/-- Whether a name is that of an archive. -/
def isArchiveName (name : String) : Bool := ['a', '.'].isPrefixOf name.toList.reverse

/-- The archives of a directory. -/
def archivesIn (w : Workspace) (directory : Path) : List Path :=
  ((w.names directory).filter isArchiveName).map directory.entry

/-- The archives found by listing a directory, which need not exist. -/
def listArchives (w : Workspace) (directory : Path) : Except FileError (List Path) :=
  (w.lookUp directory).map fun
    | some .directory => archivesIn w directory
    | _ => []

/-- An archive of a directory is an entry of it with an archive's name. -/
theorem mem_archivesIn {w : Workspace} {directory p : Path} :
    p ∈ archivesIn w directory ↔
      ∃ name ∈ w.names directory, isArchiveName name = true ∧ p = directory.entry name := by
  simp only [archivesIn, List.mem_map, List.mem_filter]
  constructor
  · rintro ⟨name, ⟨hm, ha⟩, rfl⟩
    exact ⟨name, hm, ha, rfl⟩
  · rintro ⟨name, hm, ha, rfl⟩
    exact ⟨name, ⟨hm, ha⟩, rfl⟩

end Vendoring.Build
