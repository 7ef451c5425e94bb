import Vendoring.Files.Workspace

/-!
# Copying files and trees

Copying a file onto a directory copies it into the directory. Copying a tree makes the target
directory unless it is there and copies every entry in name order; an entry that fails is recorded
and the rest is still copied. A copy has the bytes of its source. It would also get the source's
permissions and times, which files have not got here: whatever was copied can be copied over.
-/

namespace Vendoring.Files

open Vendoring.Text

/-- A file that an operation refers to: where it is, how errors name it and how they show it. -/
structure Reference where
  path : Path
  text : String
  shown : String
  deriving DecidableEq, Repr

namespace Reference

/-- A file given by a path. -/
def ofPath (p : Path) : Reference := ⟨p, p.text, "PosixPath(" ++ quoted p.text ++ ")"⟩

/-- A file given by text. -/
def ofText (s : String) : Reference := ⟨.ofString s, s, quoted s⟩

/-- The text of an entry of a directory. -/
def entryText (directory name : String) : String :=
  if directory.endsWith "/" then directory ++ name else directory ++ "/" ++ name

/-- A file found by listing a directory. -/
def listed (directory name : String) : Reference :=
  let text := entryText directory name
  ⟨.ofString text, text, "<DirEntry " ++ quoted name ++ ">"⟩

end Reference

namespace Workspace

/-- Whether two paths lead to one and the same entry. -/
def sameEntry (w : Workspace) (p q : Path) : Bool :=
  match w.resolve p, w.resolve q with
  | .ok l, .ok m => l = m && (w.tree.find? l).isSome
  | _, _ => false

/-- Copy a file; if the target is a directory, into it. -/
def copyFile (source target : Reference) : Attempt FileError Unit := do
  let w ← get
  let target := if w.isDirectory target.path then
      Reference.ofText (Reference.entryText target.text source.path.name)
    else target
  if w.sameEntry source.path target.path then throw (.sameFile source.shown target.shown)
  let bytes ← named source.text (readFile source.path)
  named target.text (writeFile target.path bytes)

/-- Do a part of a tree copy; what fails becomes issues. -/
def collect (source target : String) (part : Attempt FileError Unit) :
    StateM Workspace (List CopyIssue) := do
  match ← part.run with
  | .ok _ => return []
  | .error (.tree issues) => return issues
  | .error e@(.sameFile _ _) => return e.message.toList.map .character
  | .error e => return [.failed source target e.message]

/-- Copy the tree of a directory, at most a number of levels deep. -/
def copyTreeUpTo : Nat → String → String → Attempt FileError Unit
  | 0, source, _ => throw (.system .nameTooLong source)
  | depth + 1, source, target => do
    let names := (← get).names (.ofString source)
    ensureDirectory (.ofString target) target
    let issues ← names.foldlM (fun (issues : List CopyIssue) name ↦ do
      let entry := Reference.listed source name
      let copy := Reference.entryText target name
      let part := if (← get).isDirectory entry.path then copyTreeUpTo depth entry.text copy
        else copyFile entry (.ofText copy)
      return issues ++ (← collect entry.text copy part)) []
    if issues.isEmpty then pure () else throw (.tree issues)

/-- Copy the tree of a directory onto another, which need not exist. -/
def copyTree (source target : String) : Attempt FileError Unit := do
  copyTreeUpTo ((← get).tree.depth + 1) source target

end Workspace
end Vendoring.Files
