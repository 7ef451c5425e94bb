import Vendoring.Files.Path
import Vendoring.Files.Tree
import Vendoring.Text.Quoted
import Vendoring.Text.Utf8

/-!
# Working with files

A workspace is a file tree and a current directory. Operations take paths, fail with a cause and
keep what they did before failing. A path is followed name by name: each name but the last has to
be in a directory, two dots lead to the directory above, and a name that is too long is refused
where it is looked up. Looking a path up from the outside tells a path that is refused from one at
which nothing is.

The process has all rights: it may read and write every file, search every directory and make
entries there, so there are no permissions to copy along with a file, and none to refuse an
operation. There are no links, and there is room for every file.
-/

namespace Vendoring.Files

open Vendoring.Text

/-- Why the file system refuses an operation. -/
inductive Cause where
  | noEntry
  | alreadyExists
  | notDirectory
  | isDirectory
  | nameTooLong
  deriving DecidableEq, Repr

namespace Cause

/-- The number of a cause. -/
def number : Cause → Nat
  | noEntry => 2
  | alreadyExists => 17
  | notDirectory => 20
  | isDirectory => 21
  | nameTooLong => 36

/-- The wording of a cause. -/
def text : Cause → String
  | noEntry => "No such file or directory"
  | alreadyExists => "File exists"
  | notDirectory => "Not a directory"
  | isDirectory => "Is a directory"
  | nameTooLong => "File name too long"

end Cause

/-- The most bytes that a name may have. -/
def nameLimit : Nat := 255

/-- The bytes from which on a path is too long. -/
def pathLimit : Nat := 4096

/-- Whether a directory can have an entry of a name. -/
def isShort (name : String) : Bool := (Utf8.encode name).length ≤ nameLimit

/-- Whether a path as a whole is too long. -/
def Path.isTooLong (p : Path) : Bool := pathLimit ≤ (Utf8.encode p.text).length

/-- Whether a path holds a null character, which no system call takes. -/
def Path.holdsNull (p : Path) : Bool := p.text.toList.contains '\x00'

/-- One entry in the account of a failed tree copy. -/
inductive CopyIssue where
  /-- A file or directory that could not be copied, and why. -/
  | failed (source target reason : String)
  /-- One character of the refusal to copy a file onto itself, which is listed by character. -/
  | character (c : Char)
  deriving DecidableEq, Repr

/-- An issue as the account shows it. -/
def CopyIssue.shown : CopyIssue → String
  | failed source target reason => quotedTuple [source, target, reason]
  | character c => quoted (String.singleton c)

/-- Why a file operation failed. -/
inductive FileError where
  /-- The file system refused an operation on a path. -/
  | system (cause : Cause) (path : String)
  /-- A file was to be copied onto itself. -/
  | sameFile (source target : String)
  /-- Parts of a tree could not be copied. -/
  | tree (issues : List CopyIssue)
  deriving DecidableEq, Repr

/-- The wording of an error. -/
def FileError.message : FileError → String
  | .system cause path =>
    "[Errno " ++ toString cause.number ++ "] " ++ cause.text ++ ": " ++ quoted path
  | .sameFile source target => source ++ " and " ++ target ++ " are the same file"
  | .tree issues => "[" ++ ", ".intercalate (issues.map CopyIssue.shown) ++ "]"

/-- A file tree and a current directory. -/
structure Workspace where
  tree : Tree
  here : Location
  deriving DecidableEq, Repr

/-- An operation that may fail and keeps what it did before. -/
abbrev Attempt (ε α : Type) := ExceptT ε (StateM Workspace) α

namespace Workspace

/-- Follow names from a place. -/
def walk (t : Tree) : Location → List String → Except Cause Location
  | l, [] => .ok l
  | l, name :: rest =>
    match t.find? l with
    | none => .error .noEntry
    | some (.file _) => .error .notDirectory
    | some .directory =>
      if name = ".." then walk t l.tail rest
      else if isShort name then walk t (name :: l) rest
      else .error .nameTooLong

/-- The place where a path starts. -/
def start (w : Workspace) (p : Path) : Location :=
  match p.anchor with
  | .relative => w.here
  | _ => []

/-- The place that a path leads to; nothing needs to be there yet. -/
def resolve (w : Workspace) (p : Path) : Except Cause Location :=
  walk w.tree (w.start p) p.parts

/-- What a path leads to. -/
def find? (w : Workspace) (p : Path) : Option Entry :=
  match w.resolve p with
  | .ok l => w.tree.find? l
  | .error _ => none

/-- Whether a path leads to a directory. -/
def isDirectory (w : Workspace) (p : Path) : Bool :=
  match w.find? p with
  | some .directory => true
  | _ => false

/-- The content of the file that a path leads to. -/
def content? (w : Workspace) (p : Path) : Option (List UInt8) :=
  match w.find? p with
  | some (.file bytes) => some bytes
  | _ => none

/-- The names in the directory that a path leads to, in code point order; none if it leads to no
directory. -/
def names (w : Workspace) (p : Path) : List String :=
  match w.resolve p with
  | .ok l => if w.isDirectory p then w.tree.names l else []
  | .error _ => []

/-- Whether a path is refused for a name that is too long. -/
def refusesName (w : Workspace) (p : Path) : Bool :=
  match w.resolve p with
  | .error .nameTooLong => true
  | _ => false

/-- Whether a path is refused when it is looked up: it is too long, as a whole or in one of its
names. A path that holds a null character never gets that far, and no name matches it. -/
def refuses (w : Workspace) (p : Path) : Bool :=
  !p.holdsNull && (p.isTooLong || w.refusesName p)

/-- What a path leads to, unless it is refused. -/
def lookUp (w : Workspace) (p : Path) : Except FileError (Option Entry) :=
  if w.refuses p then .error (.system .nameTooLong p.text) else .ok (w.find? p)

/-- Put an entry at a path, with directories above it wherever nothing is yet. -/
def plant (w : Workspace) (p : Path) (e : Entry) : Workspace :=
  let above := p.parts.dropLast.foldl (fun s name ↦
      let l := name :: s.2
      (if (s.1.find? l).isSome then s.1 else s.1.put l .directory, l))
    (w.tree, w.start p)
  match p.parts.getLast? with
  | none => w
  | some name => { w with tree := above.1.put (name :: above.2) e }

/-- Remove what a path leads to. -/
def remove (w : Workspace) (p : Path) : Workspace :=
  match w.resolve p with
  | .ok l => { w with tree := w.tree.remove l }
  | .error _ => w

/-- Name the path that an operation was refused on. -/
def named {α : Type} (path : String) (a : Attempt Cause α) : Attempt FileError α :=
  ExceptT.adapt (.system · path) a

/-- Put an entry at a place. -/
def putAt (l : Location) (e : Entry) : Attempt Cause Unit :=
  modify fun w ↦ { w with tree := w.tree.put l e }

/-- Make a directory at a path where nothing is. -/
def makeDirectory (p : Path) : Attempt Cause Unit := do
  let w ← get
  let l ← w.resolve p
  match w.tree.find? l with
  | some _ => throw .alreadyExists
  | none => putAt l .directory

/-- The content of the file at a path. -/
def readFile (p : Path) : Attempt Cause (List UInt8) := do
  let w ← get
  let l ← w.resolve p
  match w.tree.find? l with
  | some (.file bytes) => return bytes
  | some .directory => throw .isDirectory
  | none => throw .noEntry

/-- Write a file at a path, replacing one that is there. -/
def writeFile (p : Path) (bytes : List UInt8) : Attempt Cause Unit := do
  let w ← get
  let l ← w.resolve p
  match w.tree.find? l with
  | some .directory => throw .isDirectory
  | _ => putAt l (.file bytes)

/-- Make a directory unless there is one. -/
def ensureDirectory (p : Path) (path : String) : Attempt FileError Unit :=
  tryCatch (named path (makeDirectory p)) fun e ↦ do
    if (← get).isDirectory p then pure () else throw e

/-- Make a directory and at most a number of the directories above it, unless they are there. -/
def makeDirectoriesUpTo : Nat → Path → Attempt FileError Unit
  | 0, p => ensureDirectory p p.text
  | n + 1, p =>
    tryCatch (named p.text (makeDirectory p)) fun e ↦
      match e with
      | .system .noEntry _ => do
        makeDirectoriesUpTo n p.parent
        ensureDirectory p p.text
      | e => do
        if (← get).isDirectory p then pure () else throw e

/-- Make a directory and those above it, unless they are there. -/
def makeDirectories (p : Path) : Attempt FileError Unit :=
  makeDirectoriesUpTo p.parts.length p

end Workspace
end Vendoring.Files
