import Vendoring.Data.Decimal
import Vendoring.Instrumentation.Profile
import Vendoring.Session.Failure

/-!
# Actions

An action works on a session: the files, the environment, the host libraries, and a record of the
tools run and the lines shown. It also has surroundings that it cannot change: what the tools do,
what the clock shows, where the host's libraries are, and what the host decides on its own, such as
the order of a set. An action may fail, and what it did before failing stays done: the laws of
`perform` say so for every way of putting actions together.
-/

namespace Vendoring

open Vendoring.Text Vendoring.Data Vendoring.Files Vendoring.Settings Vendoring.Tool

/-- What the tools do. -/
structure Toolbox where
  /-- What listing the symbols of an archive gives, from the run and the archive's content. -/
  listSymbols : Invocation → Option (List UInt8) → Outcome
  /-- What a build run gives and how it leaves the files, from the number of build runs before. -/
  build : Nat → Invocation → Workspace → Outcome × Tree

/-- What an action cannot change. -/
structure Surroundings where
  tools : Toolbox
  /-- The reading of the clock in seconds, from the number of readings before. -/
  clock : Nat → Decimal
  /-- The date and time, as reports show it. -/
  now : String
  processors : Option Int
  /-- The directory of the project that the first file of variables belongs to. -/
  project : Path
  /-- Where the host finds its library of cryptography. -/
  located : Option String
  /-- The libraries that can be loaded, by path, each with its name. -/
  loadable : List (String × String)
  /-- The home directory of the account, for a process without a variable that says it. -/
  accountHome : Option String := some "/root"
  /-- The order in which sets of tags are listed in reports. -/
  listing : Instrumentation.Listing := .canonical
  /-- What a command's options read an integer with. -/
  integers : String → Checked Int := Reader.integerText
  /-- What a line with markup looks like on the standard output. -/
  shown : String → Except Markup.MarkupError String := Markup.render

/-- What an action works on. -/
structure Session where
  files : Workspace
  environment : Environment
  /-- Whether the files of variables have been adopted. -/
  adopted : Bool
  host : Entropy.Host
  /-- How often the clock has been read. -/
  readings : Nat
  /-- How often a build tool has been run. -/
  builds : Nat
  /-- The tools run, in order. -/
  calls : List Invocation
  /-- The lines shown on the console. -/
  console : List String
  /-- What was written to the standard output. -/
  output : String

/-- An action on a session. -/
abbrev Action (α : Type) := ReaderT Surroundings (ExceptT Failure (StateM Session)) α

namespace Action

variable {α β : Type}

/-- Perform an action. -/
def perform (a : Action α) (around : Surroundings) (s : Session) : Except Failure α × Session :=
  ((a.run around).run).run s

/-- Work on the files. -/
def onFiles (a : Attempt FileError α) : Action α := do
  let s ← get
  let (r, files) := a.run.run s.files
  set { s with files }
  match r with
  | .ok a => return a
  | .error e => throw (.file e)

/-- Give the failures of the file system in an action a cause of one's own. -/
def refusedAs (failure : FileError → Failure) (a : Action α) : Action α :=
  tryCatch a fun
    | .file e => throw (failure e)
    | e => throw e

/-- Work on the files, with a failure of one's own. -/
def onFilesElse (failure : FileError → Failure) (a : Attempt FileError α) : Action α :=
  refusedAs failure (onFiles a)

/-- Work on the host's libraries. -/
def onHost (f : Entropy.Host → Except Entropy.OverrideError α × Entropy.Host) : Action α := do
  let s ← get
  let (r, host) := f s.host
  set { s with host }
  match r with
  | .ok a => return a
  | .error e => throw (.override e)

/-- Refuse with an error. -/
def ofExcept {ε : Type} (failure : ε → Failure) : Except ε α → Action α
  | .ok a => return a
  | .error e => throw (failure e)

/-- The outcome of an action, whether it fails or not. -/
def outcome (a : Action α) : Action (Except Failure α) :=
  tryCatch (.ok <$> a) fun e ↦ return .error e

/-- Show a text with markup on the console. -/
def say (text : String) : Action Unit := do
  let shown ← ofExcept .markup (Markup.render text)
  modify fun s ↦ { s with console := s.console ++ splitLines shown }

/-- Show a line about a part of the program, as it is, if debugging is on. -/
def debug (enabled : Bool) (part text : String) : Action Unit := do
  if enabled then
    modify fun s ↦
      { s with console := s.console ++ splitLines ("[DEBUG:" ++ part ++ "] " ++ text) }

/-- Write a text to the standard output as it is. -/
def write (text : String) : Action Unit :=
  modify fun s ↦ { s with output := s.output ++ text }

/-- Write a line with markup to the standard output. -/
def writeLine (text : String) : Action Unit := do
  let line ← ofExcept .markup ((← read).shown text)
  write (line ++ "\n")

/-- Read the clock. -/
def readClock : Action Decimal := do
  let around ← read
  let s ← get
  set { s with readings := s.readings + 1 }
  return around.clock s.readings

/-- List the symbols of an archive. -/
def runLister (run : Invocation) (archive : Path) : Action Outcome := do
  let around ← read
  let s ← get
  set { s with calls := s.calls ++ [run] }
  return around.tools.listSymbols run (s.files.content? archive)

/-- Run a build tool. -/
def runBuilder (run : Invocation) : Action Outcome := do
  let around ← read
  let s ← get
  let (outcome, tree) := around.tools.build s.builds run s.files
  set { s with calls := s.calls ++ [run], builds := s.builds + 1, files := { s.files with tree } }
  return outcome

/-- Refuse a path that no system call takes. -/
def checkPath (p : Path) : Action Unit :=
  match Failure.ofPath? p with
  | some e => throw e
  | none => return

/-- What a path leads to. -/
def lookUp (p : Path) : Action (Option Entry) := do
  ofExcept .file ((← get).files.lookUp p)

/-- The bytes of a file. -/
def readBytes (p : Path) : Action (List UInt8) := do
  checkPath p
  onFiles (Workspace.named p.text (Workspace.readFile p))

/-- The text that bytes stand for, with its line endings unified. -/
def decoded (bytes : List UInt8) : Action String := do
  let text ← ofExcept .undecodable (Utf8.decode bytes)
  return unified text

/-- The text of a file. -/
def readText (p : Path) : Action String := do
  decoded (← readBytes p)

/-- Refuse an integer that has too many digits to be written. -/
def writable (n : Int) : Action Unit := do
  discard (ofExcept .integer (writtenInt n))

/-- Write a text to a file. -/
def writeText (p : Path) (text : String) : Action Unit := do
  checkPath p
  onFiles (Workspace.named p.text (Workspace.writeFile p (Utf8.encode text)))

/-- Make a directory and those above it, unless they are there. -/
def makeDirectories (p : Path) : Action Unit := do
  checkPath p
  onFiles (Workspace.makeDirectories p)

/-- Giving a value leaves the session as it is. -/
@[simp]
theorem perform_pure (a : α) (around : Surroundings) (s : Session) :
    perform (pure a) around s = (.ok a, s) := rfl

/-- A failure leaves the session as it is. -/
@[simp]
theorem perform_throw (e : Failure) (around : Surroundings) (s : Session) :
    perform (throw e : Action α) around s = (.error e, s) := rfl

/-- An action after another works on what the first one leaves, unless that fails. -/
theorem perform_bind (a : Action α) (f : α → Action β) (around : Surroundings) (s : Session) :
    perform (a >>= f) around s = match perform a around s with
      | (.ok x, s) => perform (f x) around s
      | (.error e, s) => (.error e, s) := by
  show (match (a around s : Except Failure α × Session) with
    | (x, s) => ExceptT.bindCont (m := StateM Session) (fun x ↦ f x around) x s) =
    match (a around s : Except Failure α × Session) with
    | (.ok x, s) => f x around s
    | (.error e, s) => (.error e, s)
  rcases (a around s : Except Failure α × Session) with ⟨_ | _, _⟩ <;> rfl

/-- A failure is handled in what the action that failed leaves. -/
theorem perform_tryCatch (a : Action α) (f : Failure → Action α) (around : Surroundings)
    (s : Session) :
    perform (tryCatch a f) around s = match perform a around s with
      | (.ok x, s) => (.ok x, s)
      | (.error e, s) => perform (f e) around s := by
  simp only [perform, tryCatch, tryCatchThe, MonadExceptOf.tryCatch, ExceptT.tryCatch,
    ExceptT.run, ExceptT.mk, ReaderT.run, StateT.run, bind, StateT.bind]
  rcases (a around s : Except Failure α × Session) with ⟨_ | _, _⟩ <;> rfl

/-- Changing the result of an action changes neither what it does nor whether it fails. -/
theorem perform_map (g : α → β) (a : Action α) (around : Surroundings) (s : Session) :
    perform (g <$> a) around s = ((perform a around s).1.map g, (perform a around s).2) := by
  rw [map_eq_pure_bind, perform_bind]
  rcases perform a around s with ⟨_ | _, _⟩ <;> rfl

/-- The outcome of an action keeps what the action did, and never fails. -/
@[simp]
theorem perform_outcome (a : Action α) (around : Surroundings) (s : Session) :
    perform (outcome a) around s = (.ok (perform a around s).1, (perform a around s).2) := by
  rw [outcome, perform_tryCatch, perform_map]
  rcases perform a around s with ⟨_ | _, _⟩ <;> rfl

end Action
end Vendoring
