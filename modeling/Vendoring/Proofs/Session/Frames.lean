import Vendoring.Proofs.Files.Frames
import Vendoring.Session.Action

/-!
# Frames

The effect of each basic action on a session, what a sequence of actions that gives a value did on
the way, and frames: relations between the sessions before and after an action that hold of a
sequence of actions when they hold of each of them, whether the actions fail or not.
-/

namespace Vendoring

open Vendoring.Text Vendoring.Data Vendoring.Files Vendoring.Tool

namespace Action

variable {α β ε : Type} {around : Surroundings} {s t u : Session}

/-- Looking at the session leaves it as it is. -/
@[simp]
theorem perform_get (around : Surroundings) (s : Session) :
    perform (get : Action Session) around s = (.ok s, s) := rfl

/-- Looking at the surroundings leaves the session as it is. -/
@[simp]
theorem perform_read (around : Surroundings) (s : Session) :
    perform (read : Action Surroundings) around s = (.ok around, s) := rfl

/-- A sequence of two actions gives a value exactly when both do, one after the other. -/
theorem perform_bind_eq_ok {a : Action α} {f : α → Action β} {b : β} :
    perform (a >>= f) around s = (.ok b, u) ↔
      ∃ x t, perform a around s = (.ok x, t) ∧ perform (f x) around t = (.ok b, u) := by
  rw [perform_bind]
  constructor
  · intro h
    split at h
    · next x t ht => exact ⟨x, t, ht, h⟩
    · cases h
  · rintro ⟨x, t, ht, hu⟩
    rw [ht]
    exact hu

/-- Acting on the elements of a list in turn gives values exactly when this is so for the first and
then for the others. -/
theorem perform_mapM_cons_eq_ok {f : α → Action β} {x : α} {xs : List α} {ys : List β} :
    perform ((x :: xs).mapM f) around s = (.ok ys, u) ↔
      ∃ y t rest, perform (f x) around s = (.ok y, t) ∧
        perform (xs.mapM f) around t = (.ok rest, u) ∧ ys = y :: rest := by
  rw [List.mapM_cons]
  constructor
  · intro h
    obtain ⟨y, t, hfirst, h⟩ := perform_bind_eq_ok.mp h
    obtain ⟨rest, v, hrest, h⟩ := perform_bind_eq_ok.mp h
    cases h
    exact ⟨y, t, rest, hfirst, hrest, rfl⟩
  · rintro ⟨y, t, rest, hfirst, hrest, rfl⟩
    exact perform_bind_eq_ok.mpr ⟨y, t, hfirst, perform_bind_eq_ok.mpr ⟨rest, u, hrest, rfl⟩⟩

/-- A sequence of two actions fails exactly when the first one does, or the second one after it. -/
theorem perform_bind_eq_error {a : Action α} {f : α → Action β} {e : Failure} :
    perform (a >>= f) around s = (.error e, u) ↔
      perform a around s = (.error e, u) ∨
        ∃ x t, perform a around s = (.ok x, t) ∧ perform (f x) around t = (.error e, u) := by
  rw [perform_bind]
  rcases perform a around s with ⟨e' | x, t⟩
  · constructor
    · intro h
      cases h
      exact .inl rfl
    · rintro (h | ⟨x, t, h, _⟩)
      · cases h
        rfl
      · cases h
  · constructor
    · exact fun h ↦ .inr ⟨x, t, rfl, h⟩
    · rintro (h | ⟨x', t', hx, h⟩)
      · cases h
      · cases hx
        exact h

/-- Refusing with an error leaves the session as it is. -/
theorem perform_ofExcept (failure : ε → Failure) (r : Except ε α) (around : Surroundings)
    (s : Session) : perform (ofExcept failure r) around s = (r.mapError failure, s) := by
  cases r <;> rfl

/-- A result that is no error is given, and the session stays as it is. -/
theorem perform_ofExcept_eq_ok {failure : ε → Failure} {r : Except ε α} {x : α} :
    perform (ofExcept failure r) around s = (.ok x, t) ↔ r = .ok x ∧ t = s := by
  rw [perform_ofExcept]
  cases r with
  | error e => simp
  | ok y => simp [eq_comm]

/-- An action on the files changes the files alone. -/
theorem perform_onFiles (a : Attempt FileError α) (around : Surroundings) (s : Session) :
    perform (onFiles a) around s =
      ((Attempt.perform a s.files).1.mapError .file,
        { s with files := (Attempt.perform a s.files).2 }) := by
  unfold onFiles Attempt.perform
  rw [perform_bind, perform_get]
  dsimp only
  generalize a.run.run s.files = result
  rcases result with ⟨_ | _, files⟩
  · rfl
  · rfl

/-- An action on the files gives a value exactly when the attempt does. -/
theorem perform_onFiles_eq_ok {a : Attempt FileError α} {x : α} :
    perform (onFiles a) around s = (.ok x, t) ↔
      ∃ files, Attempt.perform a s.files = (.ok x, files) ∧ t = { s with files } := by
  rw [perform_onFiles]
  rcases Attempt.perform a s.files with ⟨e | y, files⟩
  · simp
  · constructor
    · rintro ⟨⟩
      exact ⟨files, rfl, rfl⟩
    · rintro ⟨_, ⟨⟩, rfl⟩
      rfl

/-- Where the file system does not fail an action, its failures have no other cause. -/
theorem perform_refusedAs (failure : FileError → Failure) (a : Action α) (around : Surroundings)
    (s : Session) :
    perform (refusedAs failure a) around s =
      ((perform a around s).1.mapError (fun
        | .file e => failure e
        | e => e), (perform a around s).2) := by
  rw [refusedAs, perform_tryCatch]
  rcases perform a around s with ⟨e | x, t⟩
  · cases e <;> rfl
  · rfl

/-- An action on the files with a failure of its own gives a value exactly when the attempt does. -/
theorem perform_onFilesElse_eq_ok {failure : FileError → Failure} {a : Attempt FileError α}
    {x : α} :
    perform (onFilesElse failure a) around s = (.ok x, t) ↔
      ∃ files, Attempt.perform a s.files = (.ok x, files) ∧ t = { s with files } := by
  rw [← perform_onFiles_eq_ok, onFilesElse, perform_refusedAs, perform_onFiles]
  rcases Attempt.perform a s.files with ⟨e | y, files⟩
  · simp
  · rfl

/-- An action on the files with a failure of its own changes the files alone. -/
theorem perform_onFilesElse (failure : FileError → Failure) (a : Attempt FileError α)
    (around : Surroundings) (s : Session) :
    perform (onFilesElse failure a) around s =
      ((Attempt.perform a s.files).1.mapError failure,
        { s with files := (Attempt.perform a s.files).2 }) := by
  rw [onFilesElse, perform_refusedAs, perform_onFiles]
  rcases Attempt.perform a s.files with ⟨e | y, files⟩
  · rfl
  · rfl

/-- A path is refused, or nothing happens. -/
theorem perform_checkPath (p : Path) (around : Surroundings) (s : Session) :
    perform (checkPath p) around s = match Failure.ofPath? p with
      | some e => (.error e, s)
      | none => (.ok (), s) := by
  unfold checkPath
  cases Failure.ofPath? p <;> rfl

/-- A path is not refused, with a cause of one's own, exactly when system calls take it. -/
theorem perform_refusedAs_checkPath_eq_ok {failure : FileError → Failure} {p : Path} :
    perform (refusedAs failure (checkPath p)) around s = (.ok (), t) ↔
      Failure.ofPath? p = none ∧ t = s := by
  rw [perform_refusedAs, perform_checkPath]
  cases Failure.ofPath? p with
  | none => simp [eq_comm]
  | some e => simp

/-- After a path that is not refused an action goes on. -/
theorem perform_checkPath_bind (p : Path) (a : Action α) (around : Surroundings) (s : Session) :
    perform (checkPath p >>= fun _ ↦ a) around s = match Failure.ofPath? p with
      | some e => (.error e, s)
      | none => perform a around s := by
  rw [perform_bind, perform_checkPath]
  cases Failure.ofPath? p <;> rfl

/-- After a path that is not refused an action gives what it gives. -/
theorem perform_checkPath_bind_eq_ok {p : Path} {a : Action α} {x : α} :
    perform (checkPath p >>= fun _ ↦ a) around s = (.ok x, t) ↔
      Failure.ofPath? p = none ∧ perform a around s = (.ok x, t) := by
  rw [perform_checkPath_bind]
  cases Failure.ofPath? p with
  | none => simp
  | some e => simp

/-- Looking a path up leaves the session as it is. -/
theorem perform_lookUp (p : Path) (around : Surroundings) (s : Session) :
    perform (lookUp p) around s = ((s.files.lookUp p).mapError .file, s) := by
  rw [lookUp, perform_bind, perform_get]
  exact perform_ofExcept _ _ _ _

/-- A path is looked up exactly when the files tell what it leads to. -/
theorem perform_lookUp_eq_ok {p : Path} {found : Option Entry} :
    perform (lookUp p) around s = (.ok found, t) ↔ s.files.lookUp p = .ok found ∧ t = s := by
  rw [perform_lookUp]
  cases s.files.lookUp p with
  | error e => simp
  | ok found => simp [eq_comm]

/-- Decoding bytes gives their text with its line endings unified. -/
@[simp]
theorem perform_decoded (bytes : List UInt8) (around : Surroundings) (s : Session) :
    perform (decoded bytes) around s =
      (((Utf8.decode bytes).map unified).mapError .undecodable, s) := by
  rw [decoded, perform_bind, perform_ofExcept]
  cases Utf8.decode bytes <;> rfl

/-- An integer is refused that cannot be written. -/
@[simp]
theorem perform_writable (n : Int) (around : Surroundings) (s : Session) :
    perform (writable n) around s =
      (((writtenInt n).map fun _ ↦ ()).mapError .integer, s) := by
  show perform ((fun _ ↦ ()) <$> ofExcept .integer (writtenInt n)) around s = _
  rw [perform_map, perform_ofExcept]
  cases writtenInt n <;> rfl

/-- Making directories changes the files alone. -/
theorem session_makeDirectories (p : Path) (around : Surroundings) (s : Session) :
    (perform (makeDirectories p) around s).2 =
      { s with files := (perform (makeDirectories p) around s).2.files } := by
  rw [makeDirectories, perform_checkPath_bind]
  split
  · rfl
  · rw [perform_onFiles]

/-- Making directories makes way to their path, whether it fails or not. -/
theorem makesWay_makeDirectories (p : Path) (around : Surroundings) (s : Session) :
    Workspace.MakesWay p s.files (perform (makeDirectories p) around s).2.files := by
  rw [makeDirectories, perform_checkPath_bind]
  split
  · exact .refl p s.files
  · rw [perform_onFiles]
    exact .makeDirectories p s.files

/-- Writing a text to a path does nothing if the path is refused, and else writes a file. -/
theorem files_writeText (p : Path) (text : String) (around : Surroundings) (s : Session) :
    (perform (writeText p text) around s).2.files = s.files ∨
      (perform (writeText p text) around s).2.files =
        (Attempt.perform (Workspace.writeFile p (Utf8.encode text)) s.files).2 := by
  rw [writeText, perform_checkPath_bind]
  split
  · exact .inl rfl
  · rw [perform_onFiles, Attempt.perform_named]
    exact .inr rfl

/-- Directories are made at a path that is not refused when the attempt succeeds. -/
theorem perform_makeDirectories_eq_ok {p : Path} :
    perform (makeDirectories p) around s = (.ok (), t) ↔
      Failure.ofPath? p = none ∧ ∃ files,
        Attempt.perform (Workspace.makeDirectories p) s.files = (.ok (), files) ∧
          t = { s with files } := by
  rw [makeDirectories, perform_checkPath_bind_eq_ok, perform_onFiles_eq_ok]

/-- A text is written at a path that is not refused when the attempt succeeds. -/
theorem perform_writeText_eq_ok {p : Path} {text : String} :
    perform (writeText p text) around s = (.ok (), t) ↔
      Failure.ofPath? p = none ∧ ∃ files,
        Attempt.perform (Workspace.writeFile p (Utf8.encode text)) s.files = (.ok (), files) ∧
          t = { s with files } := by
  rw [writeText, perform_checkPath_bind_eq_ok, perform_onFiles_eq_ok]
  simp only [Attempt.perform_named_eq_ok]

/-- An action on the host's libraries changes the host alone. -/
theorem perform_onHost (f : Entropy.Host → Except Entropy.OverrideError α × Entropy.Host)
    (around : Surroundings) (s : Session) :
    perform (onHost f) around s =
      ((f s.host).1.mapError .override, { s with host := (f s.host).2 }) := by
  unfold onHost
  rw [perform_bind, perform_get]
  dsimp only
  generalize f s.host = result
  rcases result with ⟨_ | _, host⟩
  · rfl
  · rfl

/-- Showing a text appends its lines to the console, unless its markup is refused. -/
theorem perform_say (text : String) (around : Surroundings) (s : Session) :
    perform (say text) around s = match Markup.render text with
      | .ok shown => (.ok (), { s with console := s.console ++ splitLines shown })
      | .error e => (.error (.markup e), s) := by
  simp only [say, perform_bind, perform_ofExcept]
  cases Markup.render text <;> rfl

/-- Showing a line about a part of the program changes the console at most. -/
theorem perform_debug (enabled : Bool) (part text : String) (around : Surroundings) (s : Session) :
    ∃ console, perform (debug enabled part text) around s = (.ok (), { s with console }) := by
  cases enabled with
  | false => exact ⟨s.console, rfl⟩
  | true => exact ⟨_, rfl⟩

/-- After a line about a part of the program an action goes on, with another console at most. -/
theorem perform_debug_bind (enabled : Bool) (part text : String) (a : Action α)
    (around : Surroundings) (s : Session) :
    ∃ console, perform (debug enabled part text >>= fun _ ↦ a) around s =
      perform a around { s with console } := by
  obtain ⟨console, hdebug⟩ := perform_debug enabled part text around s
  exact ⟨console, by rw [perform_bind, hdebug]⟩

/-- Listing the symbols of an archive records the run and leaves the files as they are. -/
theorem perform_runLister (run : Invocation) (archive : Path) (around : Surroundings)
    (s : Session) :
    perform (runLister run archive) around s =
      (.ok (around.tools.listSymbols run (s.files.content? archive)),
        { s with calls := s.calls ++ [run] }) := rfl

/-- Reading the clock counts the reading. -/
@[simp]
theorem perform_readClock (around : Surroundings) (s : Session) :
    perform readClock around s =
      (.ok (around.clock s.readings), { s with readings := s.readings + 1 }) := rfl

/-- A value that has a property was given. -/
theorem exists_of_any_toOption {a : Action α} {p : α → Bool}
    (h : (perform a around s).1.toOption.any p = true) :
    ∃ x t, perform a around s = (.ok x, t) ∧ p x = true := by
  cases hgiven : perform a around s with
  | mk given t =>
      rw [hgiven] at h
      cases given with
      | ok x => exact ⟨x, t, rfl, h⟩
      | error e => cases h

/-- A value that an action gives was given. -/
theorem exists_of_toOption {a : Action α} {x : α}
    (h : (perform a around s).1.toOption = some x) : ∃ t, perform a around s = (.ok x, t) := by
  obtain ⟨y, t, hgiven, hy⟩ := exists_of_any_toOption (p := fun _ ↦ true) (by rw [h]; rfl)
  rw [hgiven] at h
  cases h
  exact ⟨t, hgiven⟩

end Action

/-- A relation between the sessions before and after actions that passes on from one action to the
next. What is shown on the console and how often the clock is read is always left open. -/
structure Frame where
  Holds : Session → Session → Prop
  shows : ∀ s console readings, Holds s { s with console, readings }
  trans : ∀ {s t u}, Holds s t → Holds t u → Holds s u

namespace Frame

/-- A session is related to itself. -/
theorem refl (F : Frame) (s : Session) : F.Holds s s := F.shows s s.console s.readings

/-- Nothing changes but what is shown on the console and how often the clock is read. -/
def sameWork : Frame where
  Holds s t := ∃ console readings, t = { s with console, readings }
  shows _ console readings := ⟨console, readings, rfl⟩
  trans := by
    rintro s t u ⟨_, _, rfl⟩ ⟨console, readings, rfl⟩
    exact ⟨console, readings, rfl⟩

/-- Sessions that differ in nothing else are related by every frame. -/
theorem of_sameWork (F : Frame) {s t : Session} (h : sameWork.Holds s t) : F.Holds s t := by
  obtain ⟨console, readings, rfl⟩ := h
  exact F.shows s console readings

/-- The files stay as they are. -/
def sameFiles : Frame where
  Holds s t := t.files = s.files
  shows _ _ _ := rfl
  trans h h' := h'.trans h

/-- No build tool is run, and every other tool run has a property. -/
def onlyRuns (P : Invocation → Prop) : Frame where
  Holds s t := t.builds = s.builds ∧ ∃ runs, t.calls = s.calls ++ runs ∧ ∀ run ∈ runs, P run
  shows s _ _ := ⟨rfl, [], (List.append_nil s.calls).symm, nofun⟩
  trans := by
    rintro s t u ⟨hbuilds, runs, hcalls, hall⟩ ⟨hbuilds', runs', hcalls', hall'⟩
    refine ⟨hbuilds'.trans hbuilds, runs ++ runs', ?_, ?_⟩
    · rw [hcalls', hcalls, List.append_assoc]
    · intro run hrun
      rcases List.mem_append.mp hrun with h | h
      · exact hall run h
      · exact hall' run h

/-- The current directory stays as it is. -/
def sameHere : Frame where
  Holds s t := t.files.here = s.files.here
  shows _ _ _ := rfl
  trans h h' := h'.trans h

/-- What was written to the standard output stays as it is. -/
def sameOutput : Frame where
  Holds s t := t.output = s.output
  shows _ _ _ := rfl
  trans h h' := h'.trans h

/-- A frame that says nothing about the tree of files. -/
def LeavesTreeOpen (F : Frame) : Prop :=
  ∀ (s : Session) (files : Workspace), files.here = s.files.here → F.Holds s { s with files }

/-- The tools run say nothing about the files. -/
theorem leavesTreeOpen_onlyRuns (P : Invocation → Prop) : (onlyRuns P).LeavesTreeOpen :=
  fun s _ _ ↦ ⟨rfl, [], (List.append_nil s.calls).symm, nofun⟩

/-- The current directory is not part of the tree of files. -/
theorem leavesTreeOpen_sameHere : sameHere.LeavesTreeOpen := fun _ _ h ↦ h

/-- The standard output is no part of the tree of files. -/
theorem leavesTreeOpen_sameOutput : sameOutput.LeavesTreeOpen := fun _ _ _ ↦ rfl

end Frame

namespace Action

/-- An action leads from every session to one related to it, whether it fails or not. -/
def Within (F : Frame) {α : Type} (a : Action α) : Prop :=
  ∀ around s, F.Holds s (perform a around s).2

namespace Within

variable {α β ε : Type} {F : Frame}

/-- What an action leaves is related to what it found. -/
theorem holds {a : Action α} (ha : Within F a) {around : Surroundings} {s t : Session}
    {result : Except Failure α} (h : perform a around s = (result, t)) : F.Holds s t := by
  have hleft := ha around s
  rw [h] at hleft
  exact hleft

/-- Giving a value is within every frame. -/
theorem pure (a : α) : Within F (Pure.pure a : Action α) := fun _ s ↦ F.refl s

/-- A failure is within every frame. -/
theorem throw (e : Failure) : Within F (MonadExcept.throw e : Action α) := fun _ s ↦ F.refl s

/-- Looking at the session is within every frame. -/
theorem get : Within F (MonadState.get : Action Session) := fun _ s ↦ F.refl s

/-- Looking at the surroundings is within every frame. -/
theorem read : Within F (MonadReader.read : Action Surroundings) := fun _ s ↦ F.refl s

/-- Refusing with an error is within every frame. -/
theorem ofExcept (failure : ε → Failure) (r : Except ε α) : Within F (ofExcept failure r) := by
  intro around s
  rw [perform_ofExcept]
  exact F.refl s

/-- An action that stays within a frame in one session stays within it when actions within the frame
follow. -/
theorem holds_bind {a : Action α} {f : α → Action β} {around : Surroundings} {s : Session}
    (ha : F.Holds s (perform a around s).2) (hf : ∀ x, Within F (f x)) :
    F.Holds s (perform (a >>= f) around s).2 := by
  rw [perform_bind]
  split
  · next x t ht =>
      rw [ht] at ha
      exact F.trans ha (hf x around t)
  · next e t ht =>
      rw [ht] at ha
      exact ha

/-- Two actions within a frame are within it one after the other. -/
theorem bind {a : Action α} {f : α → Action β} (ha : Within F a) (hf : ∀ x, Within F (f x)) :
    Within F (a >>= f) :=
  fun around s ↦ holds_bind (ha around s) hf

/-- An action that looks at the session first is within a frame when it is within it in every
session. -/
theorem getBind {f : Session → Action β}
    (hf : ∀ around s, F.Holds s (perform (f s) around s).2) :
    Within F (MonadState.get >>= f) := by
  intro around s
  rw [perform_bind, perform_get]
  exact hf around s

/-- An action and the handling of its failure are within a frame together. -/
theorem tryCatch {a : Action α} {f : Failure → Action α} (ha : Within F a)
    (hf : ∀ e, Within F (f e)) : Within F (MonadExcept.tryCatch a f) := by
  intro around s
  have hfirst := ha around s
  rw [perform_tryCatch]
  split
  · next x t ht =>
      rw [ht] at hfirst
      exact hfirst
  · next e t ht =>
      rw [ht] at hfirst
      exact F.trans hfirst (hf e around t)

/-- Changing the result of an action keeps it within a frame. -/
theorem map (g : α → β) {a : Action α} (ha : Within F a) : Within F (g <$> a) := by
  intro around s
  rw [perform_map]
  exact ha around s

/-- The outcome of an action within a frame is within it. -/
theorem outcome {a : Action α} (ha : Within F a) : Within F (outcome a) := by
  intro around s
  rw [perform_outcome]
  exact ha around s

/-- Actions within a frame are within it when done for each element of a list. -/
theorem mapM {f : α → Action β} (hf : ∀ x, Within F (f x)) (l : List α) :
    Within F (l.mapM f) := by
  induction l with
  | nil => exact pure []
  | cons x l ih =>
      rw [List.mapM_cons]
      refine bind (hf x) ?_
      intro y
      refine bind ih ?_
      intro ys
      exact pure _

/-- A loop over a list is within a frame when each of its turns is. -/
theorem forIn {f : α → β → Action (ForInStep β)} (hf : ∀ x b, Within F (f x b)) (l : List α)
    (b : β) : Within F (ForIn.forIn l b f) := by
  induction l generalizing b with
  | nil => exact pure b
  | cons x l ih =>
      rw [List.forIn_cons]
      refine bind (hf x b) ?_
      intro turn
      cases turn with
      | done b => exact pure b
      | yield b => exact ih b

/-- Showing a text is within every frame. -/
theorem say (text : String) : Within F (say text) := by
  intro around s
  rw [perform_say]
  split
  · exact F.shows s _ s.readings
  · exact F.refl s

/-- Showing a line about a part of the program is within every frame. -/
theorem debug (enabled : Bool) (part text : String) : Within F (debug enabled part text) := by
  intro around s
  cases enabled with
  | false => exact F.refl s
  | true => exact F.shows s _ s.readings

/-- Reading the clock is within every frame. -/
theorem readClock : Within F readClock := fun _ s ↦ F.shows s s.console _

/-- An action on the files is within a frame that leaves their tree open. -/
theorem onFiles (hF : F.LeavesTreeOpen) {a : Attempt FileError α} (ha : a.KeepsHere) :
    Within F (onFiles a) := by
  intro around s
  rw [perform_onFiles]
  exact hF s _ (ha s.files)

/-- What an action leaves does not depend on the causes that its failures are given. -/
theorem refusedAs (failure : FileError → Failure) {a : Action α} (ha : Within F a) :
    Within F (refusedAs failure a) := by
  intro around s
  rw [perform_refusedAs]
  exact ha around s

/-- An action on the files with a failure of its own is within a frame that leaves their tree
open. -/
theorem onFilesElse (hF : F.LeavesTreeOpen) (failure : FileError → Failure)
    {a : Attempt FileError α} (ha : a.KeepsHere) : Within F (onFilesElse failure a) :=
  refusedAs failure (onFiles hF ha)

/-- Refusing a path is within every frame. -/
theorem checkPath (p : Path) : Within F (checkPath p) := by
  intro around s
  rw [perform_checkPath]
  split <;> exact F.refl s

/-- Looking a path up is within every frame. -/
theorem lookUp (p : Path) : Within F (lookUp p) :=
  bind get fun _ ↦ ofExcept _ _

/-- Bytes that have to be text are within every frame. -/
theorem decoded (bytes : List UInt8) : Within F (decoded bytes) :=
  bind (ofExcept _ _) fun _ ↦ pure _

/-- An integer that has to be written is within every frame. -/
theorem writable (n : Int) : Within F (writable n) :=
  map _ (ofExcept _ _)

/-- Making directories is within a frame that leaves the tree of files open. -/
theorem makeDirectories (hF : F.LeavesTreeOpen) (p : Path) : Within F (makeDirectories p) :=
  bind (checkPath p) fun _ ↦ onFiles hF (.makeDirectories p)

/-- Writing a text is within a frame that leaves the tree of files open. -/
theorem writeText (hF : F.LeavesTreeOpen) (p : Path) (text : String) :
    Within F (writeText p text) :=
  bind (checkPath p) fun _ ↦ onFiles hF ((Attempt.KeepsHere.writeFile p _).named _)

end Within

variable {α β : Type}

/-- Actions that leave the files as they are may follow without a difference to the files. -/
theorem files_bind {a : Action α} {f : α → Action β} (hf : ∀ x, Within .sameFiles (f x))
    (around : Surroundings) (s : Session) :
    (perform (a >>= f) around s).2.files = (perform a around s).2.files := by
  rw [perform_bind]
  obtain ⟨result, t⟩ := perform a around s
  cases result with
  | ok x => exact hf x around t
  | error e => rfl

/-- Handling a failure without touching the files makes no difference to the files. -/
theorem files_tryCatch {a : Action α} {f : Failure → Action α}
    (hf : ∀ e, Within .sameFiles (f e)) (around : Surroundings) (s : Session) :
    (perform (tryCatch a f) around s).2.files = (perform a around s).2.files := by
  rw [perform_tryCatch]
  obtain ⟨result, t⟩ := perform a around s
  cases result with
  | ok x => rfl
  | error e => exact hf e around t

end Action
end Vendoring
