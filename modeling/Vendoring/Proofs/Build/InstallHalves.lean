import Vendoring.Proofs.Build.Installing
import Vendoring.Proofs.Files.Additions

/-!
# The two halves of an install

An install first copies archives: it makes the directories, finds all archives and then copies them
one by one. Only when this is done it turns to the headers, which may be missing; nothing is undone
then.
-/

namespace Vendoring.Build

open Vendoring.Files Vendoring.Text
open Vendoring.Action

/-- Make the directories, find the archives and copy them. -/
def copyArchives (r : InstallRequest) : Action (List Path) := do
  Action.refusedAs (fun e ↦ .install (.layout r.destination e))
    (Action.checkPath (libraryDirectory r.destination))
  Action.onFilesElse (fun e ↦ .install (.layout r.destination e)) (layOut r.destination)
  let archives ← Action.ofExcept id
    (collectArchives (← get).files r.build r.archiveSubdirs)
  archives.mapM (installArchive (libraryDirectory r.destination))

/-- The line that tells how many archives were installed. -/
def installedLine (r : InstallRequest) (number : Nat) : String :=
  "  [dim]Installed " ++ toString number ++ " archive(s) into " ++
    (libraryDirectory r.destination).text ++ "[/]"

/-- Where an install puts things, with the archives that it copied. -/
def InstallRequest.result (r : InstallRequest) (archives : List Path) : Installed :=
  ⟨r.destination, libraryDirectory r.destination, programDirectory r.destination, r.includeDir,
    archives⟩

/-- Tell of the archives that were copied, and copy the headers. -/
def copyHeaders (r : InstallRequest) (archives : List Path) : Action Installed := do
  Action.say (installedLine r archives.length)
  if (← Action.lookUp r.headers) ≠ some .directory then throw (.install (.noHeaders r.headers))
  Action.onFilesElse (fun e ↦ .install (.headers r.headers e))
    (Workspace.copyTree r.headers.text r.includeDir.text)
  return r.result archives

/-- An install copies archives, and then headers. -/
theorem install_eq (r : InstallRequest) : install r = copyArchives r >>= copyHeaders r := by
  simp only [copyArchives, bind_assoc]
  rfl

/-! ### Making the directories -/

section Directories

variable {w v : Workspace} {destination : Path}

/-- Once the directories are made, both are there. -/
theorem isDirectory_layOut (h : Attempt.perform (layOut destination) w = (.ok (), v)) :
    v.isDirectory (libraryDirectory destination) = true ∧
      v.isDirectory (programDirectory destination) = true := by
  obtain ⟨_, u, hlibrary, hprograms⟩ := Attempt.perform_bind_eq_ok.mp h
  have hway := Workspace.MakesWay.makeDirectories (programDirectory destination) u
  rw [hprograms] at hway
  exact ⟨hway.keepsDirectories.isDirectory (Workspace.isDirectory_of_makeDirectories hlibrary),
    Workspace.isDirectory_of_makeDirectories hprograms⟩

/-- Nothing is made when both directories are there. -/
theorem perform_layOut_of_isDirectory
    (hlibrary : w.isDirectory (libraryDirectory destination) = true)
    (hprograms : w.isDirectory (programDirectory destination) = true) :
    Attempt.perform (layOut destination) w = (.ok (), w) :=
  Attempt.perform_bind_eq_ok.mpr ⟨(), w,
    Workspace.perform_makeDirectories_of_isDirectory hlibrary,
    Workspace.perform_makeDirectories_of_isDirectory hprograms⟩

/-- A directory is to be made at a place for an install: nothing is there, and it is on the way to
the directory of installed archives or to that of installed programs. -/
def InstallRequest.Makes (r : InstallRequest) (w : Workspace) (l : Location) : Prop :=
  w.tree.find? l = none ∧
    (l ∈ w.way (libraryDirectory r.destination) ∨ l ∈ w.way (programDirectory r.destination))

/-- Making the directories adds those that are to be made, whether it succeeds or not. -/
theorem addsOnly_layOut (r : InstallRequest) (w : Workspace) :
    Workspace.AddsOnly (r.Makes w) w (Attempt.perform (layOut r.destination) w).2 := by
  have hfirst := Workspace.AddsOnly.of_makesWay
    (Workspace.MakesWay.makeDirectories (libraryDirectory r.destination) w)
  have hlibrary : Workspace.AddsOnly (r.Makes w) w
      (Attempt.perform (Workspace.makeDirectories (libraryDirectory r.destination)) w).2 :=
    hfirst.mono fun l hnone hway ↦ ⟨hnone, .inl hway⟩
  unfold layOut
  rw [Attempt.perform_bind]
  split
  · next u hu =>
      rw [hu] at hlibrary
      have hsecond := Workspace.AddsOnly.of_makesWay
        (Workspace.MakesWay.makeDirectories (programDirectory r.destination) u)
      refine hlibrary.trans (hsecond.mono fun l hnone hway ↦ ?_)
      rw [Workspace.way_congr hlibrary.here] at hway
      refine ⟨?_, .inr hway⟩
      rcases hlibrary.place l with hsame | ⟨_, hnone', _⟩
      · rw [← hsame, hnone]
      · exact hnone'
  · next hu =>
      rw [hu] at hlibrary
      exact hlibrary

end Directories

/-! ### Going through with an install -/

section Halves

variable {r : InstallRequest} {around : Surroundings} {s t : Session} {installed : Installed}
  {targets : List Path} {directory archive target : Path}

/-- An archive is installed exactly when it can be copied to its name in the directory. -/
theorem installArchive_eq_ok_iff :
    perform (installArchive directory archive) around s = (.ok target, t) ↔
      ∃ files, Attempt.perform (Workspace.copyFile (.ofPath archive)
        (.ofPath (directory.entry archive.name))) s.files = (.ok (), files) ∧
        target = directory.entry archive.name ∧ t = { s with files } := by
  constructor
  · intro h
    obtain ⟨_, u, hcopy, hdone⟩ := perform_bind_eq_ok.mp h
    obtain ⟨files, hcopied, rfl⟩ := perform_onFilesElse_eq_ok.mp hcopy
    cases hdone
    exact ⟨files, hcopied, rfl, rfl⟩
  · rintro ⟨files, hcopied, rfl, rfl⟩
    exact perform_bind_eq_ok.mpr
      ⟨(), _, perform_onFilesElse_eq_ok.mpr ⟨files, hcopied, rfl⟩, rfl⟩

/-- What an install into a destination is refused for when no system call takes its path. -/
def destinationFault? (destination : Path) : Option Failure :=
  (Failure.ofPath? (libraryDirectory destination)).map fun
    | .file e => .install (.layout destination e)
    | e => e

/-- What copying archives gives: the directories are made unless the path is refused, then the
archives are found, and only when all are found they are copied. -/
theorem perform_copyArchives (r : InstallRequest) (around : Surroundings) (s : Session) :
    perform (copyArchives r) around s =
      match destinationFault? r.destination with
      | some e => (.error e, s)
      | none =>
          match Attempt.perform (layOut r.destination) s.files with
          | (.error e, laid) =>
              (.error (.install (.layout r.destination e)), { s with files := laid })
          | (.ok _, laid) =>
              match collectArchives laid r.build r.archiveSubdirs with
              | .error e => (.error e, { s with files := laid })
              | .ok archives =>
                  perform (archives.mapM (installArchive (libraryDirectory r.destination))) around
                    { s with files := laid } := by
  unfold copyArchives destinationFault?
  rw [perform_bind, perform_refusedAs, perform_checkPath]
  cases Failure.ofPath? (libraryDirectory r.destination) with
  | some e => rfl
  | none =>
      dsimp only [Except.mapError, Option.map]
      rw [perform_bind, perform_onFilesElse]
      rcases Attempt.perform (layOut r.destination) s.files with ⟨e | _, laid⟩
      · rfl
      · dsimp only [Attempt.mapError_ok]
        rw [perform_bind, perform_get]
        dsimp only
        rw [perform_bind, perform_ofExcept]
        cases collectArchives laid r.build r.archiveSubdirs with
        | error e => rfl
        | ok archives => rfl

/-- Archives are copied exactly when the directories can be made, the archives are found once they
are there, and each of them can be copied in turn. -/
theorem copyArchives_eq_ok_iff :
    perform (copyArchives r) around s = (.ok targets, t) ↔
      destinationFault? r.destination = none ∧
      ∃ laid archives, Attempt.perform (layOut r.destination) s.files = (.ok (), laid) ∧
        collectArchives laid r.build r.archiveSubdirs = .ok archives ∧
        perform (archives.mapM (installArchive (libraryDirectory r.destination))) around
          { s with files := laid } = (.ok targets, t) := by
  rw [perform_copyArchives]
  constructor
  · intro h
    split at h
    · cases h
    · next htaken =>
        split at h
        · cases h
        · next laid hlaid =>
            split at h
            · cases h
            · next archives hfound => exact ⟨htaken, laid, archives, hlaid, hfound, h⟩
  · rintro ⟨htaken, laid, archives, hlaid, hfound, hcopied⟩
    rw [htaken, hlaid]
    dsimp only
    rw [hfound]
    exact hcopied

/-- Headers are copied exactly when the line can be shown, and the header tree is there and can be
copied. -/
theorem copyHeaders_eq_ok_iff :
    perform (copyHeaders r targets) around s = (.ok installed, t) ↔
      ∃ shown files, Markup.render (installedLine r targets.length) = .ok shown ∧
        s.files.lookUp r.headers = .ok (some .directory) ∧
        Attempt.perform (Workspace.copyTree r.headers.text r.includeDir.text) s.files =
          (.ok (), files) ∧
        installed = r.result targets ∧
        t = { s with console := s.console ++ splitLines shown, files } := by
  unfold copyHeaders
  rw [perform_bind, perform_say]
  cases Markup.render (installedLine r targets.length) with
  | error e => simp
  | ok shown =>
      dsimp only
      rw [perform_bind, perform_lookUp]
      rcases hlooked : s.files.lookUp r.headers with e | found
      · simp [Except.mapError]
      dsimp only [Except.mapError]
      by_cases hthere : found = some .directory
      · rw [if_neg (not_not.mpr hthere)]
        constructor
        · intro h
          obtain ⟨_, u, hcopy, hdone⟩ := perform_bind_eq_ok.mp h
          obtain ⟨files, hcopied, rfl⟩ := perform_onFilesElse_eq_ok.mp hcopy
          cases hdone
          exact ⟨shown, files, rfl, by rw [hthere], hcopied, rfl, rfl⟩
        · rintro ⟨_, files, ⟨⟩, _, hcopied, rfl, rfl⟩
          exact perform_bind_eq_ok.mpr
            ⟨(), _, perform_onFilesElse_eq_ok.mpr ⟨files, hcopied, rfl⟩, rfl⟩
      · rw [if_pos hthere]
        simp [perform_bind, hthere]

/-- What an install is refused for when its header tree is not found: it is missing, or no
directory, or cannot be looked up. -/
def headersFault (w : Workspace) (headers : Path) : Failure :=
  match w.lookUp headers with
  | .error e => .file e
  | .ok _ => .install (.noHeaders headers)

/-- When the line can be shown but the header tree is not found, the headers are refused. -/
theorem perform_copyHeaders_of_missing {shown : String}
    (hrender : Markup.render (installedLine r targets.length) = .ok shown)
    (hmissing : s.files.lookUp r.headers ≠ .ok (some .directory)) :
    perform (copyHeaders r targets) around s = (.error (headersFault s.files r.headers),
      { s with console := s.console ++ splitLines shown }) := by
  unfold copyHeaders headersFault
  rw [perform_bind, perform_say, hrender]
  dsimp only
  rw [perform_bind, perform_lookUp]
  dsimp only
  rcases hlooked : s.files.lookUp r.headers with e | found
  · rfl
  · dsimp only [Except.mapError]
    rw [if_pos fun hthere ↦ hmissing (by rw [hlooked, hthere])]
    rfl

end Halves

end Vendoring.Build
