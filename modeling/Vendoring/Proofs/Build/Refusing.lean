import Mathlib.Data.List.Find
import Vendoring.Proofs.Build.Collecting
import Vendoring.Proofs.Build.Landing
import Vendoring.Proofs.Text.Digits

/-!
# Installs that are refused

All archives are found before the first is copied. When an output directory has none, an install is
hence refused before any file is touched: the directories for what is installed may have been made,
and nothing else has changed. The headers are looked for last, and nothing is undone when they are
missing: every copy stays in place. What is missing is told by an error of the install, except for a
path that the system refuses to look up: then the refusal itself is passed on.
-/

namespace Vendoring.Build

open Vendoring.Files Vendoring.Text
open Vendoring.Action

/-- The destination of an install is isolated from its output directories: of the directories that
are to be made none is at or below an output directory, and the path of no output directory goes
back up from one. -/
structure InstallRequest.IsBeside (r : InstallRequest) (w : Workspace) : Prop where
  destination : r.destination.IsNormal
  outside : ∀ sub ∈ r.archiveSubdirs, ∀ l, r.Makes w l → ¬w.place (r.build.below sub) <:+ l
  onward : ∀ sub ∈ r.archiveSubdirs, ¬Workspace.GoesBackFrom (r.Makes w) w (r.build.below sub)

section Isolation

variable {r : InstallRequest} {w : Workspace} {p q : Path} {l : Location}

private theorem place_suffix_of_isOnWayTo (hq : q.IsOnWayTo p) (hp : p.IsPlain) :
    w.place q <:+ w.place p := by
  obtain ⟨hanchor, rest, hparts⟩ := hq
  have hplain : q.IsPlain := by
    intro part hpart
    exact hp part (hparts ▸ List.mem_append_left rest hpart)
  have hstart : w.start q = w.start p := by
    unfold Workspace.start
    rw [hanchor]
  rw [w.place_of_isPlain hp, w.place_of_isPlain hplain, ← hparts, hstart, List.reverse_append,
    List.append_assoc]
  exact List.suffix_append _ _

private theorem not_suffix_of_mem_way {name : String} (hp : p.IsPlain) (hname : IsName name)
    (hapart : Apart l (w.place p)) {m : Location} (hm : m ∈ w.way (p.entry name)) :
    ¬l <:+ m := by
  obtain ⟨q, hq, rfl⟩ := Workspace.mem_way.mp hm
  intro hl
  have hentry := hl.trans (place_suffix_of_isOnWayTo hq (hp.entry hname))
  rw [w.place_entry p hname.ne_dots] at hentry
  rcases List.suffix_cons_iff.mp hentry with heq | hbelow
  · exact hapart.2 (heq ▸ List.suffix_cons _ _)
  · exact hapart.1 hbelow

/-- For a destination and output directories without double dots it is enough that they are
apart. -/
theorem InstallRequest.IsBeside.of_apart (hdestination : r.destination.IsPlain)
    (hsubs : ∀ sub ∈ r.archiveSubdirs, ".." ∉ (r.build.below sub).parts ∧
      Apart (w.place (r.build.below sub)) (w.place r.destination)) : r.IsBeside w where
  destination := hdestination.isNormal
  outside := by
    rintro sub hsub l ⟨_, hway⟩
    obtain ⟨_, hapart⟩ := hsubs sub hsub
    rcases hway with hway | hway
    · rw [libraryDirectory_eq_entry] at hway
      exact not_suffix_of_mem_way hdestination (by decide) hapart hway
    · rw [programDirectory_eq_entry] at hway
      exact not_suffix_of_mem_way hdestination (by decide) hapart hway
  onward := by
    rintro sub hsub ⟨q, ⟨_, hparts⟩, _⟩
    exact (hsubs sub hsub).1 (hparts.subset (by simp [Path.entry]))

end Isolation

section Refusing

variable {r : InstallRequest} {around : Surroundings} {s u : Session} {w v : Workspace}
  {sub : String} {targets : List Path}

/-! ### Output directories without archives -/

/-- An output directory has the archives that it had when directories were made beside it. -/
theorem InstallRequest.IsBeside.archivesIn_eq (hr : r.IsBeside w) (hw : w.Sound)
    (h : Workspace.AddsOnly (r.Makes w) w v) (hsub : sub ∈ r.archiveSubdirs) :
    archivesIn v (r.build.below sub) = archivesIn w (r.build.below sub) := by
  have hend : ¬r.Makes w (w.place (r.build.below sub)) :=
    fun hmakes ↦ hr.outside sub hsub _ hmakes List.suffix_rfl
  have hentries : ∀ name, ¬r.Makes w (name :: w.place (r.build.below sub)) :=
    fun name hmakes ↦ hr.outside sub hsub _ hmakes (List.suffix_cons _ _)
  unfold archivesIn
  rw [h.names_eq hw hend (hr.onward sub hsub) hentries]

/-- No archive is found in an output directory just if none was when directories were made beside
it. -/
theorem InstallRequest.IsBeside.lacksArchives_eq (hr : r.IsBeside w) (hw : w.Sound)
    (h : Workspace.AddsOnly (r.Makes w) w v) (hsub : sub ∈ r.archiveSubdirs) :
    lacksArchives v (r.build.below sub) = lacksArchives w (r.build.below sub) := by
  rw [Bool.eq_iff_iff, lacksArchives_iff, lacksArchives_iff, hr.archivesIn_eq hw h hsub]
  by_cases hnone : archivesIn w (r.build.below sub) = []
  · simp [hnone]
  -- A directory with archives is there, and its path is refused for its length or not at all.
  have hthere : w.isDirectory (r.build.below sub) = true := by
    by_contra hmissing
    exact hnone (archivesIn_of_not_isDirectory (Bool.eq_false_iff.mpr hmissing))
  obtain ⟨k, hlead, _⟩ := Workspace.isDirectory_iff.mp hthere
  rw [Workspace.refuses, Workspace.refuses, Workspace.refusesName_of_resolve hlead,
    Workspace.refusesName_of_resolve (h.keepsDirectories.resolve hlead)]

/-- The files once the directories of an install into a destination are made, as far as they can
be. -/
def laidOut (destination : Path) (w : Workspace) : Workspace :=
  match destinationFault? destination with
  | some _ => w
  | none => (Attempt.perform (layOut destination) w).2

/-- What an install into a destination is refused for before any archive is looked for. -/
def layoutFault? (destination : Path) (w : Workspace) : Option Failure :=
  (destinationFault? destination).or
    (match (Attempt.perform (layOut destination) w).1 with
      | .error e => some (.install (.layout destination e))
      | .ok _ => none)

/-- Making the directories of an install adds those that are to be made. -/
theorem addsOnly_laidOut (r : InstallRequest) (w : Workspace) :
    Workspace.AddsOnly (r.Makes w) w (laidOut r.destination w) := by
  unfold laidOut
  split
  · exact .refl _ w
  · exact addsOnly_layOut r w

/-- When an output directory has no archive, an install makes directories and then refuses the first
such directory, unless already they could not be made. -/
theorem install_of_lacksArchives (hs : s.files.Sound) (hr : r.IsBeside s.files)
    (hfirst : (r.archiveSubdirs.find? fun sub ↦ lacksArchives s.files (r.build.below sub)) =
      some sub) :
    perform (install r) around s =
      (.error ((layoutFault? r.destination s.files).getD
        (outputFault (laidOut r.destination s.files) (r.build.below sub))),
      { s with files := laidOut r.destination s.files }) := by
  have hadded := addsOnly_laidOut r s.files
  rw [install_eq, perform_bind, perform_copyArchives]
  unfold laidOut layoutFault? at *
  cases htaken : destinationFault? r.destination with
  | some e => rfl
  | none =>
      rw [htaken] at hadded
      dsimp only at hadded ⊢
      generalize Attempt.perform (layOut r.destination) s.files = result at hadded ⊢
      rcases result with ⟨e | _, laid⟩
      · rfl
      · have hsame : collectArchives laid r.build r.archiveSubdirs =
            .error (outputFault laid (r.build.below sub)) := by
          rw [collectArchives_eq_find?, List.find?_congr fun sub hsub ↦
            hr.lacksArchives_eq hs hadded hsub, hfirst]
        dsimp only
        rw [hsame]
        rfl

/-! ### Missing headers -/

/-- The line that tells of the installed archives can be shown when the destination has no opening
bracket. -/
theorem exists_render_installedLine (hdestination : '[' ∉ r.destination.text.toList)
    (number : Nat) : ∃ shown, Markup.render (installedLine r number) = .ok shown := by
  have hlibrary : '[' ∉ (libraryDirectory r.destination).text.toList := by
    rw [Path.mem_text_iff (by decide) (by decide)] at hdestination ⊢
    rintro ⟨part, hpart, hmem⟩
    rw [libraryDirectory_eq_entry] at hpart
    rcases List.mem_append.mp hpart with hpart | hpart
    · exact hdestination ⟨part, hpart, hmem⟩
    · rw [List.mem_singleton.mp hpart] at hmem
      revert hmem
      decide
  have hnumber : '[' ∉ (toString number).toList := notMem_toString (by decide) number
  unfold installedLine
  generalize (libraryDirectory r.destination).text = directory at hlibrary ⊢
  generalize toString number = digits at hnumber ⊢
  apply Markup.exists_render_of_eq
    (.styled "  " .dim ("Installed " ++ digits ++ " archive(s) into " ++ directory) "")
  · simp [Markup.Line.markup, Markup.Style.dim, String.toList_append]
  · simp [Markup.Line.texts, String.toList_append, hnumber, hlibrary]

/-- When all archives were copied but the header tree is not found, an install is refused and leaves
the files as copying the archives did. -/
theorem install_of_missing_headers
    (harchives : perform (copyArchives r) around s = (.ok targets, u))
    (hmissing : u.files.lookUp r.headers ≠ .ok (some .directory))
    (hdestination : '[' ∉ r.destination.text.toList) :
    ∃ console, perform (install r) around s =
      (.error (headersFault u.files r.headers), { u with console }) := by
  obtain ⟨shown, hrender⟩ := exists_render_installedLine hdestination targets.length
  rw [install_eq, perform_bind, harchives]
  exact ⟨_, perform_copyHeaders_of_missing hrender hmissing⟩

/-! ### What is missing decides what stays -/

/-- What cannot be found in a directory is an error of the install, unless the path of the directory
is refused. -/
theorem exists_outputFault_eq_iff {directory : Path} :
    (∃ cause, outputFault w directory = .install cause) ↔ w.refuses directory = false := by
  unfold outputFault Workspace.lookUp
  cases w.refuses directory with
  | true => simp
  | false =>
      refine iff_of_true ?_ rfl
      rcases w.find? directory with _ | (bytes | _)
      all_goals exact ⟨_, rfl⟩

/-- A header tree that cannot be found is an error of the install, unless its path is refused. -/
theorem exists_headersFault_eq_iff {headers : Path} :
    (∃ cause, headersFault w headers = .install cause) ↔ w.refuses headers = false := by
  unfold headersFault Workspace.lookUp
  cases w.refuses headers with
  | true => simp
  | false => exact iff_of_true ⟨_, rfl⟩ rfl

/-- When the directories of an install cannot be made, this is an error of the install that names
the destination, unless the path of the destination holds a null character. -/
theorem layoutFault?_cases (destination : Path) (w : Workspace) :
    destination.holdsNull = true ∧ layoutFault? destination w = some .nullByte ∨
      destination.holdsNull = false ∧ ∀ e, layoutFault? destination w = some e →
        ∃ cause, e = .install (.layout destination cause) := by
  have hnull : (libraryDirectory destination).holdsNull = destination.holdsNull := by
    rw [libraryDirectory_eq_entry]
    exact Path.holdsNull_entry (by decide)
  unfold layoutFault? destinationFault? Failure.ofPath?
  rw [hnull]
  cases destination.holdsNull with
  | true => exact .inl ⟨rfl, rfl⟩
  | false =>
      refine .inr ⟨rfl, fun e h ↦ ?_⟩
      rw [if_neg Bool.false_ne_true] at h
      cases hlong : (libraryDirectory destination).isTooLong with
      | true =>
          rw [hlong, if_pos rfl] at h
          cases h
          exact ⟨_, rfl⟩
      | false =>
          rw [hlong, if_neg Bool.false_ne_true] at h
          rcases hmade : (Attempt.perform (layOut destination) w).1 with cause | _
          · rw [hmade] at h
            cases h
            exact ⟨cause, rfl⟩
          · rw [hmade] at h
            cases h

end Refusing

/-- Sample files where the second output directory has no archive, or where there are archives of
one name in both but no headers. -/
def sampleIncomplete (missing : Bool) : Workspace :=
  [("src/lib.c", ""), ("build/crypto/lib.a", "one"),
    if missing then ("build/ssl/lib.so", "two") else ("build/ssl/lib.a", "two")].foldl
    (fun w file ↦ w.plant (.ofString file.1) (.file (Text.Utf8.encode file.2))) ⟨.empty, []⟩

/-- A sample request for archives of a directory whose name is too long. -/
def sampleOverlong : InstallRequest := { sampleInstall with archiveSubdirs := [longName] }

private theorem below_longName :
    sampleOverlong.build.below longName = (Path.ofString "build").entry longName :=
  Path.below_of_isPart _
    ⟨longName_ne (by decide), longName_ne (by decide), notMem_longName (by decide)⟩

private theorem isBeside_overlong : sampleOverlong.IsBeside sampleFiles := by
  refine .of_apart (by decide) fun sub hsub ↦ ?_
  rw [List.mem_singleton.mp hsub, below_longName,
    Workspace.place_entry _ _ (longName_ne (by decide))]
  have hbuild : sampleFiles.place (.ofString "build") = ["build"] := by decide +kernel
  have hdestination : sampleFiles.place sampleOverlong.destination = ["out"] := by decide +kernel
  rw [hbuild, hdestination]
  refine ⟨?_, fun hsuffix ↦ ?_, fun hsuffix ↦ ?_⟩
  · have hparts : (Path.ofString "build").parts = ["build"] := by decide
    have hdots : longName ≠ ".." := longName_ne (by decide)
    simp [Path.entry, hparts, hdots.symm]
  · exact absurd hsuffix.length_le (by simp)
  · rcases List.suffix_cons_iff.mp hsuffix with heq | hbelow
    · exact absurd (congrArg List.length heq) (by simp)
    · revert hbelow
      decide

private theorem refuses_longName {w : Workspace}
    (hbuild : w.isDirectory (.ofString "build") = true) :
    w.refuses (sampleOverlong.build.below longName) = true := by
  rw [below_longName]
  exact Workspace.refuses_of_resolve
    (Workspace.resolve_entry_of_length_lt hbuild nameLimit_lt_length_longName)
    ((Path.holdsNull_entry (notMem_longName (by decide))).trans (by decide))

end Vendoring.Build
