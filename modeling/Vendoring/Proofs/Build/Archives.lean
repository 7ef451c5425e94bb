import Vendoring.Build.Install
import Vendoring.Proofs.Files.LookUps
import Vendoring.Proofs.Files.Subtrees

/-!
# Finding archives

The archives of a directory are entries of different names, in the order of these. Those of a build
are found in its output directories, one after the other, unless one of these is missing or has no
archive or cannot be looked up: the first such directory is refused.
-/

namespace Vendoring.Build

open Vendoring.Files

/-! ### The archives of a directory -/

/-- An archive of a directory is an entry of it, by a name that an entry may have. -/
theorem exists_of_mem_archivesIn {w : Workspace} (hw : w.Sound) {directory archive : Path}
    (h : archive ∈ archivesIn w directory) :
    ∃ name, IsName name ∧ archive = directory.entry name := by
  obtain ⟨name, hname, _, rfl⟩ := mem_archivesIn.mp h
  obtain ⟨l, e, _, _, hfound⟩ := Workspace.exists_of_mem_names hname
  exact ⟨name, hw.named name l e hfound, rfl⟩

/-- Only a directory has archives. -/
theorem archivesIn_of_not_isDirectory {w : Workspace} {directory : Path}
    (h : w.isDirectory directory = false) : archivesIn w directory = [] := by
  rw [archivesIn, Workspace.names_eq_nil_of_not_isDirectory h]
  rfl

/-- Listing a directory finds its archives, unless its path is refused. -/
theorem listArchives_eq (w : Workspace) (directory : Path) :
    listArchives w directory =
      if w.refuses directory then .error (.system .nameTooLong directory.text)
      else .ok (archivesIn w directory) := by
  unfold listArchives Workspace.lookUp
  split
  · rfl
  · have hnone : w.find? directory ≠ some .directory → archivesIn w directory = [] := by
      intro hne
      apply archivesIn_of_not_isDirectory
      unfold Workspace.isDirectory
      split
      · next hfound => exact absurd hfound hne
      · rfl
    rcases hfound : w.find? directory with _ | (bytes | _)
    · rw [hnone (by rw [hfound]; exact nofun)]
      rfl
    · rw [hnone (by rw [hfound]; exact nofun)]
      rfl
    · rfl

/-- The archives found by listing a directory are those that it has. -/
theorem eq_archivesIn_of_listArchives {w : Workspace} {directory : Path} {archives : List Path}
    (h : listArchives w directory = .ok archives) : archives = archivesIn w directory := by
  rw [listArchives_eq] at h
  split at h
  · cases h
  · exact (Except.ok.inj h).symm

/-- The archives of a directory are in code point order of their names. -/
theorem pairwise_archivesIn (w : Workspace) (directory : Path) :
    (archivesIn w directory).Pairwise fun p q ↦ p.name < q.name := by
  have hnames : (w.names directory).Pairwise (· < ·) := by
    unfold Workspace.names
    split
    · split
      · exact Tree.pairwise_lt_names _ _
      · exact .nil
    · exact .nil
  refine List.pairwise_map.mpr ((hnames.filter _).imp fun h ↦ ?_)
  rw [Path.name_entry, Path.name_entry]
  exact h

/-- An archive has a name. -/
theorem ne_empty_of_isArchiveName {name : String} (h : isArchiveName name = true) : name ≠ "" := by
  rintro rfl
  revert h
  decide

/-- No two archives of a directory have one text. -/
theorem nodup_text_archivesIn (w : Workspace) (directory : Path) :
    ((archivesIn w directory).map Path.text).Nodup := by
  refine List.pairwise_map.mpr ((pairwise_archivesIn w directory).imp_of_mem ?_)
  intro p q hp hq hlt htext
  obtain ⟨a, _, ha, rfl⟩ := mem_archivesIn.mp hp
  obtain ⟨b, _, hb, rfl⟩ := mem_archivesIn.mp hq
  rw [Path.name_entry, Path.name_entry] at hlt
  obtain rfl := (Path.text_entry_inj (ne_empty_of_isArchiveName ha)
    (ne_empty_of_isArchiveName hb)).mp htext
  exact String.lt_irrefl a hlt

/-! ### The archives of a build -/

section Collecting

variable {w v : Workspace} {build archive : Path} {subs : List String} {archives : List Path}

/-- Whether no archive is found in an output directory: it is missing, or no directory, or cannot be
looked up, or has none. -/
def lacksArchives (w : Workspace) (directory : Path) : Bool :=
  match w.lookUp directory with
  | .ok (some .directory) => (archivesIn w directory).isEmpty
  | _ => true

/-- No archive is found in a directory exactly when it has none or its path is refused. -/
theorem lacksArchives_iff {directory : Path} :
    lacksArchives w directory = true ↔
      archivesIn w directory = [] ∨ w.refuses directory = true := by
  unfold lacksArchives Workspace.lookUp
  split
  · next hlooked =>
      split at hlooked
      · cases hlooked
      · next hrefused =>
          rw [List.isEmpty_iff]
          exact (or_iff_left hrefused).symm
  · next hlooked =>
      refine iff_of_true rfl ?_
      by_cases hrefused : w.refuses directory = true
      · exact .inr hrefused
      · rw [if_neg hrefused] at hlooked
        refine .inl (archivesIn_of_not_isDirectory ?_)
        unfold Workspace.isDirectory
        split
        · next hfound => exact absurd (congrArg Except.ok hfound) hlooked
        · rfl

/-- What an output directory in which no archive is found is refused for. -/
def outputFault (w : Workspace) (directory : Path) : Failure :=
  match w.lookUp directory with
  | .ok (some .directory) => .install (.noArchives directory)
  | .ok _ => .install (.noBuildOutput directory)
  | .error e => .file e

/-- The archives of an output directory are found unless it lacks them. -/
theorem outputArchives_eq (w : Workspace) (directory : Path) :
    outputArchives w directory =
      if lacksArchives w directory then .error (outputFault w directory)
      else .ok (archivesIn w directory) := by
  unfold outputArchives lacksArchives outputFault
  rcases w.lookUp directory with e | _ | (bytes | _) <;> rfl

/-- Archives are collected from a directory and then from the others, unless it has none. -/
theorem collectArchives_cons (w : Workspace) (build : Path) (sub : String) (subs : List String) :
    collectArchives w build (sub :: subs) =
      if lacksArchives w (build.below sub) then .error (outputFault w (build.below sub))
      else (archivesIn w (build.below sub) ++ ·) <$> collectArchives w build subs := by
  rw [collectArchives, outputArchives_eq]
  cases lacksArchives w (build.below sub) with
  | true => rfl
  | false =>
      cases collectArchives w build subs with
      | error e => rfl
      | ok archives => rfl

/-- Archives are collected from all output directories, unless one has none: the first such
directory is refused. -/
theorem collectArchives_eq_find? (w : Workspace) (build : Path) (subs : List String) :
    collectArchives w build subs =
      match subs.find? fun sub ↦ lacksArchives w (build.below sub) with
      | some sub => .error (outputFault w (build.below sub))
      | none => .ok (subs.flatMap fun sub ↦ archivesIn w (build.below sub)) := by
  induction subs with
  | nil => rfl
  | cons sub subs ih =>
      rw [collectArchives_cons, ih, List.find?_cons]
      cases lacksArchives w (build.below sub) with
      | true => rfl
      | false =>
          cases subs.find? fun sub ↦ lacksArchives w (build.below sub) with
          | some first => rfl
          | none => rfl

/-- Archives are found alike where the same output directories have the same archives. -/
theorem collectArchives_congr (h : ∀ sub ∈ subs,
      v.lookUp (build.below sub) = w.lookUp (build.below sub) ∧
      archivesIn v (build.below sub) = archivesIn w (build.below sub)) :
    collectArchives v build subs = collectArchives w build subs := by
  induction subs with
  | nil => rfl
  | cons sub subs ih =>
      obtain ⟨hthere, hfound⟩ := h sub List.mem_cons_self
      rw [collectArchives_cons, collectArchives_cons, lacksArchives, lacksArchives, outputFault,
        outputFault, hthere, hfound, ih fun other hother ↦ h other (List.mem_cons_of_mem _ hother)]

/-- Archives that were collected are those of all output directories, which are there. -/
theorem collectArchives_eq_ok (h : collectArchives w build subs = .ok archives) :
    (∀ sub ∈ subs, w.lookUp (build.below sub) = .ok (some .directory)) ∧
      archives = subs.flatMap fun sub ↦ archivesIn w (build.below sub) := by
  rw [collectArchives_eq_find?] at h
  split at h
  · cases h
  · next hnone =>
      cases h
      refine ⟨fun sub hsub ↦ ?_, rfl⟩
      have hhas := List.find?_eq_none.mp hnone sub hsub
      unfold lacksArchives at hhas
      split at hhas
      · next hthere => exact hthere
      · exact absurd rfl hhas

/-- A collected archive is one of a directory that archives are collected from. -/
theorem exists_of_mem_collectArchives (h : collectArchives w build subs = .ok archives)
    (harchive : archive ∈ archives) : ∃ sub ∈ subs, archive ∈ archivesIn w (build.below sub) := by
  obtain ⟨_, rfl⟩ := collectArchives_eq_ok h
  exact List.mem_flatMap.mp harchive

end Collecting

end Vendoring.Build
