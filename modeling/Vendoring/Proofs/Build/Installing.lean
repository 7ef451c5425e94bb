import Vendoring.Proofs.Build.Replacing
import Vendoring.Proofs.Build.Runs
import Vendoring.Proofs.Files.Views

/-!
# What an install leaves

The files that an install which succeeds leaves are determined by those that it finds. The
directories of installed archives and programs are made, each archive of the output directories is
copied in turn, and the header tree is laid over what is in its target; nothing else is changed.
This needs what is read to be apart from what is written, and no directory to be where a file goes.
-/

namespace Vendoring.Build

open Vendoring.Files
open Vendoring.Action

namespace InstallRequest

variable (r : InstallRequest) (w : Workspace)

/-- The directory of the headers. -/
def headers : Path := r.source.below r.headerDir

/-- The directory that the headers go to. -/
def includeDir : Path := r.destination.below r.headers.name

/-- The directories that an install takes things from. -/
def reads : List Path := r.headers :: r.archiveSubdirs.map r.build.below

/-- The directories that an install puts things into. -/
def writes : List Path := [r.destination, r.includeDir]

/-- The archives that an install finds: those of each output directory, in the order of the
directories, and of their names in each. -/
def collection : List Path :=
  r.archiveSubdirs.flatMap fun sub ↦
    ((w.tree.names (w.place (r.build.below sub))).filter isArchiveName).map
      (r.build.below sub).entry

/-- What there is once the directories are made, with those on the way to them. -/
def laidView : View :=
  (View.withDirectories w.tree.find? (w.way (libraryDirectory r.destination))).withDirectories
    (w.way (programDirectory r.destination))

/-- What there is once every archive is copied in turn. -/
def filledView : View :=
  (r.collection w).foldl (fun view archive ↦ view.withCopy (w.place archive)
    (archive.name :: w.place (libraryDirectory r.destination))) (r.laidView w)

/-- What there is once the header tree is laid over its target. -/
def installedView : View :=
  (r.filledView w).withTree (w.place r.headers) (w.place r.includeDir)

/-- The paths of an install are as reading them from text gives them, and what is read is apart from
what is written. -/
structure IsIsolated : Prop where
  source : r.source.IsNormal
  build : r.build.IsNormal
  destination : r.destination.IsNormal
  apart : ∀ p ∈ r.reads, ∀ q ∈ r.writes, Apart (w.place p) (w.place q)

/-- No directory is where a file goes. -/
structure TargetsAreFree : Prop where
  archives : ∀ archive ∈ r.collection w,
    r.laidView w (archive.name :: w.place (libraryDirectory r.destination)) ≠ some .directory
  headers : ∀ rel bytes, r.filledView w (rel ++ w.place r.headers) = some (.file bytes) →
    r.filledView w (rel ++ w.place r.includeDir) ≠ some .directory

end InstallRequest

section Install

variable {r : InstallRequest} {around : Surroundings} {s t : Session} {installed : Installed}
  {w v : Workspace} {archives : List Path} {directory : Path} {l : Location}

/-! ### Making the directories -/

/-- Making the directories changes nothing, or makes a directory, at every place. -/
theorem laidView_cases (r : InstallRequest) (w : Workspace) (l : Location) :
    r.laidView w l = w.tree.find? l ∨ r.laidView w l = some .directory := by
  unfold InstallRequest.laidView View.withDirectories
  split
  · exact .inr rfl
  · split
    · exact .inr rfl
    · exact .inl rfl

/-- What there is once the directories were made. -/
theorem find?_layOut (h : Attempt.perform (layOut r.destination) w = (.ok (), v)) :
    v.tree.find? = r.laidView w := by
  obtain ⟨_, u, hlibrary, hprograms⟩ := Attempt.perform_bind_eq_ok.mp h
  have hhere := (Workspace.MakesWay.makeDirectories (libraryDirectory r.destination) w).here
  rw [hlibrary] at hhere
  rw [Workspace.find?_makeDirectories hprograms, Workspace.find?_makeDirectories hlibrary,
    Workspace.way_congr hhere]
  rfl

/-! ### Copying the archives -/

/-- Archives that were installed in turn are copied in the view in turn, and each is given by its
name. -/
theorem find?_mapM_installArchive {targets : List Path} (hw : Opens s.files directory l)
    (hnames : ∀ archive ∈ archives, IsName archive.name)
    (hfree : ∀ archive ∈ archives, s.files.tree.find? (archive.name :: l) ≠ some .directory)
    (h : perform (archives.mapM (installArchive directory)) around s = (.ok targets, t)) :
    t.files.tree.find? = archives.foldl (fun view archive ↦
        View.withCopy view (s.files.place archive) (archive.name :: l)) s.files.tree.find? ∧
      targets = archives.map fun archive ↦ directory.entry archive.name := by
  induction archives generalizing s targets with
  | nil =>
      cases h
      exact ⟨rfl, rfl⟩
  | cons archive archives ih =>
      obtain ⟨target, u, rest, hfirst, hrest, rfl⟩ := perform_mapM_cons_eq_ok.mp h
      have hname := hnames archive List.mem_cons_self
      have hcopy := perform_copyFile_of_installArchive hfirst
      have hchanged := hw.changedBelow_copyFile hname
      rw [hcopy] at hchanged
      have hview : u.files.tree.find? =
          View.withCopy s.files.tree.find? (s.files.place archive) (archive.name :: l) :=
        Workspace.find?_copyFile hcopy
          (Workspace.resolve_entry_of_resolve hw.lead hw.there hname)
          (hfree archive List.mem_cons_self)
      obtain ⟨⟨bytes, hfile⟩, _⟩ := hw.find?_copyFile hname hcopy
      have htarget : target = directory.entry archive.name := by
        obtain ⟨_, _, _, hdone⟩ := perform_bind_eq_ok.mp hfirst
        cases hdone
        rfl
      have hplaces : ∀ other, u.files.place other = s.files.place other :=
        fun other ↦ Workspace.place_congr hchanged.keeps.here other
      obtain ⟨hviews, htargets⟩ := ih (hw.of_changedBelow hchanged)
        (fun other hother ↦ hnames other (List.mem_cons_of_mem _ hother)) (fun other hother ↦ by
          -- What was copied is no directory, and elsewhere there is none as before.
          rw [hview, View.withCopy]
          split
          · rw [hfile]
            rintro ⟨⟩
          · exact hfree other (List.mem_cons_of_mem _ hother)) hrest
      refine ⟨?_, ?_⟩
      · rw [List.foldl_cons, hviews, hview]
        simp only [hplaces]
      · rw [List.map_cons, htarget, htargets]

/-! ### Finding the archives -/

/-- The places of what is read and of what is written are apart. -/
theorem InstallRequest.IsIsolated.apart_library (h : r.IsIsolated w) {p : Path}
    (hp : p ∈ r.reads) :
    Apart (w.place p) (w.place (libraryDirectory r.destination)) := by
  rw [place_libraryDirectory]
  exact (h.apart p hp r.destination List.mem_cons_self).mono List.suffix_rfl (List.suffix_cons _ _)

/-- The archives of an output directory that is there. -/
theorem archivesIn_eq_of_isDirectory (h : w.isDirectory directory = true) :
    archivesIn w directory =
      ((w.tree.names (w.place directory)).filter isArchiveName).map directory.entry := by
  obtain ⟨m, hlead, hm⟩ := Workspace.isDirectory_iff.mp h
  rw [archivesIn, Workspace.names_of_resolve hlead hm, Workspace.place_of_resolve hlead]

/-- Archives that were found, and are files, once the directories were made are those that were
there before. -/
theorem collectArchives_eq_collection (hlaid : v.tree.find? = r.laidView w)
    (hhere : v.here = w.here) (hv : v.Sound)
    (hcollected : collectArchives v r.build r.archiveSubdirs = .ok archives)
    (hfiles : ∀ archive ∈ archives, ∃ bytes,
      v.tree.find? (v.place archive) = some (.file bytes)) :
    archives = r.collection w := by
  obtain ⟨hfound, rfl⟩ := collectArchives_eq_ok hcollected
  have hthere := fun sub hsub ↦ Workspace.isDirectory_of_lookUp (hfound sub hsub)
  unfold InstallRequest.collection
  refine List.flatMap_congr fun sub hsub ↦ ?_
  rw [archivesIn_eq_of_isDirectory (hthere sub hsub), Workspace.place_congr hhere]
  congr 1
  refine Tree.filter_names_congr fun name hname ↦ ?_
  rw [hlaid]
  refine (laidView_cases r w _).resolve_right fun hdirectory ↦ ?_
  -- A directory that was made would have been found, and is no file.
  rw [← hlaid] at hdirectory
  have hisName := hv.named name _ _ hdirectory
  have hlisted : (r.build.below sub).entry name ∈
      r.archiveSubdirs.flatMap fun sub ↦ archivesIn v (r.build.below sub) := by
    refine List.mem_flatMap.mpr ⟨sub, hsub, ?_⟩
    rw [archivesIn_eq_of_isDirectory (hthere sub hsub), Workspace.place_congr hhere]
    refine List.mem_map_of_mem (List.mem_filter.mpr ⟨Tree.mem_names.mpr ⟨_, hdirectory⟩, hname⟩)
  obtain ⟨bytes, hfile⟩ := hfiles _ hlisted
  rw [Workspace.place_entry v _ hisName.ne_dots, Workspace.place_congr hhere, hdirectory] at hfile
  cases hfile

/-! ### Laying the header tree over its target -/

/-- The header tree can be copied once the archives are. -/
theorem copies_headers (hr : r.IsIsolated w) (hfree : r.TargetsAreFree w) (hv : v.Sound)
    (hhere : v.here = w.here) (hview : v.tree.find? = r.filledView w)
    (hthere : v.isDirectory r.headers = true) :
    Workspace.Copies r.headers.text r.includeDir.text (w.place r.headers)
      (w.place r.includeDir) v := by
  have hsource : r.headers.IsNormal := hr.source.below _
  have htarget : r.includeDir.IsNormal := hr.destination.below _
  obtain ⟨m, hlead, hm⟩ := Workspace.isDirectory_iff.mp hthere
  obtain rfl : m = w.place r.headers := by
    rw [← Workspace.place_of_resolve hlead, Workspace.place_congr hhere]
  exact {
    sound := hv
    source_ne_empty := r.headers.text_ne_empty
    target_ne_empty := r.includeDir.text_ne_empty
    lead := by rw [Path.ofString_text hsource, hlead]
    there := hm
    place := by rw [Path.ofString_text htarget, Workspace.place_congr hhere]
    apart := hr.apart _ List.mem_cons_self _ (List.mem_cons_of_mem _ List.mem_cons_self)
    free := hview ▸ hfree.headers }

/-- What an install that succeeds leaves is determined by what it finds: the directories of
installed archives and programs are made, with those on the way to them; each archive of the
collection is copied in turn to its name in the first of them; and everything at and below the
header directory is laid over what is at and below its target. Nothing else is changed. What it
gives are the directories used and the installed archives in the order of the collection. -/
theorem install_eq_installedView (hs : s.files.Sound) (hr : r.IsIsolated s.files)
    (hfree : r.TargetsAreFree s.files)
    (h : perform (install r) around s = (.ok installed, t)) :
    t.files.here = s.files.here ∧ (∀ l, t.files.tree.find? l = r.installedView s.files l) ∧
      installed = ⟨r.destination, libraryDirectory r.destination, programDirectory r.destination,
        r.includeDir, (r.collection s.files).map fun archive ↦
          (libraryDirectory r.destination).entry archive.name⟩ := by
  obtain ⟨laid, archives, targets, u, hlayout, hcollected, hcopied, hthere, hheaders, rfl⟩ :=
    parts_of_install h
  have hhere := here_layOut hlayout
  have hlaid := find?_layOut hlayout
  have hopen := opens_layOut hs hr.destination hlayout
  have hbeside : ∀ archive ∈ archives, IsName archive.name ∧
      ¬s.files.place (libraryDirectory r.destination) <:+ laid.place archive := by
    intro archive harchive
    obtain ⟨sub, hsub, hfound⟩ := exists_of_mem_collectArchives hcollected harchive
    have hread : r.build.below sub ∈ r.reads := List.mem_cons_of_mem _ (List.mem_map_of_mem hsub)
    exact isName_and_not_suffix_of_mem_archivesIn hopen.sound hhere (hr.apart_library hread).2
      hfound
  obtain ⟨hchanged, _, hfiles⟩ := changedBelow_mapM_installArchive hopen
    (fun archive harchive ↦ (hbeside archive harchive).1)
    (fun archive harchive ↦ (hbeside archive harchive).2) hcopied
  obtain rfl := collectArchives_eq_collection hlaid hhere hopen.sound hcollected hfiles
  obtain ⟨hviews, htargets⟩ := find?_mapM_installArchive hopen
    (fun archive harchive ↦ (hbeside archive harchive).1)
    (fun archive harchive ↦ by
      dsimp only
      rw [hlaid]
      exact hfree.archives archive harchive) hcopied
  have hfilled : u.files.tree.find? = r.filledView s.files := by
    rw [hviews]
    dsimp only
    rw [hlaid]
    simp only [Workspace.place_congr hhere]
    rfl
  have hhere' : u.files.here = s.files.here := hchanged.keeps.here.trans hhere
  have hkept := Attempt.KeepsHere.copyTree (r.source.below r.headerDir).text
    (r.destination.below (r.source.below r.headerDir).name).text u.files
  have hcopies := copies_headers hr hfree hchanged.sound hhere' hfilled hthere
  have hview := hcopies.find?_copyTree hheaders
  rw [hheaders] at hkept
  refine ⟨hkept.trans hhere', fun l ↦ ?_, ?_⟩
  · rw [hview, hfilled]
    rfl
  · rw [htargets]
    rfl

end Install

/-! ### A sample install -/

/-- Places where there can be something once every archive is copied. -/
def InstallRequest.places (r : InstallRequest) (w : Workspace) : List Location :=
  [] :: w.tree.entries.map Prod.fst ++ w.way (libraryDirectory r.destination) ++
    w.way (programDirectory r.destination) ++ (r.collection w).map fun archive ↦
      archive.name :: w.place (libraryDirectory r.destination)

section Places

variable {r : InstallRequest} {w : Workspace} {l : Location} {e : Entry}

private theorem mem_of_find? (h : w.tree.find? l = some e) :
    l ∈ [] :: w.tree.entries.map Prod.fst := by
  cases l with
  | nil => exact List.mem_cons_self
  | cons name l =>
      obtain ⟨_, _, hsplit, _⟩ := List.lookup_eq_some_iff.mp h
      refine List.mem_cons_of_mem _ (List.mem_map.mpr ⟨(name :: l, e), ?_, rfl⟩)
      rw [hsplit]
      exact List.mem_append_right _ List.mem_cons_self

private theorem mem_of_foldl_withCopy {archives : List Path} {view : View}
    (h : archives.foldl (fun view archive ↦ View.withCopy view (w.place archive)
      (archive.name :: w.place (libraryDirectory r.destination))) view l = some e) :
    (∃ e, view l = some e) ∨ l ∈ archives.map fun archive ↦
      archive.name :: w.place (libraryDirectory r.destination) := by
  induction archives generalizing view with
  | nil => exact .inl ⟨e, h⟩
  | cons archive archives ih =>
      rw [List.foldl_cons] at h
      rw [List.map_cons, List.mem_cons]
      obtain ⟨e', hview⟩ | hmem := ih h
      · rw [View.withCopy] at hview
        split at hview
        · next hl => exact .inr (.inl hl)
        · exact .inl ⟨e', hview⟩
      · exact .inr (.inr hmem)

/-- There is nothing anywhere else. -/
theorem mem_places_of_filledView (h : r.filledView w l = some e) : l ∈ r.places w := by
  unfold InstallRequest.places
  obtain ⟨e', hlaid⟩ | hmem := mem_of_foldl_withCopy h
  · rw [List.mem_append, List.mem_append, List.mem_append]
    left
    unfold InstallRequest.laidView View.withDirectories at hlaid
    split at hlaid
    · next hl => exact .inr hl
    · split at hlaid
      · next hl => exact .inl (.inr hl)
      · exact .inl (.inl (mem_of_find? hlaid))
  · exact List.mem_append_right _ hmem

private theorem all_isDirectory_iff {o : Option Entry} :
    o.all Entry.isDirectory = true ↔ ∀ bytes, o ≠ some (.file bytes) := by
  cases o with
  | none => simp
  | some e => cases e <;> simp [Entry.isDirectory]

instance (r : InstallRequest) (w : Workspace) : Decidable (r.TargetsAreFree w) :=
  decidable_of_iff ((∀ archive ∈ r.collection w, r.laidView w
      (archive.name :: w.place (libraryDirectory r.destination)) ≠ some .directory) ∧
    ∀ l ∈ r.places w, w.place r.includeDir <:+ l → r.filledView w l = some .directory →
      (r.filledView w (l.take (l.length - (w.place r.includeDir).length) ++
        w.place r.headers)).all Entry.isDirectory = true) (by
    constructor
    · rintro ⟨harchives, hheaders⟩
      refine ⟨harchives, fun rel bytes hfile hdirectory ↦ ?_⟩
      have hrel := hheaders _ (mem_places_of_filledView hdirectory) (List.suffix_append rel _)
        hdirectory
      rw [List.length_append, Nat.add_sub_cancel, List.take_left] at hrel
      exact all_isDirectory_iff.mp hrel bytes hfile
    · rintro ⟨harchives, hheaders⟩
      refine ⟨harchives, ?_⟩
      rintro _ _ ⟨rel, rfl⟩ hdirectory
      rw [List.length_append, Nat.add_sub_cancel, List.take_left]
      exact all_isDirectory_iff.mpr fun bytes hfile ↦ hheaders rel bytes hfile hdirectory)

end Places

/-- A sample request to install the archives of two output directories. -/
def sampleInstall : InstallRequest :=
  ⟨.ofString "src", .ofString "build", .ofString "out", ["crypto", "ssl"], "include"⟩

/-- Sample files with an archive of one name in two output directories, and with an install that is
there already. -/
def sampleInstalled : Workspace :=
  [("src/include/sub/lib.h", "new"), ("build/crypto/lib.a", "one"), ("build/ssl/lib.a", "two"),
    ("out/lib/lib.a", "old"), ("out/include/sub/lib.h", "old"), ("out/include/sub/old.h", "")].foldl
    (fun w file ↦ w.plant (.ofString file.1) (.file (Text.Utf8.encode file.2))) ⟨.empty, []⟩

/-- A sample install replaces the archive that is there by the later of the two that have its name,
and the header that is there by that of the source; the other header is kept. -/
theorem install_sample_eq_installedView : ∃ t : Session,
    perform (install sampleInstall) sampleSurroundings (sampleSession sampleInstalled) =
      (.ok ⟨.ofString "out", .ofString "out/lib", .ofString "out/bin", .ofString "out/include",
        [.ofString "out/lib/lib.a", .ofString "out/lib/lib.a"]⟩, t) ∧
    t.files.tree.find? ["lib.a", "lib", "out"] = some (.file (Text.Utf8.encode "two")) ∧
    t.files.tree.find? ["lib.h", "sub", "include", "out"] =
      some (.file (Text.Utf8.encode "new")) ∧
    t.files.tree.find? ["old.h", "sub", "include", "out"] = some (.file []) := by
  have hgiven : (perform (install sampleInstall) sampleSurroundings
      (sampleSession sampleInstalled)).1.toOption.any (fun _ ↦ true) = true := by
    decide +kernel
  obtain ⟨installed, t, h, _⟩ := exists_of_any_toOption hgiven
  obtain ⟨_, hview, rfl⟩ := install_eq_installedView
    (Workspace.sound_of_entries (by decide +kernel) (by decide +kernel))
    ⟨Path.isNormal_ofString _, Path.isNormal_ofString _, Path.isNormal_ofString _,
      by decide +kernel⟩ (by decide +kernel) h
  refine ⟨t, ?_, ?_⟩
  · rw [h]
    congr 2
    decide +kernel
  · simp only [hview]
    decide +kernel

end Vendoring.Build
