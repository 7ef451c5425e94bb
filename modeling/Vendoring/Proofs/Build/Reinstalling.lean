import Vendoring.Proofs.Build.InstallHalves
import Vendoring.Proofs.Files.Redoing

/-!
# Installing again

An install that went well can be done again: it gives the same result, and leaves the files as they
are. This needs what is read to be apart from what is written, and nothing else: whatever the
directory of the install held before, be it files that are replaced or directories where files go,
the second install finds what the first one left and leaves that, too. As everywhere, the process
has all rights: a copy that its source's permissions protect is no obstacle to it.
-/

namespace Vendoring.Build

open Vendoring.Files
open Vendoring.Action

/-! ### What is read and written -/

/-- Everything that an install writes is below a place, apart from all that it reads. -/
structure WritesBelow (root : Location) (r : InstallRequest) (w : Workspace) : Prop where
  source : r.source.IsNormal
  build : r.build.IsNormal
  destination : r.destination.IsNormal
  library : root <:+ w.place (libraryDirectory r.destination)
  headers : root <:+ w.place r.includeDir
  apart : ∀ p ∈ r.reads, Apart (w.place p) root

section Writing

variable {r : InstallRequest} {w v : Workspace} {root : Location}

/-- An entry of a path by the name of another is below the path, or the path is in it. -/
private theorem suffix_place_below_name (w : Workspace) (p : Path) {q : Path} (hq : q.IsNormal) :
    w.place p <:+ w.place (p.below q.name) ∨ w.place (p.below q.name) <:+ w.place p := by
  by_cases hname : q.name = ""
  · have hsame : p.below q.name = p := by
      rw [hname]
      show { p with parts := p.parts ++ [] } = p
      rw [List.append_nil]
    rw [hsame]
    exact .inl List.suffix_rfl
  rw [Path.below_of_isPart p (hq.isPart_name hname)]
  by_cases hdots : q.name = ".."
  · rw [hdots, Path.entry_eq_onward, Workspace.place_onward]
    exact .inr (List.tail_suffix _)
  · rw [Workspace.place_entry w p hdots]
    exact .inl (List.suffix_cons _ _)

/-- When what is read is apart from what is written, all of this is below one place. -/
theorem InstallRequest.IsIsolated.exists_writesBelow (h : r.IsIsolated w) :
    ∃ root, WritesBelow root r w := by
  have hlibrary : w.place r.destination <:+ w.place (libraryDirectory r.destination) := by
    rw [place_libraryDirectory]
    exact List.suffix_cons _ _
  rcases suffix_place_below_name w r.destination (h.source.below r.headerDir) with hroot | hroot
  · exact ⟨_, h.source, h.build, h.destination, hlibrary, hroot,
      fun p hp ↦ h.apart p hp _ List.mem_cons_self⟩
  · exact ⟨_, h.source, h.build, h.destination, hroot.trans hlibrary, List.suffix_rfl,
      fun p hp ↦ h.apart p hp _ (List.mem_cons_of_mem _ List.mem_cons_self)⟩

namespace WritesBelow

/-- What is written depends on the current directory alone. -/
theorem congr (h : WritesBelow root r w) (hhere : v.here = w.here) : WritesBelow root r v where
  source := h.source
  build := h.build
  destination := h.destination
  library := by
    rw [Workspace.place_congr hhere]
    exact h.library
  headers := by
    rw [Workspace.place_congr hhere]
    exact h.headers
  apart p hp := by
    rw [Workspace.place_congr hhere]
    exact h.apart p hp

/-- A directory that is there and read is read apart from the place. -/
theorem readsBeside (h : WritesBelow root r w) {p : Path} (hp : p ∈ r.reads)
    (hnormal : p.IsNormal) (hthere : w.isDirectory p = true) :
    Workspace.ReadsBeside root w p.text (w.place p) := by
  have hapart := h.apart p hp
  obtain ⟨l, hlead, hl⟩ := Workspace.isDirectory_iff.mp hthere
  rw [Workspace.place_of_resolve hlead] at hapart ⊢
  exact ⟨p.text_ne_empty, by rw [Path.ofString_text hnormal, hlead], hl, hapart⟩

/-- An archive that was found is read apart from the place. -/
theorem of_mem_archives (h : WritesBelow root r w) (hw : w.Sound) {archives : List Path}
    (hfound : collectArchives w r.build r.archiveSubdirs = .ok archives) {archive : Path}
    (harchive : archive ∈ archives) : IsName archive.name ∧ ¬root <:+ w.place archive := by
  obtain ⟨sub, hsub, hin⟩ := exists_of_mem_collectArchives hfound harchive
  obtain ⟨name, hname, rfl⟩ := exists_of_mem_archivesIn hw hin
  have hapart := h.apart _ (List.mem_cons_of_mem _ (List.mem_map_of_mem hsub))
  rw [Path.name_entry, w.place_entry _ hname.ne_dots]
  exact ⟨hname, hapart.not_suffix (List.suffix_cons _ _)⟩

end WritesBelow
end Writing

section Install

variable {r : InstallRequest} {around : Surroundings} {s s' t : Session} {installed : Installed}
  {targets archives : List Path} {directory archive target : Path} {w v : Workspace}
  {root : Location} {start last : Workspace}

/-! ### Copying the archives again -/

/-- Archives that were found are found again when something was written. -/
theorem collectArchives_of_changedBelow (hr : WritesBelow root r w) (hw : w.Sound)
    (hchanged : Workspace.ChangedBelow root w v)
    (hfound : collectArchives w r.build r.archiveSubdirs = .ok archives) :
    collectArchives v r.build r.archiveSubdirs = .ok archives := by
  obtain ⟨hthere, _⟩ := collectArchives_eq_ok hfound
  rw [← hfound]
  refine collectArchives_congr fun sub hsub ↦ ⟨?_, ?_⟩
  · rw [hthere sub hsub, hchanged.keeps.lookUp (hthere sub hsub)]
  · have hdirectory := Workspace.isDirectory_of_lookUp (hthere sub hsub)
    have hread := hr.readsBeside (List.mem_cons_of_mem _ (List.mem_map_of_mem hsub))
      (hr.build.below sub) hdirectory
    have hnames := hread.names_eq hchanged
    have hnames' := hread.names_eq (.refl root hw)
    rw [Path.ofString_text (hr.build.below sub)] at hnames hnames'
    rw [archivesIn, archivesIn, hnames, hnames']

private theorem isBelow_entry (hdirectory : directory.IsNormal)
    (hroot : root <:+ w.place directory) {name : String} (hname : IsName name) :
    (Reference.ofPath (directory.entry name)).IsBelow root w := by
  refine .ofPath (hdirectory.entry hname.toIsPart) ?_
  rw [w.place_entry _ hname.ne_dots]
  exact hroot.trans (List.suffix_cons _ _)

/-- Installing an archive keeps the kinds of what it finds, and changes nothing but what is below
the place. -/
theorem keeps_installArchive (hs : Workspace.ChangedBelow root start s.files)
    (hname : IsName archive.name) (hdirectory : directory.IsNormal)
    (hroot : root <:+ start.place directory)
    (h : perform (installArchive directory archive) around s = (.ok target, t)) :
    Workspace.ChangedBelow root start t.files ∧ Workspace.KeepsKinds s.files t.files := by
  have hcopy := perform_copyFile_of_installArchive h
  have hchanges : Attempt.Preserves (Workspace.ChangedBelow root start)
      (Workspace.copyFile (.ofPath archive) (.ofPath (directory.entry archive.name))) :=
    Workspace.ChangedBelow.copyFile hname (isBelow_entry hdirectory hroot hname)
  have hchanged := hchanges s.files hs
  have hkinds := Attempt.KeepsKinds.copyFile (.ofPath archive)
    (.ofPath (directory.entry archive.name)) s.files (.refl _)
  rw [hcopy] at hchanged hkinds
  exact ⟨hchanged, hkinds⟩

/-- Installing archives keeps the kinds of what it finds, and changes nothing but what is below the
place. -/
theorem keeps_mapM_installArchive (hs : Workspace.ChangedBelow root start s.files)
    (hnames : ∀ archive ∈ archives, IsName archive.name)
    (hdirectory : directory.IsNormal) (hroot : root <:+ start.place directory)
    (h : perform (archives.mapM (installArchive directory)) around s = (.ok targets, t)) :
    Workspace.ChangedBelow root start t.files ∧ Workspace.KeepsKinds s.files t.files := by
  induction archives generalizing s targets with
  | nil =>
      cases h
      exact ⟨hs, .refl _⟩
  | cons archive archives ih =>
      obtain ⟨target, u, rest, hfirst, hrest, rfl⟩ := perform_mapM_cons_eq_ok.mp h
      obtain ⟨hchanged, hkinds⟩ :=
        keeps_installArchive hs (hnames archive List.mem_cons_self) hdirectory hroot hfirst
      obtain ⟨hchanged', hkinds'⟩ :=
        ih hchanged (fun other hother ↦ hnames other (List.mem_cons_of_mem _ hother)) hrest
      exact ⟨hchanged', hkinds.trans hkinds'⟩

/-- An archive from outside of a place that was installed is installed when this is done again. -/
theorem redoes_installArchive (around' : Surroundings)
    (hs : Workspace.Redoes root start last s.files s'.files)
    (harchive : IsName archive.name ∧ ¬root <:+ start.place archive)
    (hdirectory : directory.IsNormal) (hroot : root <:+ start.place directory)
    (hkept : Workspace.KeepsKinds t.files last)
    (h : perform (installArchive directory archive) around s = (.ok target, t)) :
    ∃ t', perform (installArchive directory archive) around' s' = (.ok target, t') ∧
      Workspace.Redoes root start last t.files t'.files := by
  obtain ⟨hname, houtside⟩ := harchive
  obtain ⟨files, hcopied, rfl, rfl⟩ := installArchive_eq_ok_iff.mp h
  obtain ⟨files', hagain, hfiles⟩ :=
    hs.copyFile hname houtside (isBelow_entry hdirectory hroot hname) hkept hcopied
  exact ⟨{ s' with files := files' }, installArchive_eq_ok_iff.mpr ⟨files', hagain, rfl, rfl⟩,
    hfiles⟩

/-- Archives from outside of a place that were installed are installed when this is done again. -/
theorem redoes_mapM_installArchive (around' : Surroundings)
    (hs : Workspace.Redoes root start last s.files s'.files)
    (harchives : ∀ archive ∈ archives, IsName archive.name ∧ ¬root <:+ start.place archive)
    (hdirectory : directory.IsNormal) (hroot : root <:+ start.place directory)
    (hkept : Workspace.KeepsKinds t.files last)
    (h : perform (archives.mapM (installArchive directory)) around s = (.ok targets, t)) :
    ∃ t', perform (archives.mapM (installArchive directory)) around' s' = (.ok targets, t') ∧
      Workspace.Redoes root start last t.files t'.files := by
  induction archives generalizing s s' targets with
  | nil =>
      cases h
      exact ⟨s', rfl, hs⟩
  | cons archive archives ih =>
      obtain ⟨target, u, rest, hfirst, hrest, rfl⟩ := perform_mapM_cons_eq_ok.mp h
      have harchive := harchives archive List.mem_cons_self
      have hothers : ∀ other ∈ archives, IsName other.name ∧ ¬root <:+ start.place other :=
        fun other hother ↦ harchives other (List.mem_cons_of_mem _ hother)
      -- What the first copy made is still of its kind after the others.
      obtain ⟨hchanged, _⟩ := keeps_installArchive hs.left harchive.1 hdirectory hroot hfirst
      obtain ⟨_, hlater⟩ := keeps_mapM_installArchive hchanged
        (fun other hother ↦ (hothers other hother).1) hdirectory hroot hrest
      obtain ⟨u', hagain, hu'⟩ := redoes_installArchive around' hs harchive hdirectory hroot
        (hlater.trans hkept) hfirst
      obtain ⟨t', hagain', ht'⟩ := ih hu' hothers hrest
      exact ⟨t', perform_mapM_cons_eq_ok.mpr ⟨target, u', rest, hagain, hagain', rfl⟩, ht'⟩

/-- Archives that were copied are copied again: nothing has to be made, the same archives are found,
and each is copied once more. -/
theorem redoes_copyArchives (around' : Surroundings)
    (hr : WritesBelow root r s.files) (hs : s.files.Sound)
    (hchanged : Workspace.ChangedBelow root t.files s'.files)
    (hkept : Workspace.KeepsKinds t.files s'.files)
    (h : perform (copyArchives r) around s = (.ok targets, t)) :
    ∃ t', perform (copyArchives r) around' s' = (.ok targets, t') ∧
      Workspace.Redoes root t.files s'.files t.files t'.files := by
  obtain ⟨htaken, laid, archives, hlayout, hfound, hcopied⟩ := copyArchives_eq_ok_iff.mp h
  have hopen := opens_layOut hs hr.destination hlayout
  have hlaid := hr.congr (here_layOut hlayout)
  have harchives : ∀ archive ∈ archives, IsName archive.name ∧ ¬root <:+ laid.place archive :=
    fun _ harchive ↦ hlaid.of_mem_archives hopen.sound hfound harchive
  obtain ⟨hfirst, _⟩ := keeps_mapM_installArchive (s := { s with files := laid })
    (.refl root hopen.sound) (fun archive harchive ↦ (harchives archive harchive).1)
    (hr.destination.below _) hlaid.library hcopied
  have hall := hfirst.trans hchanged
  obtain ⟨hlibrary, hprograms⟩ := isDirectory_layOut hlayout
  have hlayout' := perform_layOut_of_isDirectory (hall.keeps.isDirectory hlibrary)
    (hall.keeps.isDirectory hprograms)
  have hfound' := collectArchives_of_changedBelow hlaid hopen.sound hall hfound
  obtain ⟨t', hcopied', ht'⟩ := redoes_mapM_installArchive around'
    (.refl hopen.sound hall) harchives (hr.destination.below _) hlaid.library hkept hcopied
  exact ⟨t', copyArchives_eq_ok_iff.mpr ⟨htaken, s'.files, archives, hlayout', hfound', hcopied'⟩,
    ht'.rest hkept⟩

/-! ### Copying the headers again -/

private theorem isBelow_includeDir (hr : WritesBelow root r w) :
    (Reference.ofText r.includeDir.text).IsBelow root w :=
  .ofText_text (hr.destination.below _) hr.headers

/-- Copying the headers keeps the kinds of what it finds, and changes nothing but what is below the
place. -/
theorem keeps_copyHeaders (hr : WritesBelow root r s.files) (hs : s.files.Sound)
    (h : perform (copyHeaders r targets) around s = (.ok installed, t)) :
    Workspace.ChangedBelow root s.files t.files ∧ Workspace.KeepsKinds s.files t.files := by
  obtain ⟨_, files, _, _, hcopy, _, rfl⟩ := copyHeaders_eq_ok_iff.mp h
  have hchanged := Workspace.ChangedBelow.copyTree r.headers.text_ne_empty
    r.includeDir.text_ne_empty hs
  have hkinds := Attempt.KeepsKinds.copyTree r.headers.text r.includeDir.text s.files (.refl _)
  rw [hcopy] at hchanged hkinds
  exact ⟨hchanged.mono (isBelow_includeDir hr).place, hkinds⟩

/-- Headers that were copied are copied again. -/
theorem redoes_copyHeaders (around' : Surroundings) (hr : WritesBelow root r s.files)
    (hs : Workspace.Redoes root s.files t.files s.files s'.files)
    (hkept : Workspace.KeepsKinds s.files t.files)
    (h : perform (copyHeaders r targets) around s = (.ok installed, t)) :
    ∃ t', perform (copyHeaders r targets) around' s' = (.ok installed, t') ∧
      Workspace.Redoes root s.files t.files t.files t'.files := by
  obtain ⟨shown, files, hrender, hthere, hcopy, hinstalled, rfl⟩ := copyHeaders_eq_ok_iff.mp h
  have hheaders := hr.readsBeside List.mem_cons_self (hr.source.below _)
    (Workspace.isDirectory_of_lookUp hthere)
  obtain ⟨files', hcopy', hfiles⟩ := hs.copyTree hheaders (isBelow_includeDir hr) (.refl _) hcopy
  have hthere' := (hs.keepsDirectories hkept).lookUp hthere
  exact ⟨_, copyHeaders_eq_ok_iff.mpr ⟨shown, files', hrender, hthere', hcopy', hinstalled, rfl⟩,
    hfiles⟩

/-! ### Installing again -/

end Install

/-- Sample files with archives of one name in two output directories, and with an install where
directories are in the way of an archive and of a header. -/
def sampleObstructed : Workspace :=
  [("src/include/sub/lib.h", "new"), ("build/crypto/lib.a", "one"), ("build/ssl/lib.a", "two"),
    ("out/lib/lib.a/note", ""), ("out/lib/old.a", "old"), ("out/include/sub/lib.h/note", "")].foldl
    (fun w file ↦ w.plant (.ofString file.1) (.file (Text.Utf8.encode file.2))) ⟨.empty, []⟩

end Vendoring.Build
