import Mathlib.Data.List.Dedup
import Vendoring.Proofs.Build.Landing

/-!
# Archives that are kept

An install that succeeds keeps all archives just if no two of them have one name and no directory is
where one of them goes. Archives of one name go to one place: the last of them replaces the others,
and all are counted. An archive that goes where a directory is goes into it. Neither is told.
-/

namespace Vendoring.Build

open Vendoring.Files
open Vendoring.Action

/-- No archive is lost in an install: each that is in an output directory is in the directory of
installed archives with its content, and those that the result lists are different files, as many as
there are archives in the output directories. -/
structure KeepsArchives (r : InstallRequest) (w v : Workspace) (installed : Installed) : Prop where
  kept : ∀ sub ∈ r.archiveSubdirs, ∀ name, isArchiveName name = true → ∀ bytes,
    w.content? ((r.build.below sub).entry name) = some bytes →
      v.content? ((libraryDirectory r.destination).entry name) = some bytes
  distinct : installed.archives.Nodup
  regular : ∀ target ∈ installed.archives, ∃ bytes, v.content? target = some bytes
  counted : installed.archives.length = ((r.collection w).map w.place).dedup.length

section Keeping

variable {r : InstallRequest} {around : Surroundings} {s t : Session} {installed : Installed}
  {w v : Workspace} {archive directory : Path} {archives : List Path} {l : Location}
  {name : String} {bytes : List UInt8} {view : View}

/-! ### Places and names -/

/-- An archive of the collection is an entry of an output directory. -/
theorem mem_collection : archive ∈ r.collection w ↔ ∃ sub ∈ r.archiveSubdirs, ∃ name,
    (∃ e, w.tree.find? (name :: w.place (r.build.below sub)) = some e) ∧
      isArchiveName name = true ∧ (r.build.below sub).entry name = archive := by
  simp only [InstallRequest.collection, List.mem_flatMap, List.mem_map, List.mem_filter,
    Tree.mem_names, and_assoc]

/-- An archive of the collection has a name that an entry may have. -/
theorem isName_of_mem_collection (hw : w.Sound) (h : archive ∈ r.collection w) :
    IsName archive.name := by
  obtain ⟨sub, _, name, ⟨e, hfound⟩, _, rfl⟩ := mem_collection.mp h
  rw [Path.name_entry]
  exact hw.named name _ e hfound

/-- A file with an archive's name in an output directory is in the collection. -/
theorem mem_collection_of_content? {sub : String} (hsub : sub ∈ r.archiveSubdirs)
    (hname : isArchiveName name = true)
    (hcontent : w.content? ((r.build.below sub).entry name) = some bytes) :
    (r.build.below sub).entry name ∈ r.collection w ∧
      w.tree.find? (w.place ((r.build.below sub).entry name)) = some (.file bytes) := by
  have hdots : name ≠ ".." := by
    rintro rfl
    revert hname
    decide
  obtain ⟨k, hlead, hfile⟩ := Workspace.content?_eq_some.mp hcontent
  rw [← Workspace.place_of_resolve hlead] at hfile
  refine ⟨mem_collection.mpr ⟨sub, hsub, name, ⟨.file bytes, ?_⟩, hname, rfl⟩, hfile⟩
  rwa [w.place_entry _ hdots] at hfile

/-- A file is in an open directory exactly when it is at its name. -/
theorem Opens.content?_entry (hw : Opens w directory l) (hname : IsName name) :
    w.content? (directory.entry name) = some bytes ↔
      w.tree.find? (name :: l) = some (.file bytes) := by
  rw [Workspace.content?_eq_some, Workspace.resolve_entry_of_resolve hw.lead hw.there hname]
  exact ⟨fun ⟨_, hk, hfile⟩ ↦ Except.ok.inj hk ▸ hfile, fun hfile ↦ ⟨_, rfl, hfile⟩⟩

/-- A copy lands in the directory. -/
theorem suffix_landing (view : View) (l : Location) (name : String) :
    l <:+ landing view l name := by
  unfold landing
  split
  · exact (List.suffix_cons _ _).trans (List.suffix_cons _ _)
  · exact List.suffix_cons _ _

/-- No copy lands where a directory is in the directory. -/
theorem landing_ne_of_directory (h : view (name :: l) = some .directory) (other : String) :
    landing view l other ≠ name :: l := by
  unfold landing
  split
  · exact fun heq ↦ absurd (congrArg List.length heq) (by simp)
  · next hno =>
      rintro heq
      obtain ⟨rfl, _⟩ := List.cons.inj heq
      exact hno h

/-- An archive is the last of its name when all have different names. -/
theorem lastNamed_of_nodup (h : (archives.map Path.name).Nodup) (harchive : archive ∈ archives) :
    lastNamed archives archive.name = some archive := by
  obtain ⟨last, hlast⟩ := exists_lastNamed harchive
  obtain ⟨hmem, hname⟩ := mem_of_lastNamed hlast
  rw [hlast, List.inj_on_of_nodup_map h hmem harchive hname]

/-- Archives with different names are at different places. -/
theorem nodup_places (hnames : ∀ archive ∈ archives, IsName archive.name)
    (h : (archives.map Path.name).Nodup) : (archives.map w.place).Nodup := by
  refine List.Nodup.of_map (·.headD "") ?_
  rw [List.map_map]
  refine Eq.mp (congrArg List.Nodup (List.map_congr_left fun archive harchive ↦ ?_)) h
  obtain ⟨k, hk⟩ := exists_place_eq w (hnames archive harchive)
  rw [Function.comp, hk]
  rfl

/-! ### What an install keeps -/

/-- An install has left archives: what copying them left is still there, and the result lists them
by their names in the directory of installed archives. -/
structure ArchivesLeft (r : InstallRequest) (w v : Workspace) (installed : Installed) : Prop where
  copied : ∃ u, ArchivesCopied r w u ∧
    ∀ m, w.place (libraryDirectory r.destination) <:+ m → v.tree.find? m = u.tree.find? m
  library : Opens v (libraryDirectory r.destination) (w.place (libraryDirectory r.destination))
  listed : installed.archives =
    (r.collection w).map fun archive ↦ (libraryDirectory r.destination).entry archive.name

/-- An install that succeeded has left archives when its headers go beside them. -/
theorem archivesLeft_of_install (hs : s.files.Sound) (hdestination : r.destination.IsNormal)
    (hheaders : Apart (s.files.place r.includeDir)
      (s.files.place (libraryDirectory r.destination)))
    (h : perform (install r) around s = (.ok installed, t)) :
    ArchivesLeft r s.files t.files installed := by
  rw [install_eq] at h
  obtain ⟨targets, u, harchives, hrest⟩ := perform_bind_eq_ok.mp h
  obtain ⟨hcopied, hopen, rfl, _⟩ := archivesCopied_of_copyArchives hs hdestination harchives
  obtain ⟨_, files, _, _, hcopy, rfl, rfl⟩ := copyHeaders_eq_ok_iff.mp hrest
  have hinclude : r.includeDir.IsNormal := hdestination.below _
  have hchanged := Workspace.ChangedBelow.copyTree r.headers.text_ne_empty
    r.includeDir.text_ne_empty hopen.sound
  rw [hcopy, Path.ofString_text hinclude, Workspace.place_congr hcopied.here] at hchanged
  exact {
    copied := ⟨u.files, hcopied,
      fun m hm ↦ hchanged.elsewhere m (Apart.not_suffix ⟨hheaders.2, hheaders.1⟩ hm)⟩
    library := hopen.of_changedBelow hchanged
    listed := rfl }

namespace ArchivesLeft

/-- The last archive of each name is where it lands. -/
theorem find?_landing (h : ArchivesLeft r w v installed)
    (hlast : lastNamed (r.collection w) name = some archive) :
    v.tree.find? (landing (r.laidView w) (w.place (libraryDirectory r.destination)) name) =
      w.tree.find? (w.place archive) := by
  obtain ⟨u, hcopied, hsame⟩ := h.copied
  rw [hsame _ (suffix_landing _ _ _), hcopied.copied name archive hlast]

/-- Archives with different names are kept where no directory is. -/
theorem content?_of_nodup (h : ArchivesLeft r w v installed) (hw : w.Sound)
    (hnodup : ((r.collection w).map Path.name).Nodup)
    (hfree : ∀ archive ∈ r.collection w,
      r.laidView w (archive.name :: w.place (libraryDirectory r.destination)) ≠ some .directory)
    (harchive : archive ∈ r.collection w) :
    v.content? ((libraryDirectory r.destination).entry archive.name) = some bytes ↔
      w.tree.find? (w.place archive) = some (.file bytes) := by
  have hfound := h.find?_landing (lastNamed_of_nodup hnodup harchive)
  rw [landing, if_neg (hfree archive harchive)] at hfound
  rw [h.library.content?_entry (isName_of_mem_collection hw harchive), hfound]

/-- When all archives have different names and no directory is where one of them goes, none is
lost. -/
theorem keepsArchives (h : ArchivesLeft r w v installed) (hw : w.Sound)
    (hnodup : ((r.collection w).map Path.name).Nodup)
    (hfree : ∀ archive ∈ r.collection w,
      r.laidView w (archive.name :: w.place (libraryDirectory r.destination)) ≠ some .directory) :
    KeepsArchives r w v installed where
  kept sub hsub name hname bytes hcontent := by
    obtain ⟨hmem, hfile⟩ := mem_collection_of_content? hsub hname hcontent
    have hkept := (h.content?_of_nodup hw hnodup hfree hmem).mpr hfile
    rwa [Path.name_entry] at hkept
  distinct := by
    rw [h.listed]
    refine List.Nodup.map_on (fun archive harchive other hother heq ↦ ?_) hnodup.of_map
    exact List.inj_on_of_nodup_map hnodup harchive hother (Path.entry_inj.mp heq)
  regular := by
    intro target htarget
    rw [h.listed] at htarget
    obtain ⟨archive, harchive, rfl⟩ := List.mem_map.mp htarget
    obtain ⟨u, hcopied, _⟩ := h.copied
    obtain ⟨bytes, hfile⟩ := hcopied.file archive harchive
    exact ⟨bytes, (h.content?_of_nodup hw hnodup hfree harchive).mpr hfile⟩
  counted := by
    rw [h.listed, (nodup_places (fun _ ↦ isName_of_mem_collection hw) hnodup).dedup,
      List.length_map, List.length_map]

/-- When the archives listed are different files, all archives have different names, and no
directory is where one of them goes. -/
theorem nodup_of_keepsArchives (h : ArchivesLeft r w v installed) (hw : w.Sound)
    (hkeeps : KeepsArchives r w v installed) :
    ((r.collection w).map Path.name).Nodup ∧ ∀ archive ∈ r.collection w,
      r.laidView w (archive.name :: w.place (libraryDirectory r.destination)) ≠
        some .directory := by
  constructor
  · have hdistinct := hkeeps.distinct
    rw [h.listed] at hdistinct
    refine List.Nodup.of_map (libraryDirectory r.destination).entry ?_
    rwa [List.map_map]
  · intro archive harchive hdirectory
    obtain ⟨u, hcopied, hsame⟩ := h.copied
    obtain ⟨bytes, hcontent⟩ := hkeeps.regular ((libraryDirectory r.destination).entry archive.name)
      (h.listed ▸ List.mem_map_of_mem harchive)
    rw [h.library.content?_entry (isName_of_mem_collection hw harchive),
      hsame _ (List.suffix_cons _ _),
      hcopied.elsewhere _ fun other _ ↦ landing_ne_of_directory hdirectory other.name,
      hdirectory] at hcontent
    cases hcontent

end ArchivesLeft

/-- An install that succeeded, with its headers beside the directory of installed archives, leaves
the last archive of each name there. It keeps all archives just if they have different names and no
directory was where one of them goes, once the directories were made. -/
theorem install_keepsArchives_iff (hs : s.files.Sound) (hdestination : r.destination.IsNormal)
    (hheaders : Apart (s.files.place r.includeDir)
      (s.files.place (libraryDirectory r.destination)))
    (h : perform (install r) around s = (.ok installed, t)) :
    (∀ name archive, lastNamed (r.collection s.files) name = some archive →
      t.files.tree.find? (landing (r.laidView s.files)
        (s.files.place (libraryDirectory r.destination)) name) =
          s.files.tree.find? (s.files.place archive)) ∧
    (KeepsArchives r s.files t.files installed ↔
      ((r.collection s.files).map Path.name).Nodup ∧
        ∀ archive ∈ r.collection s.files, r.laidView s.files
          (archive.name :: s.files.place (libraryDirectory r.destination)) ≠
            some .directory) := by
  have hleft := archivesLeft_of_install hs hdestination hheaders h
  exact ⟨fun _ _ hlast ↦ hleft.find?_landing hlast, hleft.nodup_of_keepsArchives hs,
    fun ⟨hnodup, hfree⟩ ↦ hleft.keepsArchives hs hnodup hfree⟩

end Keeping

/-- Sample files with archives of different names, of which one is there from an older install. -/
def sampleDistinct : Workspace :=
  [("src/include/lib.h", ""), ("build/crypto/crypto.a", "one"), ("build/ssl/ssl.a", "two"),
    ("out/lib/crypto.a", "old"), ("out/lib/other.a", "")].foldl
    (fun w file ↦ w.plant (.ofString file.1) (.file (Text.Utf8.encode file.2))) ⟨.empty, []⟩

/-- A sample install keeps all archives. -/
theorem install_sample_keepsArchives : ∃ installed t,
    perform (install sampleInstall) sampleSurroundings (sampleSession sampleDistinct) =
      (.ok installed, t) ∧ KeepsArchives sampleInstall sampleDistinct t.files installed := by
  have hgiven : (perform (install sampleInstall) sampleSurroundings
      (sampleSession sampleDistinct)).1.toOption.any (fun _ ↦ true) = true := by
    decide +kernel
  obtain ⟨installed, t, h, _⟩ := exists_of_any_toOption hgiven
  have hkeeps := (install_keepsArchives_iff
    (Workspace.sound_of_entries (by decide +kernel) (by decide +kernel))
    (Path.isNormal_ofString _) (by decide +kernel) h).2
  exact ⟨installed, t, h, hkeeps.mpr ⟨by decide +kernel, by decide +kernel⟩⟩

/-- An install of two archives of one name goes well, and loses the first of them. -/
theorem install_sample_loses_archive : ∃ installed t,
    perform (install sampleInstall) sampleSurroundings (sampleSession sampleInstalled) =
      (.ok installed, t) ∧ ¬KeepsArchives sampleInstall sampleInstalled t.files installed := by
  have hgiven : (perform (install sampleInstall) sampleSurroundings
      (sampleSession sampleInstalled)).1.toOption.any (fun _ ↦ true) = true := by
    decide +kernel
  have hlost : (perform (install sampleInstall) sampleSurroundings
      (sampleSession sampleInstalled)).2.files.content? (.ofString "out/lib/lib.a") ≠
        some (Text.Utf8.encode "one") := by
    decide +kernel
  have hsource : sampleInstalled.content? (.ofString "build/crypto/lib.a") =
      some (Text.Utf8.encode "one") := by
    decide +kernel
  obtain ⟨installed, t, h, _⟩ := exists_of_any_toOption hgiven
  rw [h] at hlost
  exact ⟨installed, t, h, fun hkeeps ↦
    hlost (hkeeps.kept "crypto" (by decide) "lib.a" (by decide) _ hsource)⟩

end Vendoring.Build
