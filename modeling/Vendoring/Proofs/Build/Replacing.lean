import Vendoring.Proofs.Build.Footprint
import Vendoring.Proofs.Files.Overlay

/-!
# What an install replaces

An install that succeeds puts every archive into the directory of installed archives, under its
name: the last archive of a name replaces a file that was there, and goes into a directory that was
there. All else in this directory stays as it was, so what it holds afterwards by each name can be
told from what was there and from the archives.
-/

namespace Vendoring.Build

open Vendoring.Files
open Vendoring.Action

/-! ### Copying archives -/

/-- A directory is open at a place: a path in normal form leads to it in a sound workspace. -/
structure Opens (w : Workspace) (directory : Path) (l : Location) : Prop where
  sound : w.Sound
  normal : directory.IsNormal
  lead : w.resolve directory = .ok l
  there : w.tree.find? l = some .directory

section Copies

variable {w v : Workspace} {directory archive : Path} {archives : List Path} {l root : Location}
  {name : String}

/-- A directory stays open when something below a place is changed. -/
theorem Opens.of_changedBelow (h : Opens w directory l)
    (hchanged : Workspace.ChangedBelow root w v) : Opens v directory l where
  sound := hchanged.sound
  normal := h.normal
  lead := hchanged.keeps.resolve h.lead
  there := hchanged.keeps.directory l h.there

/-- An entry of an open directory leads to a directory exactly when one is at its place. -/
theorem Opens.isDirectory_entry (h : Opens w directory l) (hname : IsName name) :
    w.isDirectory (directory.entry name) = true ↔
      w.tree.find? (name :: l) = some .directory :=
  Workspace.isDirectory_iff_of_resolve
    (Workspace.resolve_entry_of_resolve h.lead h.there hname)

/-- Copying an archive into an open directory changes nothing but what is there by its name. -/
theorem Opens.changedBelow_copyFile (hw : Opens w directory l) (hname : IsName archive.name) :
    Workspace.ChangedBelow (archive.name :: l) w
      (Attempt.perform (Workspace.copyFile (.ofPath archive)
        (.ofPath (directory.entry archive.name))) w).2 := by
  have hnormal := hw.normal.entry hname.toIsPart
  have hplace : w.place (directory.entry archive.name) = archive.name :: l := by
    rw [Workspace.place_entry w _ hname.ne_dots, Workspace.place_of_resolve hw.lead]
  exact Workspace.ChangedBelow.copyFile hname (.ofPath hnormal (hplace ▸ List.suffix_rfl)) w
    (.refl _ hw.sound)

/-- An archive that was copied into an open directory was a file, and it is there by its name unless
a directory was. -/
theorem Opens.find?_copyFile (hw : Opens w directory l) (hname : IsName archive.name)
    (h : Attempt.perform (Workspace.copyFile (.ofPath archive)
      (.ofPath (directory.entry archive.name))) w = (.ok (), v)) :
    (∃ bytes, w.tree.find? (w.place archive) = some (.file bytes)) ∧
    (w.tree.find? (archive.name :: l) ≠ some .directory →
      v.tree.find? (archive.name :: l) = w.tree.find? (w.place archive)) := by
  obtain ⟨bytes, hcontent, hwritten⟩ := Workspace.exists_writeFile_of_copyFile h
  obtain ⟨k, hlead, hfile⟩ := Workspace.content?_eq_some.mp hcontent
  have hk : w.place archive = k := Workspace.place_of_resolve hlead
  rw [hk, hfile]
  refine ⟨⟨bytes, rfl⟩, fun hfree ↦ ?_⟩
  have hno : w.isDirectory (directory.entry archive.name) = false :=
    Bool.eq_false_iff.mpr fun hthere ↦ hfree ((hw.isDirectory_entry hname).mp hthere)
  obtain ⟨m, hm, _, rfl⟩ := Workspace.writeFile_eq_ok_iff.mp (hwritten hno)
  cases (Workspace.resolve_entry_of_resolve hw.lead hw.there hname).symm.trans hm
  exact Tree.find?_put_self _ (List.cons_ne_nil _ _) _

/-! ### Copying all archives -/

/-- An entry of a directory is not at or below another entry of it. -/
theorem not_suffix_cons {first second : String} (h : first ≠ second) :
    ¬first :: l <:+ second :: l := by
  intro hsuffix
  have hsame := hsuffix.eq_of_length_le (Nat.le_refl _)
  exact h (List.cons.inj hsame).1

/-- What a directory holds by a name after archives were copied into it. -/
def entryAfter (w : Workspace) (l : Location) (archives : List Path) (name : String) :
    Option Entry :=
  if w.tree.find? (name :: l) = some .directory then some .directory
  else match archives.reverse.find? fun archive ↦ archive.name = name with
    | some archive => w.tree.find? (w.place archive)
    | none => w.tree.find? (name :: l)

/-- What a directory holds by a name after archives were copied is a directory that was there, or an
archive of the name, or what was there when no archive has the name. -/
theorem entryAfter_cases (w : Workspace) (l : Location) (archives : List Path) (name : String) :
    (w.tree.find? (name :: l) = some .directory ∧
      entryAfter w l archives name = some .directory) ∨
    (∃ archive ∈ archives, archive.name = name ∧
      entryAfter w l archives name = w.tree.find? (w.place archive)) ∨
    ((∀ archive ∈ archives, archive.name ≠ name) ∧
      entryAfter w l archives name = w.tree.find? (name :: l)) := by
  unfold entryAfter
  by_cases hdirectory : w.tree.find? (name :: l) = some .directory
  · exact .inl ⟨hdirectory, if_pos hdirectory⟩
  rw [if_neg hdirectory]
  cases hlast : archives.reverse.find? fun archive ↦ archive.name = name with
  | some archive =>
      refine .inr (.inl ⟨archive, ?_, ?_, rfl⟩)
      · exact List.mem_reverse.mp (List.mem_of_find?_eq_some hlast)
      · simpa using List.find?_some hlast
  | none =>
      refine .inr (.inr ⟨fun archive harchive ↦ ?_, rfl⟩)
      simpa using List.find?_eq_none.mp hlast archive (List.mem_reverse.mpr harchive)

/-- What a directory holds by a name after the same archives were copied in two workspaces is the
same, if it was the same before or if an archive of the name replaced what was there in both. -/
theorem entryAfter_congr (harchives : ∀ archive ∈ archives,
      v.tree.find? (v.place archive) = w.tree.find? (w.place archive))
    (hname : v.tree.find? (name :: l) = w.tree.find? (name :: l) ∨
      (∃ archive ∈ archives, archive.name = name) ∧
        w.tree.find? (name :: l) ≠ some .directory ∧
        v.tree.find? (name :: l) ≠ some .directory) :
    entryAfter v l archives name = entryAfter w l archives name := by
  have hlast : ∀ archive, (archives.reverse.find? fun archive ↦ archive.name = name) =
      some archive → v.tree.find? (v.place archive) = w.tree.find? (w.place archive) :=
    fun archive hfound ↦
      harchives archive (List.mem_reverse.mp (List.mem_of_find?_eq_some hfound))
  unfold entryAfter
  rcases hname with hsame | ⟨⟨archive, harchive, hisName⟩, hw, hv⟩
  · rw [hsame]
    split
    · rfl
    · split
      · next hfound => exact hlast _ hfound
      · rfl
  · rw [if_neg hw, if_neg hv]
    split
    · next hfound => exact hlast _ hfound
    · next hnone =>
        have hother := List.find?_eq_none.mp hnone archive (List.mem_reverse.mpr harchive)
        simp [hisName] at hother

/-- What a directory holds after the first archive was copied and then the others is what it holds
after all were copied. -/
theorem entryAfter_cons
    (hchanged : Workspace.ChangedBelow (archive.name :: l) w v)
    (hfound : w.tree.find? (archive.name :: l) ≠ some .directory →
      v.tree.find? (archive.name :: l) = w.tree.find? (w.place archive))
    (hfile : ∃ bytes, w.tree.find? (w.place archive) = some (.file bytes))
    (houtside : ∀ other ∈ archives, ¬l <:+ w.place other) (name : String) :
    entryAfter v l archives name = entryAfter w l (archive :: archives) name := by
  have hothers : ∀ other ∈ archives,
      v.tree.find? (v.place other) = w.tree.find? (w.place other) := by
    intro other hother
    rw [Workspace.place_congr hchanged.keeps.here]
    apply hchanged.elsewhere
    exact fun hsuffix ↦ houtside other hother ((List.suffix_cons _ _).trans hsuffix)
  have helsewhere (hname : archive.name ≠ name) :
      v.tree.find? (name :: l) = w.tree.find? (name :: l) :=
    hchanged.elsewhere _ (not_suffix_cons hname)
  have hdirectory : v.tree.find? (name :: l) = some .directory ↔
      w.tree.find? (name :: l) = some .directory := by
    by_cases hname : archive.name = name
    · subst hname
      refine ⟨fun hv ↦ ?_, hchanged.keeps.directory _⟩
      by_cases hw : w.tree.find? (archive.name :: l) = some .directory
      · exact hw
      · obtain ⟨bytes, hbytes⟩ := hfile
        rw [hfound hw, hbytes] at hv
        cases hv
    · rw [helsewhere hname]
  unfold entryAfter
  by_cases hw : w.tree.find? (name :: l) = some .directory
  · rw [if_pos hw, if_pos (hdirectory.mpr hw)]
  rw [if_neg hw, if_neg (mt hdirectory.mp hw), List.reverse_cons, List.find?_append]
  -- The first archive counts only when no later one has the name.
  cases hlast : archives.reverse.find? fun other ↦ other.name = name with
  | some other => exact hothers other (List.mem_reverse.mp (List.mem_of_find?_eq_some hlast))
  | none =>
      by_cases hname : archive.name = name
      · subst hname
        simpa using hfound hw
      · simpa [hname] using helsewhere hname

/-- An archive that was installed was copied. -/
theorem perform_copyFile_of_installArchive {around : Surroundings} {s t : Session} {target : Path}
    (h : perform (installArchive directory archive) around s = (.ok target, t)) :
    Attempt.perform (Workspace.copyFile (.ofPath archive)
      (.ofPath (directory.entry archive.name))) s.files = (.ok (), t.files) := by
  obtain ⟨_, u, hcopy, hdone⟩ := perform_bind_eq_ok.mp h
  obtain ⟨files, hcopied, hu⟩ := perform_onFilesElse_eq_ok.mp hcopy
  cases hdone
  rw [hu]
  exact hcopied

/-- Archives from outside of an open directory that were installed into it were files. They have
changed nothing outside of the directory, and what it holds by a name is what it should hold after
they were copied. -/
theorem changedBelow_mapM_installArchive {around : Surroundings} {s t : Session}
    {targets : List Path} (hw : Opens s.files directory l)
    (hnames : ∀ archive ∈ archives, IsName archive.name)
    (houtside : ∀ archive ∈ archives, ¬l <:+ s.files.place archive)
    (h : perform (archives.mapM (installArchive directory)) around s = (.ok targets, t)) :
    Workspace.ChangedBelow l s.files t.files ∧
    (∀ name, t.files.tree.find? (name :: l) = entryAfter s.files l archives name) ∧
    ∀ archive ∈ archives, ∃ bytes,
      s.files.tree.find? (s.files.place archive) = some (.file bytes) := by
  induction archives generalizing s targets with
  | nil =>
      cases h
      refine ⟨.refl l hw.sound, fun name ↦ ?_, nofun⟩
      unfold entryAfter
      split
      · next hdirectory => exact hdirectory
      · rfl
  | cons archive archives ih =>
      obtain ⟨target, u, rest, hfirst, hrest, rfl⟩ := perform_mapM_cons_eq_ok.mp h
      have hname := hnames archive List.mem_cons_self
      have hcopy := perform_copyFile_of_installArchive hfirst
      have hchanged := hw.changedBelow_copyFile hname
      rw [hcopy] at hchanged
      obtain ⟨hfile, hfound⟩ := hw.find?_copyFile hname hcopy
      have houtside' : ∀ other ∈ archives, ¬l <:+ s.files.place other :=
        fun other hother ↦ houtside other (List.mem_cons_of_mem _ hother)
      -- The archives that are still to be copied are where they were.
      have hplaces : ∀ other, u.files.place other = s.files.place other :=
        fun other ↦ Workspace.place_congr hchanged.keeps.here other
      obtain ⟨hlater, hheld, hfiles⟩ := ih (hw.of_changedBelow hchanged)
        (fun other hother ↦ hnames other (List.mem_cons_of_mem _ hother))
        (fun other hother ↦ hplaces other ▸ houtside' other hother) hrest
      refine ⟨?_, fun name ↦ ?_, ?_⟩
      · refine ⟨hlater.sound, hchanged.keeps.trans hlater.keeps, fun k hk ↦ ?_⟩
        rw [hlater.elsewhere k hk]
        exact hchanged.elsewhere k fun hsuffix ↦ hk ((List.suffix_cons _ _).trans hsuffix)
      · rw [hheld]
        exact entryAfter_cons hchanged hfound hfile houtside' name
      · intro other hother
        rcases List.mem_cons.mp hother with rfl | hother
        · exact hfile
        · obtain ⟨bytes, hbytes⟩ := hfiles other hother
          refine ⟨bytes, ?_⟩
          rw [← hbytes, hplaces]
          refine (hchanged.elsewhere _ fun hsuffix ↦ ?_).symm
          exact houtside' other hother ((List.suffix_cons _ _).trans hsuffix)

end Copies

/-! ### Installing -/

/-- Make the directories of installed archives and programs. -/
def layOut (destination : Path) : Attempt FileError Unit := do
  Workspace.makeDirectories (libraryDirectory destination)
  Workspace.makeDirectories (programDirectory destination)

section Install

variable {r : InstallRequest} {around : Surroundings} {s t : Session} {installed : Installed}
  {w v : Workspace} {destination : Path}

/-- Making the directories leaves the current directory as it is. -/
theorem here_layOut (h : Attempt.perform (layOut destination) w = (.ok (), v)) :
    v.here = w.here := by
  have hkeeps : Attempt.KeepsHere (layOut destination) :=
    (Attempt.KeepsHere.makeDirectories _).bind fun _ ↦ .makeDirectories _
  have hleft := hkeeps w
  rw [h] at hleft
  exact hleft

/-- Once the directories are made, that of installed archives is open. -/
theorem opens_layOut (hw : w.Sound) (hdestination : destination.IsNormal)
    (h : Attempt.perform (layOut destination) w = (.ok (), v)) :
    Opens v (libraryDirectory destination) (w.place (libraryDirectory destination)) := by
  obtain ⟨_, u, hlibrary, hprograms⟩ := Attempt.perform_bind_eq_ok.mp h
  have hfirst := Workspace.MakesWay.makeDirectories (libraryDirectory destination) w
  have hsecond := Workspace.MakesWay.makeDirectories (programDirectory destination) u
  have hsound := hw.makeDirectories (p := libraryDirectory destination) (hdestination.below _)
  rw [hlibrary] at hfirst hsound
  have hsound' := hsound.makeDirectories (p := programDirectory destination) (hdestination.below _)
  rw [hprograms] at hsecond hsound'
  have hthere := hsecond.keepsDirectories.isDirectory
    (Workspace.isDirectory_of_makeDirectories hlibrary)
  obtain ⟨l, hlead, hl⟩ := Workspace.isDirectory_iff.mp hthere
  have hplace : w.place (libraryDirectory destination) = l := by
    rw [← Workspace.place_of_resolve hlead, Workspace.place_congr hsecond.here,
      Workspace.place_congr hfirst.here]
  exact hplace ▸ ⟨hsound', hdestination.below _, hlead, hl⟩

/-- An install that succeeded has made the directories, found the archives, copied them, and then
copied the header tree, which is there. -/
theorem parts_of_install (h : perform (install r) around s = (.ok installed, t)) :
    ∃ laid archives targets u, Attempt.perform (layOut r.destination) s.files = (.ok (), laid) ∧
      collectArchives laid r.build r.archiveSubdirs = .ok archives ∧
      perform (archives.mapM (installArchive (libraryDirectory r.destination))) around
        { s with files := laid } = (.ok targets, u) ∧
      u.files.isDirectory (r.source.below r.headerDir) = true ∧
      Attempt.perform (Workspace.copyTree (r.source.below r.headerDir).text
        (r.destination.below (r.source.below r.headerDir).name).text) u.files =
          (.ok (), t.files) ∧
      installed = ⟨r.destination, libraryDirectory r.destination, programDirectory r.destination,
        r.destination.below (r.source.below r.headerDir).name, targets⟩ := by
  obtain ⟨_, s₁, hchecked, hrest⟩ := perform_bind_eq_ok.mp h
  obtain ⟨_, rfl⟩ := perform_refusedAs_checkPath_eq_ok.mp hchecked
  obtain ⟨_, s₂, hlayout, hrest⟩ := perform_bind_eq_ok.mp hrest
  obtain ⟨laid, hlaid, rfl⟩ := perform_onFilesElse_eq_ok.mp hlayout
  obtain ⟨_, _, hget, hrest⟩ := perform_bind_eq_ok.mp hrest
  cases hget
  obtain ⟨archives, s₃, hcollected, hrest⟩ := perform_bind_eq_ok.mp hrest
  obtain ⟨hfound, rfl⟩ := perform_ofExcept_eq_ok.mp hcollected
  obtain ⟨targets, u, hcopied, hrest⟩ := perform_bind_eq_ok.mp hrest
  obtain ⟨_, s₄, htold, hrest⟩ := perform_bind_eq_ok.mp hrest
  have hfiles : s₄.files = u.files := (Within.say (F := .sameFiles) _).holds htold
  obtain ⟨headers, s₅, hlooked, hrest⟩ := perform_bind_eq_ok.mp hrest
  obtain ⟨hthere, hs₅⟩ := perform_lookUp_eq_ok.mp hlooked
  rw [hs₅] at hrest
  dsimp only at hrest
  split at hrest
  · obtain ⟨_, _, hthrow, _⟩ := perform_bind_eq_ok.mp hrest
    cases hthrow
  · next hheaders =>
      obtain ⟨_, s₆, hcopy, hdone⟩ := perform_bind_eq_ok.mp hrest
      obtain ⟨copied, hcopied', rfl⟩ := perform_onFilesElse_eq_ok.mp hcopy
      cases hdone
      rw [Classical.not_not.mp hheaders, hfiles] at hthere
      rw [hfiles] at hcopied'
      exact ⟨laid, archives, targets, u, hlaid, hfound, hcopied,
        Workspace.isDirectory_of_lookUp hthere, hcopied', rfl⟩

/-- The directory of installed archives is at its name in the destination. -/
theorem place_libraryDirectory (w : Workspace) (destination : Path) :
    w.place (libraryDirectory destination) = "lib" :: w.place destination := by
  rw [libraryDirectory_eq_entry]
  exact w.place_entry destination (by decide)

/-- An archive of a directory outside of that of installed archives is outside of it, too: that one
has no archive's name. -/
theorem not_suffix_archive (hplace : ¬w.place (libraryDirectory destination) <:+ l)
    {name : String} (hname : isArchiveName name = true) :
    ¬w.place (libraryDirectory destination) <:+ name :: l := by
  rw [place_libraryDirectory] at hplace ⊢
  intro hsuffix
  rcases List.suffix_cons_iff.mp hsuffix with heq | hbelow
  · obtain ⟨rfl, _⟩ := List.cons.inj heq
    revert hname
    decide
  · exact hplace hbelow

/-- The archives of a directory that is outside of that of installed archives are outside of it,
too, each under a name that an entry may have. -/
theorem isName_and_not_suffix_of_mem_archivesIn (hv : v.Sound) (hhere : v.here = w.here)
    {directory archive : Path}
    (hplace : ¬w.place (libraryDirectory destination) <:+ w.place directory)
    (harchive : archive ∈ archivesIn v directory) :
    IsName archive.name ∧ ¬w.place (libraryDirectory destination) <:+ v.place archive := by
  obtain ⟨name, hname, hisArchive, rfl⟩ := mem_archivesIn.mp harchive
  obtain ⟨k, e, _, _, hentry⟩ := Workspace.exists_of_mem_names hname
  have hisName := hv.named name k e hentry
  rw [Path.name_entry, v.place_entry _ hisName.ne_dots, Workspace.place_congr hhere]
  exact ⟨hisName, not_suffix_archive hplace hisArchive⟩

/-- An install takes no archives from the directory of installed archives, and its headers do not go
there, above or below. -/
structure InstallsBeside (r : InstallRequest) (w : Workspace) : Prop where
  build : r.build.IsNormal
  destination : r.destination.IsNormal
  collects : ∀ sub ∈ r.archiveSubdirs,
    ¬w.place (libraryDirectory r.destination) <:+ w.place (r.build.below sub)
  headers : Apart (w.place (r.destination.below (r.source.below r.headerDir).name))
    (w.place (libraryDirectory r.destination))

/-- The archives of an output directory are outside of the directory of installed archives, each
under a name that an entry may have. -/
theorem InstallsBeside.of_mem_archivesIn (h : InstallsBeside r w) (hv : v.Sound)
    (hhere : v.here = w.here) {sub : String} (hsub : sub ∈ r.archiveSubdirs) {archive : Path}
    (harchive : archive ∈ archivesIn v (r.build.below sub)) :
    IsName archive.name ∧ ¬w.place (libraryDirectory r.destination) <:+ v.place archive :=
  isName_and_not_suffix_of_mem_archivesIn hv hhere (h.collects sub hsub) harchive

/-- What an install that succeeded has left in the directory of installed archives, which is open
then: by each name, what should be there after the archives found were copied into the directory as
it was laid out. -/
theorem find?_install (hbeside : InstallsBeside r s.files) (hs : s.files.Sound)
    (h : perform (install r) around s = (.ok installed, t)) :
    ∃ laid archives, Attempt.perform (layOut r.destination) s.files = (.ok (), laid) ∧
      collectArchives laid r.build r.archiveSubdirs = .ok archives ∧
      Opens t.files (libraryDirectory r.destination)
        (s.files.place (libraryDirectory r.destination)) ∧
      (∀ archive ∈ archives, ∃ bytes,
        laid.tree.find? (laid.place archive) = some (.file bytes)) ∧
      ∀ name, t.files.tree.find? (name :: s.files.place (libraryDirectory r.destination)) =
        entryAfter laid (s.files.place (libraryDirectory r.destination)) archives name := by
  obtain ⟨laid, archives, targets, u, hlaid, hcollected, hcopied, _, hfiles, _⟩ :=
    parts_of_install h
  have hopen := opens_layOut hs hbeside.destination hlaid
  have hhere := here_layOut hlaid
  have hfrom : ∀ archive ∈ archives, IsName archive.name ∧
      ¬s.files.place (libraryDirectory r.destination) <:+ laid.place archive := by
    intro archive harchive
    obtain ⟨sub, hsub, hfound⟩ := exists_of_mem_collectArchives hcollected harchive
    exact hbeside.of_mem_archivesIn hopen.sound hhere hsub hfound
  obtain ⟨hchanged, hheld, hbytes⟩ := changedBelow_mapM_installArchive hopen
    (fun archive harchive ↦ (hfrom archive harchive).1)
    (fun archive harchive ↦ (hfrom archive harchive).2) hcopied
  -- The headers go beside the directory, so it is what the copies left.
  have hheaders := Workspace.ChangedBelow.copyTree
    (Path.text_ne_empty (r.source.below r.headerDir))
    (Path.text_ne_empty (r.destination.below (r.source.below r.headerDir).name)) hchanged.sound
  rw [hfiles, Path.ofString_text (hbeside.destination.below _),
    Workspace.place_congr (hchanged.keeps.here.trans hhere)] at hheaders
  have hopen' := (hopen.of_changedBelow hchanged).of_changedBelow hheaders
  refine ⟨laid, archives, hlaid, hcollected, hopen', hbytes, fun name ↦ ?_⟩
  rw [← hheld name]
  refine hheaders.elsewhere _ fun hsuffix ↦ ?_
  rcases List.suffix_cons_iff.mp hsuffix with heq | hbelow
  · apply hbeside.headers.2
    rw [heq]
    exact List.suffix_cons _ _
  · exact hbeside.headers.1 hbelow

end Install

end Vendoring.Build
