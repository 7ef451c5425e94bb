import Vendoring.Proofs.Build.InstallHalves

/-!
# Where copies land

A copy of an archive lands at its name in the directory of installed archives; if a directory is
there, then at its name in that. Archives of one name land at one place, where the last of them
stays, and no copy lands anywhere else. An archive that is its own target would be refused, so that
no archive is replaced before it is copied.
-/

namespace Vendoring.Build

open Vendoring.Files
open Vendoring.Action

variable {around : Surroundings} {s t : Session} {w v : Workspace} {directory archive : Path}
  {archives targets : List Path} {l m : Location} {name other : String} {view : View}

/-- Where a copy lands in a directory: at its name, or at its name in the directory that is
there. -/
def landing (view : View) (l : Location) (name : String) : Location :=
  if view (name :: l) = some .directory then name :: name :: l else name :: l

/-- A place where copies land has their name. -/
theorem exists_landing_eq (view : View) (l : Location) (name : String) :
    ∃ k, landing view l name = name :: k := by
  unfold landing
  split
  · exact ⟨_, rfl⟩
  · exact ⟨_, rfl⟩

/-- Copies land at one place only if they have one name. -/
theorem landing_inj (h : landing view l name = landing view l other) : name = other := by
  obtain ⟨k, hk⟩ := exists_landing_eq view l name
  obtain ⟨k', hk'⟩ := exists_landing_eq view l other
  rw [hk, hk'] at h
  exact (List.cons.inj h).1

/-- An archive has its name where it is. -/
theorem exists_place_eq (w : Workspace) (hname : IsName archive.name) :
    ∃ k, w.place archive = archive.name :: k := by
  have hparts : archive.parts ≠ [] := by
    intro hnil
    exact hname.ne_empty (by rw [Path.name, hnil]; rfl)
  refine ⟨w.place archive.parent, ?_⟩
  conv_lhs => rw [← Path.entry_parent hparts]
  exact w.place_entry _ hname.ne_dots

/-- The last of some archives that has a name. -/
def lastNamed (archives : List Path) (name : String) : Option Path :=
  archives.reverse.find? fun archive ↦ archive.name = name

/-- The last archive of a name has it. -/
theorem mem_of_lastNamed (h : lastNamed archives name = some archive) :
    archive ∈ archives ∧ archive.name = name :=
  ⟨List.mem_reverse.mp (List.mem_of_find?_eq_some h), by simpa using List.find?_some h⟩

/-- There is a last archive of the name of each. -/
theorem exists_lastNamed (h : archive ∈ archives) :
    ∃ last, lastNamed archives archive.name = some last := by
  cases hlast : lastNamed archives archive.name with
  | some last => exact ⟨last, rfl⟩
  | none => simpa using List.find?_eq_none.mp hlast archive (List.mem_reverse.mpr h)

/-- The last archive of a name is the last of the later ones, or the first if no later one has the
name. -/
theorem lastNamed_cons (archive : Path) (archives : List Path) (name : String) :
    lastNamed (archive :: archives) name =
      (lastNamed archives name).or (if archive.name = name then some archive else none) := by
  unfold lastNamed
  rw [List.reverse_cons, List.find?_append]
  by_cases hname : archive.name = name
  · simp [hname]
  · simp [hname]

/-! ### One copy -/

/-- A copy into an open directory is written to where it lands. -/
theorem Opens.resolve_written (hw : Opens w directory l) (hname : IsName archive.name) :
    w.resolve (w.written (.ofPath archive) (.ofPath (directory.entry archive.name))).path =
      .ok (landing w.tree.find? l archive.name) := by
  have hlead := Workspace.resolve_entry_of_resolve hw.lead hw.there hname
  unfold landing
  split
  · next hthere =>
      rw [Workspace.path_written_of_isDirectory (hw.normal.entry hname.toIsPart) hname.toIsPart
        ((hw.isDirectory_entry hname).mpr hthere)]
      exact Workspace.resolve_entry_of_resolve hlead hthere hname
  · next hno =>
      rw [Workspace.written_of_not_isDirectory
        (Bool.eq_false_iff.mpr (mt (hw.isDirectory_entry hname).mp hno))]
      exact hlead

/-- An archive that was copied into an open directory was a file, and was put where it lands: this
is another place, without a directory. -/
theorem Opens.copyFile_eq_ok (hw : Opens w directory l) (hname : IsName archive.name)
    (h : Attempt.perform (Workspace.copyFile (.ofPath archive)
      (.ofPath (directory.entry archive.name))) w = (.ok (), v)) :
    ∃ bytes, w.tree.find? (w.place archive) = some (.file bytes) ∧
      w.tree.find? (landing w.tree.find? l archive.name) ≠ some .directory ∧
      w.place archive ≠ landing w.tree.find? l archive.name ∧
      v = { w with tree := w.tree.put (landing w.tree.find? l archive.name) (.file bytes) } := by
  obtain ⟨bytes, k, m, hk, hfile, hm, hfree, hne, rfl⟩ := Workspace.copyFile_eq_ok_iff.mp h
  obtain rfl := Except.ok.inj ((hw.resolve_written hname).symm.trans hm)
  obtain rfl : w.place archive = k := Workspace.place_of_resolve hk
  exact ⟨bytes, hfile, hfree, hne, rfl⟩

/-- Copies go on to land where they did when a file is put where no directory is. -/
theorem landing_put {bytes : List UInt8} (hfree : w.tree.find? m ≠ some .directory) :
    landing (w.tree.put m (.file bytes)).find? l name = landing w.tree.find? l name := by
  have hsame : (w.tree.put m (.file bytes)).find? (name :: l) = some .directory ↔
      w.tree.find? (name :: l) = some .directory := by
    rw [Tree.find?_put _ (Workspace.ne_nil_of_find?_ne hfree)]
    split
    · next hm => simp [hm, hfree]
    · rfl
  unfold landing
  rw [if_congr hsame rfl rfl]

/-! ### All copies -/

/-- What copying archives into a directory does to a workspace: each was a file, and is not where it
lands; the last of each name is where it lands; and everything else is as it was. -/
structure CopiedInto (l : Location) (archives : List Path) (w v : Workspace) : Prop where
  here : v.here = w.here
  file : ∀ archive ∈ archives, ∃ bytes, w.tree.find? (w.place archive) = some (.file bytes)
  apart : ∀ archive ∈ archives, w.place archive ≠ landing w.tree.find? l archive.name
  landed : ∀ name archive, lastNamed archives name = some archive →
    v.tree.find? (landing w.tree.find? l name) = w.tree.find? (w.place archive)
  elsewhere : ∀ m, (∀ archive ∈ archives, landing w.tree.find? l archive.name ≠ m) →
    v.tree.find? m = w.tree.find? m

/-- Copying no archive does nothing. -/
theorem CopiedInto.nil (l : Location) (w : Workspace) : CopiedInto l [] w w where
  here := rfl
  file := nofun
  apart := nofun
  landed := nofun
  elsewhere _ _ := rfl

/-- An archive is copied and then others are. -/
theorem CopiedInto.cons {bytes : List UInt8}
    (hnames : ∀ other ∈ archives, IsName other.name)
    (hfile : w.tree.find? (w.place archive) = some (.file bytes))
    (hfree : w.tree.find? (landing w.tree.find? l archive.name) ≠ some .directory)
    (hapart : w.place archive ≠ landing w.tree.find? l archive.name)
    (h : CopiedInto l archives
      { w with tree := w.tree.put (landing w.tree.find? l archive.name) (.file bytes) } v) :
    CopiedInto l (archive :: archives) w v := by
  have hput := Tree.find?_put w.tree (Workspace.ne_nil_of_find?_ne hfree)
  -- A later archive is not where the first one lands: it would land there itself.
  have hother : ∀ other ∈ archives, w.place other ≠ landing w.tree.find? l archive.name := by
    intro other hmem heq
    obtain ⟨k, hk⟩ := exists_place_eq w (hnames other hmem)
    obtain ⟨k', hk'⟩ := exists_landing_eq w.tree.find? l archive.name
    obtain ⟨hname, _⟩ := List.cons.inj (hk.symm.trans (heq.trans hk'))
    refine h.apart other hmem ?_
    rw [landing_put hfree, hname]
    exact heq
  have hsame : ∀ other ∈ archives,
      (w.tree.put (landing w.tree.find? l archive.name) (.file bytes)).find? (w.place other) =
        w.tree.find? (w.place other) :=
    fun other hmem ↦ Tree.find?_put_of_ne _ (hother other hmem) _
  refine ⟨h.here, ?_, ?_, ?_, ?_⟩
  · intro other hmem
    rcases List.mem_cons.mp hmem with rfl | hmem
    · exact ⟨bytes, hfile⟩
    · obtain ⟨bytes', hfile'⟩ := h.file other hmem
      exact ⟨bytes', (hsame other hmem).symm.trans hfile'⟩
  · intro other hmem
    rcases List.mem_cons.mp hmem with rfl | hmem
    · exact hapart
    · have hlater := h.apart other hmem
      rwa [landing_put hfree] at hlater
  · intro name last hlast
    rw [lastNamed_cons] at hlast
    cases hlater : lastNamed archives name with
    | some other =>
        rw [hlater] at hlast
        cases hlast
        have hlanded := h.landed name last hlater
        rw [landing_put hfree] at hlanded
        exact hlanded.trans (hsame last (mem_of_lastNamed hlater).1)
    | none =>
        rw [hlater] at hlast
        obtain ⟨rfl, rfl⟩ : archive.name = name ∧ archive = last := by simpa using hlast
        have hnone : ∀ other ∈ archives, other.name ≠ archive.name := fun other hmem ↦ by
          simpa using List.find?_eq_none.mp hlater other (List.mem_reverse.mpr hmem)
        rw [h.elsewhere _ fun other hmem heq ↦ ?_, hfile]
        · exact Tree.find?_put_self _ (Workspace.ne_nil_of_find?_ne hfree) _
        · rw [landing_put hfree] at heq
          exact hnone other hmem (landing_inj heq)
  · intro m hm
    rw [h.elsewhere m fun other hmem ↦ ?_]
    · exact Tree.find?_put_of_ne _ (hm archive List.mem_cons_self).symm _
    · rw [landing_put hfree]
      exact hm other (List.mem_cons_of_mem _ hmem)

/-- Archives that were installed in turn are given by their names, and were copied. Nothing but the
files of the session is changed, and the directory is still open. -/
theorem copiedInto_mapM_installArchive (hw : Opens s.files directory l)
    (hnames : ∀ archive ∈ archives, IsName archive.name)
    (h : perform (archives.mapM (installArchive directory)) around s = (.ok targets, t)) :
    CopiedInto l archives s.files t.files ∧ Opens t.files directory l ∧
      targets = archives.map (fun archive ↦ directory.entry archive.name) ∧
      t = { s with files := t.files } := by
  induction archives generalizing s targets with
  | nil =>
      cases h
      exact ⟨.nil l _, hw, rfl, rfl⟩
  | cons archive archives ih =>
      obtain ⟨target, u, rest, hfirst, hrest, rfl⟩ := perform_mapM_cons_eq_ok.mp h
      obtain ⟨files, hcopied, rfl, rfl⟩ := installArchive_eq_ok_iff.mp hfirst
      have hname := hnames archive List.mem_cons_self
      have hothers : ∀ other ∈ archives, IsName other.name :=
        fun other hmem ↦ hnames other (List.mem_cons_of_mem _ hmem)
      have hchanged := hw.changedBelow_copyFile hname
      rw [hcopied] at hchanged
      obtain ⟨hall, hopen, rfl, ht⟩ := ih (hw.of_changedBelow hchanged) hothers hrest
      obtain ⟨bytes, hfile, hfree, hapart, rfl⟩ := hw.copyFile_eq_ok hname hcopied
      exact ⟨.cons hothers hfile hfree hapart hall, hopen, rfl, ht⟩

/-! ### All copies of an install -/

/-- What copying archives for an install does to a workspace: making the directories adds some where
nothing was; each archive that is found was a file; the last of each name is where it lands; and
everything else is as it was when the directories were made. -/
structure ArchivesCopied (r : InstallRequest) (w v : Workspace) : Prop where
  here : v.here = w.here
  laid : ∀ m, r.laidView w m = w.tree.find? m ∨
    r.Makes w m ∧ r.laidView w m = some .directory
  file : ∀ archive ∈ r.collection w, ∃ bytes, w.tree.find? (w.place archive) = some (.file bytes)
  copied : ∀ name archive, lastNamed (r.collection w) name = some archive →
    v.tree.find? (landing (r.laidView w) (w.place (libraryDirectory r.destination)) name) =
      w.tree.find? (w.place archive)
  elsewhere : ∀ m, (∀ archive ∈ r.collection w,
      landing (r.laidView w) (w.place (libraryDirectory r.destination)) archive.name ≠ m) →
    v.tree.find? m = r.laidView w m

/-- Archives that were copied for an install are in place, and each is given by its name in the
directory of installed archives, which is open. -/
theorem archivesCopied_of_copyArchives {r : InstallRequest} (hs : s.files.Sound)
    (hdestination : r.destination.IsNormal)
    (h : perform (copyArchives r) around s = (.ok targets, t)) :
    ArchivesCopied r s.files t.files ∧
      Opens t.files (libraryDirectory r.destination)
        (s.files.place (libraryDirectory r.destination)) ∧
      targets = (r.collection s.files).map (fun archive ↦
        (libraryDirectory r.destination).entry archive.name) ∧
      t = { s with files := t.files } := by
  obtain ⟨_, laid, archives, hlayout, hfound, hcopied⟩ := copyArchives_eq_ok_iff.mp h
  have hopen := opens_layOut hs hdestination hlayout
  have hhere := here_layOut hlayout
  have hview := find?_layOut hlayout
  have hadded := addsOnly_layOut r s.files
  rw [hlayout] at hadded
  have hnames : ∀ archive ∈ archives, IsName archive.name := by
    intro archive hmem
    obtain ⟨sub, _, hin⟩ := exists_of_mem_collectArchives hfound hmem
    obtain ⟨name, hname, rfl⟩ := exists_of_mem_archivesIn hopen.sound hin
    rwa [Path.name_entry]
  obtain ⟨hall, hopen', rfl, ht⟩ := copiedInto_mapM_installArchive (s := { s with files := laid })
    hopen hnames hcopied
  obtain rfl := collectArchives_eq_collection hview hhere hopen.sound hfound hall.file
  -- A file is not among the directories that were made.
  have hsame : ∀ archive ∈ r.collection s.files,
      laid.tree.find? (laid.place archive) = s.files.tree.find? (s.files.place archive) := by
    intro archive hmem
    obtain ⟨bytes, hfile⟩ := hall.file archive hmem
    rw [← Workspace.place_congr hhere]
    refine (hadded.place _).resolve_right ?_
    rintro ⟨_, _, hdirectory⟩
    cases hfile.symm.trans hdirectory
  have hlanded := hall.landed
  have helsewhere := hall.elsewhere
  dsimp only at hlanded helsewhere
  rw [hview] at hlanded helsewhere
  refine ⟨⟨hall.here.trans hhere, fun m ↦ ?_, fun archive hmem ↦ ?_, fun name archive hlast ↦ ?_,
    helsewhere⟩, hopen', rfl, ht⟩
  · rw [← hview]
    exact (hadded.place m).imp id fun ⟨hnew, _, hdirectory⟩ ↦ ⟨hnew, hdirectory⟩
  · rw [← hsame archive hmem]
    exact hall.file archive hmem
  · rw [hlanded name archive hlast, ← hview]
    exact hsame archive (mem_of_lastNamed hlast).1

end Vendoring.Build
