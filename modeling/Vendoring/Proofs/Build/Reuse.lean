import Vendoring.Proofs.Build.Isolation
import Vendoring.Proofs.Build.Leftovers
import Vendoring.Proofs.Build.Recording

/-!
# Builds into a directory in use

A scan reads every archive in the directory of installed archives, also those that a build did not
put there. So the record of a build tells of the archives that it installed and of those that stood
there before under other names, and of nothing else that the directory held: what is replaced has no
influence on it.
-/

namespace Vendoring.Build

open Vendoring.Text Vendoring.Files Vendoring.Tool Vendoring.Provenance Vendoring.Instrumentation
open Vendoring.Action

/-! ### What a build installs -/

section Definitions

variable (settings : Settings) (r : Request) (around : Surroundings) (s : Session)

/-- What a build asks to be installed. -/
def Request.installation : InstallRequest :=
  .ofSettings settings r.source r.build r.destination [] ""

/-- The files as they are when the archives are collected: the library is compiled, and the
directories of the install are made. -/
def filesLaidOut : Workspace :=
  (Attempt.perform (layOut r.destination)
    (perform (throughCompile settings r) around s).2.files).2

/-- The archives that are found in the output directories. -/
def builtArchives : List Path :=
  settings.archiveSubdirs.flatMap fun sub ↦
    archivesIn (filesLaidOut settings r around s) (r.build.below sub)

/-- A name is that of an archive that is installed. -/
def IsBuiltName (name : String) : Prop :=
  ∃ built ∈ builtArchives settings r around s, built.name = name

/-- What a build has installed: the directory of installed archives is open, and by each name it
holds what should be there after the archives found in the output directories were copied. -/
structure Installs (u : Workspace) : Prop where
  laid : Attempt.perform (layOut r.destination)
    (perform (throughCompile settings r) around s).2.files =
      (.ok (), filesLaidOut settings r around s)
  sound : (filesLaidOut settings r around s).Sound
  here : (filesLaidOut settings r around s).here = s.files.here
  stands : ∀ l, s.files.place (libraryDirectory r.destination) <:+ l →
    StandsAt s.files (filesLaidOut settings r around s) l
  outputs : ∀ sub ∈ settings.archiveSubdirs,
    (filesLaidOut settings r around s).isDirectory (r.build.below sub) = true
  opens : Opens u (libraryDirectory r.destination)
    (s.files.place (libraryDirectory r.destination))
  built : ∀ archive ∈ builtArchives settings r around s, ∃ bytes,
    (filesLaidOut settings r around s).tree.find?
      ((filesLaidOut settings r around s).place archive) = some (.file bytes)
  holds : ∀ name, u.tree.find? (name :: s.files.place (libraryDirectory r.destination)) =
    entryAfter (filesLaidOut settings r around s)
      (s.files.place (libraryDirectory r.destination)) (builtArchives settings r around s) name

/-- An archive is one that a build has installed: it is what an archive of its name was in an output
directory. -/
def IsInstalled (u : Workspace) (archive : Path) : Prop :=
  ∃ built ∈ builtArchives settings r around s, built.name = archive.name ∧
    u.find? archive = (filesLaidOut settings r around s).find? built

/-- An archive is left over from before a build: the build has installed none of its name, and it is
what was at its place. -/
def IsLeftover (u : Workspace) (archive : Path) : Prop :=
  ¬IsBuiltName settings r around s archive.name ∧
    u.find? archive = s.files.tree.find? (s.files.place archive)

/-- A record tells of the archives that are in the directory of installed archives after an install:
the claimer is among its tags exactly when the marker occurs in the listing of one of them that the
scan reaches. Of these archives, all but directories were installed or are left over, and every
archive that the build has to install is there by its name. -/
structure TellsOfArchives (u : Workspace) (m : Record) : Prop where
  claimer : .claimer ∈ m.instrumentation ↔
    ∃ archive ∈ reached settings around u (archivesIn u (libraryDirectory r.destination)),
      ∃ output errors, listed settings around u archive = .exited 0 output errors ∧
        Utf8.encode settings.claimerMarker <:+: output
  origin : ∀ archive ∈ archivesIn u (libraryDirectory r.destination),
    u.isDirectory archive = true ∨ IsInstalled settings r around s u archive ∨
      IsLeftover settings r around s u archive
  installed : ∀ name, IsBuiltName settings r around s name →
    (libraryDirectory r.destination).entry name ∈ archivesIn u (libraryDirectory r.destination)

end Definitions

variable {settings : Settings} {r : Request} {around : Surroundings} {s s' : Session}
  {result : Result} {u v w : Workspace}

/-- Whether an install keeps to its places depends on the current directory alone. -/
theorem InstallsBeside.congr {i : InstallRequest} (h : InstallsBeside i w)
    (hhere : v.here = w.here) : InstallsBeside i v where
  build := h.build
  destination := h.destination
  collects sub hsub := by
    rw [Workspace.place_congr hhere, Workspace.place_congr hhere]
    exact h.collects sub hsub
  headers := by
    rw [Workspace.place_congr hhere, Workspace.place_congr hhere]
    exact h.headers

/-- A build that was successful has compiled and then installed. -/
theorem Run.exists_installed (run : Run settings r around s result s')
    (hsuccess : result.success = true) :
    ∃ u v u' v' x installed,
      (u.files = s.files ∧ u.environment = s.environment ∧ u.builds = s.builds) ∧
      perform (compileStage settings r) around u = (.ok x, v) ∧
      v.files = run.afterCompile.files ∧ u'.files = run.afterCompile.files ∧
      perform (Build.install (r.installation settings)) around u' = (.ok installed, v') ∧
      v'.files = run.afterInstall.files := by
  obtain ⟨probe, _, _, _, _, hprobe, _⟩ := run.exists_handed hsuccess
  obtain ⟨_, _, _, _, hinstalled, _⟩ := Progress.ran_of_carried run.probe hprobe
  obtain ⟨_, _, u', v', hcompiled, _, hbefore', hafter', hinstall⟩ :=
    Progress.ran_of_carried run.install hinstalled
  obtain ⟨_, _, u, v, _, _, hbefore, hafter, hcompile⟩ :=
    Progress.ran_of_carried run.compile hcompiled
  obtain ⟨installed, v'', hdone, hgiven⟩ := perform_bind_eq_ok.mp hinstall
  obtain rfl : v'' = v' := congrArg Prod.snd hgiven
  have hsame : u.files = s.files ∧ u.environment = s.environment ∧ u.builds = s.builds := by
    obtain ⟨_, _, rfl⟩ := hbefore
    exact ⟨rfl, rfl, rfl⟩
  exact ⟨u, v, u', v'', _, installed, hsame, hcompile,
    (Frame.of_sameWork .sameFiles hafter).symm, Frame.of_sameWork .sameFiles hbefore', hdone,
    (Frame.of_sameWork .sameFiles hafter').symm⟩

/-- A build that was successful has installed what it found in its output directories. -/
theorem Run.installs (run : Run settings r around s result s') (hsuccess : result.success = true)
    (hs : s.files.Sound) (hbeside : InstallsBeside (r.installation settings) s.files)
    (htools : r.skipCompile = false → CompilesBeside around.tools settings r s.files.here
      (s.files.place (libraryDirectory r.destination))) :
    Installs settings r around s run.afterInstall.files := by
  obtain ⟨u, v, u', v', x, installed, ⟨hu, _⟩, hcompile, hv, hu', hinstall, hv'⟩ :=
    run.exists_installed hsuccess
  have hstanding : Standing (s.files.place (libraryDirectory r.destination)) s.files u'.files := by
    rw [hu', ← hv]
    rw [← hu] at hs htools ⊢
    exact standing_compileStage hs hbeside.build htools hcompile
  have hplace := Workspace.place_congr hstanding.here
  obtain ⟨laid, archives, hlaid, hcollected, hopens, hbytes, hholds⟩ :=
    find?_install (hbeside.congr hstanding.here) hstanding.sound hinstall
  have hafter : (perform (throughCompile settings r) around s).2.files = u'.files := by
    rw [run.compile, hu']
  have hdone : Attempt.perform (layOut r.destination) u'.files = (.ok (), laid) := hlaid
  have hfiles : filesLaidOut settings r around s = laid := by
    unfold filesLaidOut
    rw [hafter, hdone]
  subst hfiles
  obtain ⟨houtputs, hfound⟩ := collectArchives_eq_ok hcollected
  have hbuilt : builtArchives settings r around s = archives := hfound.symm
  subst hbuilt
  rw [hplace, hv'] at hopens
  rw [hv', hplace] at hholds
  exact {
    laid := by rw [hafter, hdone]
    sound := (opens_layOut hstanding.sound hbeside.destination hdone).sound
    here := (here_layOut hdone).trans hstanding.here
    stands := fun l hl ↦ (hstanding.stands l hl).trans (standsAt_layOut hdone l)
    outputs := fun sub hsub ↦ Workspace.isDirectory_of_lookUp (houtputs sub hsub)
    opens := hopens
    built := hbytes
    holds := hholds }

/-! ### What a record tells of -/

namespace Installs

variable {name : String} {archive : Path}

/-- The entries of the directory of installed archives are those at its place. -/
theorem find?_entry (h : Installs settings r around s u) (hname : IsName name) :
    u.find? ((libraryDirectory r.destination).entry name) =
      u.tree.find? (name :: s.files.place (libraryDirectory r.destination)) :=
  Workspace.find?_entry_of_resolve h.opens.lead h.opens.there hname

/-- The archives in the directory of installed archives are the entries at its place that have an
archive's name. -/
theorem archivesIn_eq (h : Installs settings r around s u) :
    archivesIn u (libraryDirectory r.destination) =
      ((u.tree.names (s.files.place (libraryDirectory r.destination))).filter isArchiveName).map
        (libraryDirectory r.destination).entry := by
  unfold archivesIn
  rw [Workspace.names_of_resolve h.opens.lead h.opens.there]

/-- An archive that was found is at the place that its path names. -/
theorem find?_of_mem (h : Installs settings r around s u)
    (harchive : archive ∈ builtArchives settings r around s) :
    (filesLaidOut settings r around s).find? archive =
        (filesLaidOut settings r around s).tree.find?
          ((filesLaidOut settings r around s).place archive) ∧
      isArchiveName archive.name = true := by
  obtain ⟨sub, _, hfound⟩ := List.mem_flatMap.mp harchive
  obtain ⟨name, hname, hisArchive, rfl⟩ := mem_archivesIn.mp hfound
  obtain ⟨l, e, hlead, hl, hentry⟩ := Workspace.exists_of_mem_names hname
  have hisName := h.sound.named name l e hentry
  rw [Workspace.find?_entry_of_resolve hlead hl hisName,
    Workspace.place_entry _ _ hisName.ne_dots, Workspace.place_of_resolve hlead, Path.name_entry]
  exact ⟨rfl, hisArchive⟩

/-- What is in the directory of installed archives by an archive's name is a directory, or was
installed or is left over. -/
theorem origin (h : Installs settings r around s u)
    (harchive : archive ∈ archivesIn u (libraryDirectory r.destination)) :
    u.isDirectory archive = true ∨ IsInstalled settings r around s u archive ∨
      IsLeftover settings r around s u archive := by
  obtain ⟨name, hname, rfl⟩ := exists_of_mem_archivesIn h.opens.sound harchive
  have hentry := h.find?_entry hname
  rw [h.holds name] at hentry
  have hdirectory (hthere : u.find? ((libraryDirectory r.destination).entry name) =
      some .directory) : u.isDirectory ((libraryDirectory r.destination).entry name) = true := by
    unfold Workspace.isDirectory
    rw [hthere]
  obtain ⟨_, hheld⟩ | ⟨built, hbuilt, hsame, hheld⟩ | ⟨hother, hheld⟩ :=
    entryAfter_cases (filesLaidOut settings r around s)
      (s.files.place (libraryDirectory r.destination)) (builtArchives settings r around s) name
  · exact .inl (hdirectory (hentry.trans hheld))
  · refine .inr (.inl ⟨built, hbuilt, ?_, ?_⟩)
    · rw [Path.name_entry, hsame]
    · rw [hentry, hheld, (h.find?_of_mem hbuilt).1]
  · rcases h.stands _ (List.suffix_cons name _) with hstands | ⟨_, hmade⟩
    · refine .inr (.inr ⟨?_, ?_⟩)
      · rintro ⟨built, hbuilt, hsame⟩
        exact hother built hbuilt (hsame.trans (Path.name_entry _ _))
      · rw [hentry, hheld, hstands, Workspace.place_entry _ _ hname.ne_dots]
    · exact .inl (hdirectory (hentry.trans (hheld.trans hmade)))

/-- Every archive that was to be installed is in the directory of installed archives. -/
theorem entry_mem (h : Installs settings r around s u)
    (hname : IsBuiltName settings r around s name) :
    (libraryDirectory r.destination).entry name ∈
      archivesIn u (libraryDirectory r.destination) := by
  obtain ⟨archive, harchive, rfl⟩ := hname
  rw [h.archivesIn_eq]
  refine List.mem_map_of_mem (List.mem_filter.mpr ⟨Tree.mem_names.mpr ?_, ?_⟩)
  · rw [h.holds]
    obtain ⟨_, hheld⟩ | ⟨built, hbuilt, _, hheld⟩ | ⟨hother, _⟩ :=
      entryAfter_cases (filesLaidOut settings r around s)
        (s.files.place (libraryDirectory r.destination)) (builtArchives settings r around s)
        archive.name
    · exact ⟨_, hheld⟩
    · obtain ⟨bytes, hbytes⟩ := h.built built hbuilt
      exact ⟨_, hheld.trans hbytes⟩
    · exact absurd rfl (hother archive harchive)
  · exact (h.find?_of_mem harchive).2

end Installs

/-- The scan of a build that was successful has matched the archives that it reached and that carry
the marker, and the record is the one of what it matched. -/
theorem Run.exists_scanned (run : Run settings r around s result s')
    (hsuccess : result.success = true) :
    ∃ probe, result.record = some (recordOf r probe) ∧
      result.recordPath = some (r.destination.below settings.metadataFilename) ∧
      probe.archivesMatched = (matchedIn settings around run.afterInstall.files
        (archivesIn run.afterInstall.files (libraryDirectory r.destination))).map Path.text := by
  obtain ⟨probe, path, _, u, _, hprobe, hpath, _, hfiles, hscan, hwhere, _⟩ :=
    run.exists_handed hsuccess
  obtain ⟨hmatched, _⟩ := probeStage_eq hscan
  rw [hfiles] at hmatched
  refine ⟨probe, ?_, ?_, hmatched⟩
  · rw [run.record_eq, hprobe]
    rfl
  · rw [run.recordPath_eq, hpath, hwhere]

/-- A record of what a scan matched has the claimer among its tags exactly when the marker occurs in
the listing of an archive that the scan reached. -/
theorem claimer_mem_recordOf_iff {probe : Probe} {archives : List Path}
    (h : probe.archivesMatched = (matchedIn settings around w archives).map Path.text) :
    .claimer ∈ (recordOf r probe).instrumentation ↔
      ∃ archive ∈ reached settings around w archives, ∃ output errors,
        listed settings around w archive = .exited 0 output errors ∧
          Utf8.encode settings.claimerMarker <:+: output := by
  refine claimer_mem_carriedTags.trans (Iff.trans ?_ (matchedIn_ne_nil_iff settings around w _))
  unfold Probe.claimerPresent
  rw [h, Bool.not_eq_true', List.isEmpty_eq_false_iff, Ne, List.map_eq_nil_iff]

/-- The record of what a scan matched after an install tells of the archives there. -/
theorem Installs.tellsOfArchives (h : Installs settings r around s u) {probe : Probe}
    (hmatched : probe.archivesMatched = (matchedIn settings around u
      (archivesIn u (libraryDirectory r.destination))).map Path.text) :
    TellsOfArchives settings r around s u (recordOf r probe) where
  claimer := claimer_mem_recordOf_iff hmatched
  origin _ harchive := h.origin harchive
  installed _ hname := h.entry_mem hname

/-! ### Two runs -/

section Runs

variable {t s₁ t₁ : Session} {result' : Result} {u' : Workspace}

/-- Where two builds that were successful found only leftovers that differ, they differ still once
the directories of the install are made. -/
theorem Run.leftoversDiffer (run : Run settings r around s result s₁)
    (run' : Run settings r around t result' t₁) (hsuccess : result.success = true)
    (hsuccess' : result'.success = true) (hsameEnvironment : t.environment = s.environment)
    (hsameBuilds : t.builds = s.builds)
    (hbeside : InstallsBeside (r.installation settings) s.files)
    (htools : r.skipCompile = false → CompilesBeside around.tools settings r s.files.here
      (s.files.place (libraryDirectory r.destination)))
    {replaced : String → Prop}
    (hdiffer : LeftoversDiffer (s.files.place (libraryDirectory r.destination)) replaced s.files
      t.files)
    (h : Installs settings r around s u) (h' : Installs settings r around t u') :
    LeftoversDiffer (s.files.place (libraryDirectory r.destination)) replaced
      (filesLaidOut settings r around s) (filesLaidOut settings r around t) := by
  obtain ⟨u₁, v₁, _, _, _, _, ⟨hu, henvironment, hbuilds⟩, hcompile, hv, _⟩ :=
    run.exists_installed hsuccess
  obtain ⟨u₂, v₂, _, _, _, _, ⟨hu', henvironment', hbuilds'⟩, hcompile', hv', _⟩ :=
    run'.exists_installed hsuccess'
  have hcompiled : LeftoversDiffer (s.files.place (libraryDirectory r.destination)) replaced
      v₁.files v₂.files := by
    rw [← hu] at hdiffer htools ⊢
    rw [← hu'] at hdiffer
    exact hdiffer.compileStage (henvironment'.trans (hsameEnvironment.trans henvironment.symm))
      (hbuilds'.trans (hsameBuilds.trans hbuilds.symm)) hbeside.build htools hcompile hcompile'
  have hdestination : r.destination.IsNormal := hbeside.destination
  have hlaid := h.laid
  have hlaid' := h'.laid
  rw [run.compile] at hlaid
  rw [run'.compile] at hlaid'
  rw [hv, hv'] at hcompiled
  exact hcompiled.layOut hdestination hlaid hlaid'

variable (hbeside : InstallsBeside (r.installation settings) s.files)
  (hlaid : LeftoversDiffer (s.files.place (libraryDirectory r.destination))
    (IsBuiltName settings r around s) (filesLaidOut settings r around s)
    (filesLaidOut settings r around t))
  (h : Installs settings r around s u) (h' : Installs settings r around t u')
include hbeside hlaid h h'

/-- Where only leftovers differ, the same archives are found. -/
theorem builtArchives_eq :
    builtArchives settings r around t = builtArchives settings r around s := by
  unfold builtArchives
  refine List.flatMap_congr fun sub hsub ↦ ?_
  refine hlaid.archivesIn_eq ?_ (h.outputs sub hsub) (h'.outputs sub hsub)
  intro name hname
  rw [Workspace.place_congr h.here]
  exact not_suffix_archive (hbeside.collects sub hsub) hname

variable (hhere : t.files.here = s.files.here)
include hhere

/-- Where leftovers differ only in what is replaced, the directory of installed archives holds the
same by every archive's name after an install. -/
theorem find?_eq_of_leftovers {name : String} (hname : isArchiveName name = true) :
    u'.tree.find? (name :: s.files.place (libraryDirectory r.destination)) =
      u.tree.find? (name :: s.files.place (libraryDirectory r.destination)) := by
  have hheld := h'.holds name
  rw [Workspace.place_congr hhere, builtArchives_eq hbeside hlaid h h'] at hheld
  rw [hheld, h.holds name]
  refine entryAfter_congr (fun archive harchive ↦ ?_) (hlaid.archives name hname)
  obtain ⟨sub, hsub, hfound⟩ := List.mem_flatMap.mp harchive
  rw [Workspace.place_congr hlaid.here]
  exact hlaid.outside _ (hbeside.of_mem_archivesIn h.sound h.here hsub hfound).2

/-- Where leftovers differ only in what is replaced, a scan of the directory of installed archives
matches the same after an install. -/
theorem matchedIn_eq_of_leftovers :
    matchedIn settings around u' (archivesIn u' (libraryDirectory r.destination)) =
      matchedIn settings around u (archivesIn u (libraryDirectory r.destination)) := by
  have hplace := Workspace.place_congr hhere (libraryDirectory r.destination)
  have hsame : ∀ name, isArchiveName name = true →
      u'.tree.find? (name :: s.files.place (libraryDirectory r.destination)) =
        u.tree.find? (name :: s.files.place (libraryDirectory r.destination)) :=
    fun _ hname ↦ find?_eq_of_leftovers hbeside hlaid h h' hhere hname
  have harchives : archivesIn u' (libraryDirectory r.destination) =
      archivesIn u (libraryDirectory r.destination) := by
    rw [h.archivesIn_eq, h'.archivesIn_eq, hplace]
    exact congrArg _ (Tree.filter_names_congr hsame)
  rw [harchives]
  refine matchedIn_congr _ _ _ fun archive harchive ↦ ?_
  obtain ⟨name, hmem, hisArchive, rfl⟩ := mem_archivesIn.mp harchive
  obtain ⟨l, e, _, _, hentry⟩ := Workspace.exists_of_mem_names hmem
  have hisName := h.opens.sound.named name l e hentry
  unfold Workspace.content?
  rw [h.find?_entry hisName, h'.find?_entry hisName, hplace, hsame name hisArchive]

end Runs

/-- A record that a successful build gives can be loaded from its file, unless the report took the
file's place. -/
theorem Run.perform_loadRecord_of_record {t : Session} {m : Record}
    (run : Run settings r around s result t) (hrecord : result.record = some m)
    (hpath : result.recordPath = some (r.destination.below settings.metadataFilename))
    (hother : s.files.place (r.destination.below settings.metadataFilename) ≠
      s.files.place (r.destination.below reportFileName)) :
    perform (loadRecord (r.destination.below settings.metadataFilename)) around t = (.ok m, t) := by
  obtain ⟨_, m', hrecord', hload⟩ := run.loads_recordPath hpath hother
  obtain rfl : m' = m := Option.some.inj (hrecord'.symm.trans hrecord)
  exact hload

/-- What a successful build records does not depend on what it replaces. From two sessions whose
files differ only in what is in the directory of installed archives, and there by archives' names
only in what is no directory and is to be replaced, it emits the same record: which tells of the
archives that it installed and of those that were there before under other names. -/
theorem runBuild_ignores_replaced_archives (settings : Settings) (r : Request)
    (around : Surroundings) (s t t' : Session) (v : Workspace) (result result' : Result)
    (hbeside : InstallsBeside (r.installation settings) s.files)
    (htools : r.skipCompile = false → CompilesBeside around.tools settings r s.files.here
      (s.files.place (libraryDirectory r.destination)))
    (hdiffer : LeftoversDiffer (s.files.place (libraryDirectory r.destination))
      (IsBuiltName settings r around s) s.files v)
    (h : perform (runBuild settings r) around s = (.ok result, t))
    (hsuccess : result.success = true)
    (h' : perform (runBuild settings r) around { s with files := v } = (.ok result', t'))
    (hsuccess' : result'.success = true) :
    let path := r.destination.below settings.metadataFilename
    ∃ m, result.record = some m ∧ result'.record = some m ∧
      result.recordPath = some path ∧ result'.recordPath = some path ∧
      (s.files.place path ≠ s.files.place (r.destination.below reportFileName) →
        perform (loadRecord path) around t = (.ok m, t) ∧
        perform (loadRecord path) around t' = (.ok m, t')) ∧
      TellsOfArchives settings r around s
        (perform (throughInstall settings r) around s).2.files m := by
  intro path
  obtain ⟨run⟩ := nonempty_run h
  obtain ⟨run'⟩ := nonempty_run h'
  obtain ⟨probe, hrecord, hpath, hmatched⟩ := run.exists_scanned hsuccess
  obtain ⟨probe', hrecord', hpath', hmatched'⟩ := run'.exists_scanned hsuccess'
  have hplace := Workspace.place_congr hdiffer.here
  have hinstalls := run.installs hsuccess hdiffer.left hbeside htools
  have hinstalls' := run'.installs hsuccess' hdiffer.right (hbeside.congr hdiffer.here) (by
    rw [hplace, hdiffer.here]
    exact htools)
  have hlaid := run.leftoversDiffer run' hsuccess hsuccess' rfl rfl hbeside htools hdiffer
    hinstalls hinstalls'
  have hsame : recordOf r probe' = recordOf r probe := by
    unfold recordOf carriedTags Probe.claimerPresent
    rw [hmatched, hmatched', matchedIn_eq_of_leftovers hbeside hlaid hinstalls hinstalls'
      hdiffer.here]
  rw [hsame] at hrecord'
  refine ⟨recordOf r probe, hrecord, hrecord', hpath, hpath', fun hother ↦ ⟨?_, ?_⟩, ?_⟩
  · exact run.perform_loadRecord_of_record hrecord hpath hother
  · exact run'.perform_loadRecord_of_record hrecord' hpath' (by rwa [hplace, hplace])
  · rw [run.throughInstall_eq]
    exact hinstalls.tellsOfArchives hmatched

/-! ### Sample builds -/

/-- Settings for a library whose archives are put into the build directory itself. -/
def inPlaceSettings : Settings := { sampleSettings with archiveSubdirs := ["."] }

/-- A sample archive that does not carry the marker. -/
def plainArchive : Entry := .file []

/-- A sample archive that carries the marker. -/
def markedArchive : Entry := .file (Utf8.encode "mark")

/-- Files with a source's headers, with an archive built from it, and with a directory of installed
archives. -/
def sampleInUse (archive : Entry) : Workspace :=
  (((⟨.empty, []⟩ : Workspace).plant (.ofString "src/include/lib.h") (.file [])).plant
    (.ofString "build/lib.a") archive).plant (.ofString "out/lib") .directory

/-- Files with an entry left below the directory of installed archives of a sample build. -/
def leave (w : Workspace) (l : Location) (e : Entry) : Workspace :=
  { w with tree := w.tree.put (l ++ ["lib", "out"]) e }

/-- What is left in the directory of installed archives makes no difference elsewhere. -/
theorem find?_leave (w : Workspace) (l : Location) (e : Entry) {m : Location}
    (hm : ¬["lib", "out"] <:+ m) : (leave w l e).tree.find? m = w.tree.find? m := by
  refine Tree.find?_put_of_ne _ ?_ e
  rintro rfl
  exact hm (List.suffix_append _ _)

/-- A sample request that compiles. -/
def sampleRebuild : Request := { sampleRequest with skipCompile := false }

/-- Sample files whose directory of installed archives holds an archive that is to be replaced. -/
def sampleReplaced (archive : Entry) : Workspace :=
  leave (sampleInUse plainArchive) ["lib.a"] archive

private theorem isBuiltName_sample :
    IsBuiltName inPlaceSettings sampleRebuild sampleArchiving
      (sampleSession (sampleReplaced plainArchive)) "lib.a" := by
  have hany : (builtArchives inPlaceSettings sampleRebuild sampleArchiving
      (sampleSession (sampleReplaced plainArchive))).any (·.name = "lib.a") = true := by
    decide +kernel
  obtain ⟨built, hbuilt, hname⟩ := List.any_eq_true.mp hany
  exact ⟨built, hbuilt, of_decide_eq_true hname⟩

private theorem leftoversDiffer_sample :
    LeftoversDiffer ["lib", "out"]
      (IsBuiltName inPlaceSettings sampleRebuild sampleArchiving
        (sampleSession (sampleReplaced plainArchive)))
      (sampleReplaced plainArchive) (sampleReplaced markedArchive) where
  left := Workspace.sound_of_entries (by decide +kernel) (by decide +kernel)
  right := Workspace.sound_of_entries (by decide +kernel) (by decide +kernel)
  here := rfl
  outside _ hl := (find?_leave _ _ _ hl).trans (find?_leave _ _ _ hl).symm
  archives name _ := by
    by_cases hname : name = "lib.a"
    · subst hname
      exact .inr ⟨isBuiltName_sample, by decide +kernel, by decide +kernel⟩
    · have hne : name :: ["lib", "out"] ≠ ["lib.a"] ++ ["lib", "out"] := by simp [hname]
      exact .inl ((Tree.find?_put_of_ne _ hne _).trans (Tree.find?_put_of_ne _ hne _).symm)

/-- A build that compiles records the same whatever archive of an earlier build it replaces. -/
theorem runBuild_sample_ignores_replaced_archives : ∃ result t result' t' m,
    perform (runBuild inPlaceSettings sampleRebuild) sampleArchiving
      (sampleSession (sampleReplaced plainArchive)) = (.ok result, t) ∧
    perform (runBuild inPlaceSettings sampleRebuild) sampleArchiving
      (sampleSession (sampleReplaced markedArchive)) = (.ok result', t') ∧
    result.record = some m ∧ result'.record = some m := by
  have hgiven : (perform (runBuild inPlaceSettings sampleRebuild) sampleArchiving
      (sampleSession (sampleReplaced plainArchive))).1.toOption.any Result.success = true := by
    decide +kernel
  have hgiven' : (perform (runBuild inPlaceSettings sampleRebuild) sampleArchiving
      (sampleSession (sampleReplaced markedArchive))).1.toOption.any Result.success = true := by
    decide +kernel
  obtain ⟨result, t, h, hsuccess⟩ := exists_of_any_toOption hgiven
  obtain ⟨result', t', h', hsuccess'⟩ := exists_of_any_toOption hgiven'
  have hnormal : sampleRebuild.build.IsNormal ∧ sampleRebuild.destination.IsNormal :=
    ⟨Path.isNormal_ofString _, Path.isNormal_ofString _⟩
  have hbeside : InstallsBeside (sampleRebuild.installation inPlaceSettings)
      (sampleReplaced plainArchive) :=
    ⟨hnormal.1, hnormal.2, by decide +kernel, by decide +kernel⟩
  have htools : CompilesBeside sampleArchiving.tools inPlaceSettings sampleRebuild
      (sampleReplaced plainArchive).here ["lib", "out"] :=
    (compilesInside_archiving (fun _ _ _ ↦ rfl) _ (by decide) _).beside (by decide +kernel)
      (by decide +kernel)
  obtain ⟨m, hrecord, hrecord', _⟩ := runBuild_ignores_replaced_archives inPlaceSettings
    sampleRebuild sampleArchiving (sampleSession (sampleReplaced plainArchive)) t t'
    (sampleReplaced markedArchive) result result' hbeside (fun _ ↦ htools)
    leftoversDiffer_sample h hsuccess h' hsuccess'
  exact ⟨result, t, result', t', m, h, h', hrecord, hrecord'⟩

/-- A sample request that takes archives from below the directory of installed archives. -/
def sampleWithin : Request := { sampleRequest with build := .ofString "out/lib/made" }

/-- Sample files with an archive below the directory of installed archives. -/
def sampleTaken (archive : Entry) : Workspace :=
  (sampleInUse plainArchive).plant (.ofString "out/lib/made/lib.a") archive

/-- Whether the claimer is among the tags that a successful build records. -/
def recordsClaimer (settings : Settings) (r : Request) (around : Surroundings)
    (files : Workspace) : Option Bool :=
  (perform (runBuild settings r) around (sampleSession files)).1.toOption.bind fun result ↦
    if result.success then result.record.map (Tag.claimer ∈ ·.instrumentation) else none

/-- Sample surroundings with a tool that builds from what it finds in the directory of installed
archives. -/
def sampleReading : Surroundings :=
  { sampleArchiving with tools := {
      listSymbols := sampleSurroundings.tools.listSymbols
      build := fun _ _ w ↦ (.exited 0 [] [], match w.content? (.ofString "out/lib/seed") with
        | some bytes => w.tree.put ["lib.a", "build"] (.file bytes)
        | none => w.tree) } }

/-- What was in the directory of installed archives can decide what a successful build records: an
archive of another name that was left there is scanned with those that are installed. -/
theorem runBuild_sample_records_leftover :
    (sampleInUse plainArchive).Sound ∧
    (leave (sampleInUse plainArchive) ["old.a"] markedArchive).Sound ∧
    (∀ m, ¬["lib", "out"] <:+ m →
      (leave (sampleInUse plainArchive) ["old.a"] markedArchive).tree.find? m =
        (sampleInUse plainArchive).tree.find? m) ∧
    recordsClaimer inPlaceSettings sampleRequest sampleSurroundings
      (sampleInUse plainArchive) = some false ∧
    recordsClaimer inPlaceSettings sampleRequest sampleSurroundings
      (leave (sampleInUse plainArchive) ["old.a"] markedArchive) = some true ∧
    -- A directory that has the archive's name takes the archive in, where it is not scanned.
    recordsClaimer inPlaceSettings sampleRequest sampleSurroundings
      (sampleInUse markedArchive) = some true ∧
    recordsClaimer inPlaceSettings sampleRequest sampleSurroundings
      (leave (sampleInUse markedArchive) ["lib.a"] .directory) = some false ∧
    -- The archives may be taken from within the directory of installed archives.
    recordsClaimer inPlaceSettings sampleWithin sampleSurroundings
      (sampleTaken plainArchive) = some false ∧
    recordsClaimer inPlaceSettings sampleWithin sampleSurroundings
      (sampleTaken markedArchive) = some true ∧
    -- The build tool may read there.
    recordsClaimer inPlaceSettings sampleRebuild sampleReading
      (sampleInUse plainArchive) = some false ∧
    recordsClaimer inPlaceSettings sampleRebuild sampleReading
      (leave (sampleInUse plainArchive) ["seed"] markedArchive) = some true ∧
    -- The headers may go there, and need not be headers.
    recordsClaimer { inPlaceSettings with headerDir := "lib" } sampleRequest sampleSurroundings
      ((sampleInUse plainArchive).plant (.ofString "src/lib/old.a") markedArchive) = some true := by
  refine ⟨Workspace.sound_of_entries (by decide +kernel) (by decide +kernel),
    Workspace.sound_of_entries (by decide +kernel) (by decide +kernel),
    fun m hm ↦ find?_leave _ _ _ hm, ?_⟩
  simp only [recordsClaimer, runBuild, probeStage, scan, listArchives, archivesIn,
    Workspace.names, Tree.names_eq_insertionSort]
  decide +kernel

end Vendoring.Build
