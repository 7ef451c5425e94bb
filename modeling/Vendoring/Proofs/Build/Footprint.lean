import Vendoring.Proofs.Build.Archives
import Vendoring.Proofs.Build.Pairs
import Vendoring.Proofs.Files.Copying

/-!
# The footprint of a build

A build whose paths are plain, and whose settings name nothing outside of the directories that it is
asked to work on, reads below its source and writes below its build directory and its destination.
With tools that keep to these directories, two runs of it go alike in files that look alike there.
-/

namespace Vendoring.Build

open Vendoring.Files Vendoring.Tool
open Vendoring.Action

/-- The directories that a build writes to. -/
def Request.outputs (r : Request) : List Path := [r.build, r.destination]

/-- The paths of a request are plain, and what the settings name stays inside of them. -/
structure KeepsInside (settings : Settings) (r : Request) : Prop where
  source : r.source.IsPlain
  build : r.build.IsPlain
  destination : r.destination.IsPlain
  subdirs : ∀ sub ∈ settings.archiveSubdirs, Path.StaysInside sub
  headerDir : Path.StaysInside settings.headerDir
  headerName : (r.source.below settings.headerDir).name ≠ ".."
  metadata : Path.StaysInside settings.metadataFilename

/-- What is written into the destination stays inside of it. -/
theorem KeepsInside.staysInside_of_mem {settings : Settings} {r : Request}
    (h : KeepsInside settings r) {name : String}
    (hname : name ∈ [settings.metadataFilename, reportFileName]) : Path.StaysInside name := by
  rcases List.mem_cons.mp hname with rfl | hname
  · exact h.metadata
  · rw [List.mem_singleton.mp hname]
    decide

/-- What compiling for a request gives, and what it leaves in the build directory, depends on the
command and on what is in the source and the build directory. Nothing else is changed, and the
files go on to be those of a sound workspace. -/
structure CompilesInside (tools : Toolbox) (settings : Settings) (r : Request) (here : Location) :
    Prop where
  alike : ∀ run, Compiles settings r run → ∀ (k k' : Nat) (w v : Workspace), w.Sound → v.Sound →
    w.here = here → v.here = here →
    (∀ l : Location, w.place r.source <:+ l ∨ w.place r.build <:+ l →
      w.tree.find? l = v.tree.find? l) →
    (tools.build k run w).1 = (tools.build k' run v).1 ∧
    ∀ l : Location, w.place r.build <:+ l →
      (tools.build k run w).2.find? l = (tools.build k' run v).2.find? l
  elsewhere : ∀ run, Compiles settings r run → ∀ (k : Nat) (w : Workspace), w.Sound →
    w.here = here → ∀ l : Location, ¬w.place r.build <:+ l →
      (tools.build k run w).2.find? l = w.tree.find? l
  sound : ∀ run, Compiles settings r run → ∀ (k : Nat) (w : Workspace), w.Sound → w.here = here →
    Workspace.Sound { w with tree := (tools.build k run w).2 }

/-- The footprint of a build: what is below its build directory and its destination is written, and
what is below its source is read. -/
def Request.footprint (r : Request) (w : Workspace)
    (hapart : ∀ d ∈ r.outputs, Apart (w.place d) (w.place r.source)) : Footprint where
  writes := r.outputs.map w.place
  reads := [w.place r.source]
  apart := by
    intro d hd s hs
    obtain ⟨p, hp, rfl⟩ := List.mem_map.mp hd
    rw [List.mem_singleton.mp hs]
    exact hapart p hp

/-! ### What a build works on -/

/-- The directory of installed archives is an entry of the destination. -/
theorem libraryDirectory_eq_entry (p : Path) : libraryDirectory p = p.entry "lib" :=
  p.below_of_isPart (show IsName "lib" by decide).toIsPart

/-- The directory of installed archives is inside of the destination. -/
theorem libraryDirectory_isInside {p : Path} (hp : p.IsPlain) : (libraryDirectory p).IsInside p :=
  libraryDirectory_eq_entry p ▸ (Path.IsInside.refl hp).entry (show IsName "lib" by decide)

/-- The directory of installed programs is an entry of the destination. -/
theorem programDirectory_eq_entry (p : Path) : programDirectory p = p.entry "bin" :=
  p.below_of_isPart (show IsName "bin" by decide).toIsPart

/-! ### Going alike -/

section Instance

variable {settings : Settings} {r : Request} {tools : Toolbox} {w₀ v₀ w v : Workspace}
  {hapart : ∀ d ∈ r.outputs, Apart (w₀.place d) (w₀.place r.source)}

private theorem writes_of_mem {d : Path} (hd : d ∈ r.outputs) :
    (r.footprint w₀ hapart).Writes (w₀.place d) :=
  ⟨w₀.place d, List.mem_map_of_mem hd, List.suffix_rfl⟩

private theorem writes_build : (r.footprint w₀ hapart).Writes (w₀.place r.build) :=
  writes_of_mem List.mem_cons_self

private theorem writes_destination :
    (r.footprint w₀ hapart).Writes (w₀.place r.destination) :=
  writes_of_mem (List.mem_cons_of_mem _ List.mem_cons_self)

private theorem reads_source : (r.footprint w₀ hapart).Reads (w₀.place r.source) :=
  ⟨w₀.place r.source, List.mem_cons_self, List.suffix_rfl⟩

/-- What is written is below the build directory or below the destination. -/
theorem writes_footprint_iff {l : Location} : (r.footprint w₀ hapart).Writes l ↔
    ∃ d ∈ r.outputs, w₀.place d <:+ l := by
  constructor
  · rintro ⟨root, hroot, hl⟩
    obtain ⟨d, hd, rfl⟩ := List.mem_map.mp hroot
    exact ⟨d, hd, hl⟩
  · rintro ⟨d, hd, hl⟩
    exact ⟨w₀.place d, List.mem_map_of_mem hd, hl⟩

/-- Compiling keeps workspaces alike, and gives the same. -/
theorem alike_build (htools : CompilesInside tools settings r w₀.here) {run : Invocation}
    (hrun : Compiles settings r run) (k k' : Nat)
    (h : Workspace.Alike (r.footprint w₀ hapart) w₀ v₀ w v) :
    (tools.build k run w).1 = (tools.build k' run v).1 ∧
      Workspace.Alike (r.footprint w₀ hapart) w₀ v₀ { w with tree := (tools.build k run w).2 }
        { v with tree := (tools.build k' run v).2 } := by
  have hcovered : ∀ l, w.place r.source <:+ l ∨ w.place r.build <:+ l →
      w.tree.find? l = v.tree.find? l := by
    intro l hl
    rw [h.left_place, h.left_place] at hl
    rcases hl with hl | hl
    · exact h.find?_eq (reads_source.of_suffix hl).covers
    · exact h.find?_eq (writes_build.of_suffix hl).covers
  obtain ⟨houtcome, hbuilt⟩ := htools.alike run hrun k k' w v h.left h.right h.leftHere h.rightHere
    hcovered
  have hleft := htools.elsewhere run hrun k w h.left h.leftHere
  have hright := htools.elsewhere run hrun k' v h.right h.rightHere
  rw [h.left_place] at hbuilt hleft
  rw [h.right_place] at hright
  refine ⟨houtcome, ?_⟩
  exact {
    start := h.start
    left := htools.sound run hrun k w h.left h.leftHere
    right := htools.sound run hrun k' v h.right h.rightHere
    leftHere := h.leftHere
    rightHere := h.rightHere
    within := by
      intro l hl
      by_cases hin : w₀.place r.build <:+ l
      · exact hbuilt l hin
      · exact (hleft l hin).trans ((h.within l hl).trans (hright l hin).symm)
    outside := by
      intro l hl
      have hin : ¬w₀.place r.build <:+ l := fun hin ↦ hl (writes_build.of_suffix hin)
      dsimp only
      rw [hleft l hin, hright l hin]
      exact h.outside l hl }

private theorem paired_runBuilder {around : Surroundings} {t t' : Times}
    {environment : Settings.Environment}
    (htools : CompilesInside around.tools settings r w₀.here) {run : Invocation}
    (hrun : Compiles settings r run) :
    let B := Backdrop.within environment
    let W := Workspace.Alike (r.footprint w₀ hapart) w₀ v₀
    Action.Paired (around.showing t) (around.showing t') (B.Over W) (Same (B.Over W)) (B.Over W)
      (runBuilder run) (runBuilder run) := by
  intro B W s s' hs
  obtain ⟨houtcome, halike⟩ := alike_build htools hrun s.builds s'.builds hs.1
  exact .ok ⟨houtcome, halike, hs.2⟩

/-- The archives of directories inside of the build directory are found alike. -/
theorem collectArchives_eq (h : Workspace.Alike (r.footprint w₀ hapart) w₀ v₀ w v)
    (hbuild : r.build.IsPlain) {subs : List String} (hsubs : ∀ sub ∈ subs, Path.StaysInside sub) :
    collectArchives w r.build subs = collectArchives v r.build subs := by
  refine collectArchives_congr fun sub hsub ↦ ⟨?_, ?_⟩
  · exact h.lookUp_eq hbuild writes_build.covers ((hsubs sub hsub).below hbuild.isNormal)
  · rw [archivesIn, archivesIn,
      h.names_eq hbuild writes_build.covers ((hsubs sub hsub).below hbuild.isNormal)]

/-- Two runs of a build go alike in workspaces that look alike to it. -/
theorem goesAlike_alike {around : Surroundings} (t t' : Times) (environment : Settings.Environment)
    (hinside : KeepsInside settings r)
    (htools : CompilesInside around.tools settings r w₀.here) :
    GoesAlike settings r (around.showing t) (around.showing t') (.within environment)
      (Workspace.Alike (r.footprint w₀ hapart) w₀ v₀)
      (Workspace.Ready (r.footprint w₀ hapart) w₀ v₀ r.destination) where
  weaken _ _ h := h.1
  listSymbols := rfl
  runs _ hrun := paired_runBuilder htools hrun
  source _ _ h := h.lookUp_eq hinside.source reads_source.covers (.refl hinside.source)
  makeBuild := (Workspace.paired_makeDirectories hinside.build writes_build).mono
    (fun _ _ h ↦ h) (fun _ _ _ _ h ↦ ⟨h.1, h.2.1⟩) fun _ _ h ↦ h
  makeLibrary := by
    rw [libraryDirectory_eq_entry]
    exact Workspace.paired_makeDirectories_entry hinside.destination writes_destination
      (show IsName "lib" by decide)
  makePrograms := by
    rw [programDirectory_eq_entry]
    exact (Workspace.paired_makeDirectories_entry hinside.destination writes_destination
      (show IsName "bin" by decide)).mono (fun _ _ h ↦ h.1) (fun _ _ _ _ h ↦ h) fun _ _ h ↦ h
  collected _ _ h := collectArchives_eq h.1 hinside.build hinside.subdirs
  copyArchive w v archives h hcollected archive harchive := by
    obtain ⟨sub, hsub, hfound⟩ := exists_of_mem_collectArchives hcollected harchive
    obtain ⟨name, hname, rfl⟩ := exists_of_mem_archivesIn h.1.left hfound
    have hdirectory := (hinside.subdirs sub hsub).below hinside.build.isNormal
    have htarget := (libraryDirectory_isInside hinside.destination).entry hname
    rw [Path.name_entry]
    exact Workspace.paired_copyFile hinside.destination writes_destination hinside.build
      writes_build.covers hdirectory hname rfl (.ofPath htarget)
  headers _ _ h := h.1.lookUp_eq hinside.source reads_source.covers
    (hinside.headerDir.below hinside.source.isNormal)
  copyHeaders := by
    intro headers target
    have hsource := hinside.headerDir.below hinside.source.isNormal
    have htarget := (hsource.normal.staysInside_name hinside.headerName).below
      hinside.destination.isNormal
    have hread : (Path.ofString headers.text).IsInside r.source := by
      rw [Path.ofString_text hsource.normal]
      exact hsource
    exact Workspace.paired_copyTree hinside.destination writes_destination hinside.source
      reads_source headers.text_ne_empty hread (.ofText_text htarget)
  listed w v h := by
    have hlibrary := libraryDirectory_isInside hinside.destination
    unfold listArchives archivesIn
    rw [h.lookUp_eq hinside.destination writes_destination.covers hlibrary,
      h.names_eq hinside.destination writes_destination.covers hlibrary]
  content w v archive h harchive w' v' h' := by
    obtain ⟨name, hname, rfl⟩ := exists_of_mem_archivesIn h.left harchive
    exact h'.content?_eq hinside.destination writes_destination.covers
      ((libraryDirectory_isInside hinside.destination).entry hname)
  makeDestination := Workspace.paired_makeDirectories hinside.destination writes_destination
  resolve w v h name hname := by
    have hpath := (hinside.staysInside_of_mem hname).below hinside.destination.isNormal
    exact ⟨h.1.resolve_eq hinside.destination writes_destination.covers hpath h.2,
      fun _ ↦ h.1.find?_eq_of_resolve writes_destination.covers hpath⟩
  written w v l bytes h hl hfree := h.put hinside.destination writes_destination
    (hinside.metadata.below hinside.destination.isNormal) hl hfree _

end Instance

/-! ### A sample tool -/

/-- A tool leaves an archive in a directory, if that is there. -/
def leaveArchive (w : Workspace) (directory : Path) : Outcome × Tree :=
  let l := w.place directory
  if w.tree.find? l = some .directory ∧ w.tree.find? ("lib.a" :: l) ≠ some .directory then
    (.exited 0 [] [], w.tree.put ("lib.a" :: l) (.file (Text.Utf8.encode "mark")))
  else (.exited 1 [] [], w.tree)

/-- A build tool that leaves an archive in the build directory when it is told to build there. -/
def archivingBuild (run : Invocation) (w : Workspace) : Outcome × Tree :=
  match run.words with
  | [_, "--build", build, _, _] => leaveArchive w (.ofString build)
  | _ => (.exited 0 [] [], w.tree)

private theorem archivingBuild_cases {settings : Settings} {r : Request} (hbuild : r.build.IsPlain)
    {run : Invocation} (hrun : Compiles settings r run) :
    (∀ w, archivingBuild run w = (.exited 0 [] [], w.tree)) ∨
      ∀ w, archivingBuild run w = leaveArchive w r.build := by
  cases hrun with
  | configure environment => exact .inl fun w ↦ rfl
  | build environment =>
      refine .inr fun w ↦ ?_
      show leaveArchive w (.ofString r.build.text) = _
      rw [Path.ofString_text hbuild.isNormal]

section LeaveArchive

variable {w v : Workspace} {directory : Path}

private theorem leaveArchive_congr (hhere : v.here = w.here)
    (h : ∀ l : Location, w.place directory <:+ l → w.tree.find? l = v.tree.find? l) :
    (leaveArchive w directory).1 = (leaveArchive v directory).1 ∧
      ∀ l : Location, w.place directory <:+ l →
        (leaveArchive w directory).2.find? l = (leaveArchive v directory).2.find? l := by
  unfold leaveArchive
  dsimp only
  rw [Workspace.place_congr hhere, ← h _ List.suffix_rfl, ← h _ (List.suffix_cons _ _)]
  split
  · refine ⟨rfl, fun l hl ↦ ?_⟩
    dsimp only
    rw [Tree.find?_put _ (List.cons_ne_nil _ _), Tree.find?_put _ (List.cons_ne_nil _ _), h l hl]
  · exact ⟨rfl, h⟩

private theorem find?_leaveArchive {l : Location} (hl : ¬w.place directory <:+ l) :
    (leaveArchive w directory).2.find? l = w.tree.find? l := by
  unfold leaveArchive
  dsimp only
  split
  · refine Tree.find?_put_of_ne _ ?_ _
    rintro rfl
    exact hl (List.suffix_cons _ _)
  · rfl

private theorem sound_leaveArchive (hw : w.Sound) :
    Workspace.Sound { w with tree := (leaveArchive w directory).2 } := by
  unfold leaveArchive
  dsimp only
  split
  · next h => exact hw.put (show IsName "lib.a" by decide) h.1 h.2 _
  · exact hw

end LeaveArchive

/-- A tool that leaves an archive where it builds compiles inside. -/
theorem compilesInside_archiving {tools : Toolbox}
    (htools : ∀ k run w, tools.build k run w = archivingBuild run w) (settings : Settings)
    {r : Request} (hbuild : r.build.IsPlain) (here : Location) :
    CompilesInside tools settings r here where
  alike run hrun k k' w v _ _ hw hv hsame := by
    rw [htools, htools]
    rcases archivingBuild_cases hbuild hrun with h | h
    · rw [h, h]
      exact ⟨rfl, fun l hl ↦ hsame l (.inr hl)⟩
    · rw [h, h]
      exact leaveArchive_congr (hv.trans hw.symm) fun l hl ↦ hsame l (.inr hl)
  elsewhere run hrun k w _ _ l hl := by
    rw [htools]
    rcases archivingBuild_cases hbuild hrun with h | h
    · rw [h]
    · rw [h, find?_leaveArchive hl]
  sound run hrun k w hw _ := by
    rw [htools]
    rcases archivingBuild_cases hbuild hrun with h | h
    · rw [h]
      exact hw
    · rw [h]
      exact sound_leaveArchive hw

end Vendoring.Build
