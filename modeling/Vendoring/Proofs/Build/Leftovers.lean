import Vendoring.Proofs.Build.Compiling
import Vendoring.Proofs.Build.Emission
import Vendoring.Proofs.Build.Replacing
import Vendoring.Proofs.Files.Separate

/-!
# Leftovers of earlier builds

A build that installs where others were installed before finds their archives in its directory of
installed archives. Two workspaces that differ in nothing but such leftovers still do after every
step of a build that succeeds in both, as long as nothing is built from them: what is made, what is
compiled and what is collected is the same, and the archives that are copied replace the leftovers
of their names.
-/

namespace Vendoring.Build

open Vendoring.Files Vendoring.Tool
open Vendoring.Action

/-! ### What a compilation leaves -/

/-- Compiling for a request leaves what is at and below a place as it was, and what it leaves
elsewhere depends on what was elsewhere alone. -/
structure CompilesBeside (tools : Toolbox) (settings : Settings) (r : Request)
    (here root : Location) : Prop where
  alike : ∀ run, Compiles settings r run → ∀ (k : Nat) (w v : Workspace), w.Sound → v.Sound →
    w.here = here → v.here = here →
    (∀ l : Location, ¬root <:+ l → v.tree.find? l = w.tree.find? l) →
    ∀ l : Location, ¬root <:+ l →
      (tools.build k run v).2.find? l = (tools.build k run w).2.find? l
  inside : ∀ run, Compiles settings r run → ∀ (k : Nat) (w : Workspace), w.Sound →
    w.here = here → ∀ l : Location, root <:+ l →
      (tools.build k run w).2.find? l = w.tree.find? l
  sound : ∀ run, Compiles settings r run → ∀ (k : Nat) (w : Workspace), w.Sound → w.here = here →
    Workspace.Sound { w with tree := (tools.build k run w).2 }

/-- Tools that keep to the source and the build directory compile beside every place that is apart
from both. -/
theorem CompilesInside.beside {tools : Toolbox} {settings : Settings} {r : Request}
    {w₀ : Workspace} {root : Location} (h : CompilesInside tools settings r w₀.here)
    (hbuild : Apart (w₀.place r.build) root) (hsource : Apart (w₀.place r.source) root) :
    CompilesBeside tools settings r w₀.here root where
  alike run hrun k w v hw hv hwhere hvhere hsame l hl := by
    by_cases hin : w₀.place r.build <:+ l
    · refine ((h.alike run hrun k k w v hw hv hwhere hvhere fun m hm ↦ ?_).2 l ?_).symm
      · rw [Workspace.place_congr hwhere, Workspace.place_congr hwhere] at hm
        rcases hm with hm | hm
        · exact (hsame m (hsource.not_suffix hm)).symm
        · exact (hsame m (hbuild.not_suffix hm)).symm
      · rwa [Workspace.place_congr hwhere]
    · have hkept := h.elsewhere run hrun k w hw hwhere l
      have hkept' := h.elsewhere run hrun k v hv hvhere l
      rw [Workspace.place_congr hwhere] at hkept
      rw [Workspace.place_congr hvhere] at hkept'
      rw [hkept hin, hkept' hin]
      exact hsame l hl
  inside run hrun k w hw hwhere l hl := by
    apply h.elsewhere run hrun k w hw hwhere l
    rw [Workspace.place_congr hwhere]
    exact fun hin ↦ hbuild.not_suffix hin hl
  sound := h.sound

/-- The files that a run of the build tool leaves. -/
def afterRun (tools : Toolbox) (k : Nat) (run : Invocation) (w : Workspace) : Workspace :=
  { w with tree := (tools.build k run w).2 }

/-- The files that a compilation leaves, once the build directory is made. -/
def afterCompiling (tools : Toolbox) (settings : Settings) (r : Request)
    (environment : Settings.Environment) (k : Nat) (w : Workspace) : Workspace :=
  let environment := environment.set "CC" settings.cc
  let configured := afterRun tools k ⟨configureCommand r.source.text r.build.text r.profile
    settings, settings.compileTimeout, some environment⟩ w
  afterRun tools (k + 1) ⟨buildCommand r.build.text settings, settings.compileTimeout,
    some environment⟩ configured

section Compiling

variable {settings : Settings} {r : Request} {around : Surroundings} {s t : Session}

/-- A compile stage that went well has made the build directory, configured and built. -/
theorem parts_of_compileStage {x : Unit × String} (hcompile : r.skipCompile = false)
    (h : perform (compileStage settings r) around s = (.ok x, t)) :
    ∃ w, Attempt.perform (Workspace.makeDirectories r.build) s.files = (.ok (), w) ∧
      t.files = afterCompiling around.tools settings r s.environment s.builds w := by
  unfold compileStage at h
  rw [hcompile] at h
  obtain ⟨outcome, u, hcompiled, h⟩ := perform_bind_eq_ok.mp h
  cases outcome with
  | error e => cases h
  | ok _ =>
      cases h
      have hgoes := Compilation.goes ⟨settings, r.source, r.build, r.profile, around, s⟩
      unfold Compilation.performed at hgoes
      rw [hcompiled] at hgoes
      cases hgoes with
      | built hprepared _ _ _ =>
          obtain ⟨_, w, hdirectory, hw⟩ :=
            perform_makeDirectories_eq_ok.mp (Prod.ext hprepared.directory rfl)
          have hfiles : (perform (makeDirectories r.build) around s).2.files = w :=
            congrArg Session.files hw
          rw [← hfiles] at hdirectory
          exact ⟨_, hdirectory, rfl⟩

end Compiling

/-! ### What stands in one run -/

/-- A place holds what it held, or a directory where nothing was. -/
def StandsAt (w v : Workspace) (l : Location) : Prop :=
  v.tree.find? l = w.tree.find? l ∨
    (w.tree.find? l = none ∧ v.tree.find? l = some .directory)

section Standing

variable {settings : Settings} {r : Request} {around : Surroundings} {s t : Session}
  {u v w : Workspace} {l root : Location} {p destination : Path}

/-- What stands twice stands. -/
theorem StandsAt.trans (h : StandsAt w v l) (h' : StandsAt v u l) : StandsAt w u l := by
  rcases h' with hsame' | ⟨hnone', hmade'⟩
  · rcases h with hsame | ⟨hnone, hmade⟩
    · exact .inl (hsame'.trans hsame)
    · exact .inr ⟨hnone, hsame'.trans hmade⟩
  · rcases h with hsame | ⟨_, hmade⟩
    · exact .inr ⟨hsame.symm.trans hnone', hmade'⟩
    · rw [hmade] at hnone'
      cases hnone'

/-- Everything stands where way is made. -/
theorem standsAt_of_makesWay (h : Workspace.MakesWay p w v) (l : Location) : StandsAt w v l := by
  rcases h.place l with hsame | ⟨hnone, hmade, _⟩
  · exact .inl hsame
  · exact .inr ⟨hnone, hmade⟩

/-- Everything stands where the directories of an install are made. -/
theorem standsAt_layOut (h : Attempt.perform (layOut destination) w = (.ok (), v)) (l : Location) :
    StandsAt w v l := by
  obtain ⟨_, u, hlibrary, hprograms⟩ := Attempt.perform_bind_eq_ok.mp h
  have hfirst := Workspace.MakesWay.makeDirectories (libraryDirectory destination) w
  have hsecond := Workspace.MakesWay.makeDirectories (programDirectory destination) u
  rw [hlibrary] at hfirst
  rw [hprograms] at hsecond
  exact (standsAt_of_makesWay hfirst l).trans (standsAt_of_makesWay hsecond l)

/-- A sound workspace in which everything at and below a place stands as it did in another. -/
structure Standing (root : Location) (w v : Workspace) : Prop where
  sound : v.Sound
  here : v.here = w.here
  stands : ∀ l, root <:+ l → StandsAt w v l

/-- After a compilation beside a place everything stands there. -/
theorem standing_afterCompiling {environment : Settings.Environment} {k : Nat} (hw : w.Sound)
    (htools : CompilesBeside around.tools settings r w.here root) :
    Standing root w (afterCompiling around.tools settings r environment k w) := by
  have hconfigured := htools.sound _ (.configure (environment.set "CC" settings.cc)) k w hw rfl
  refine ⟨htools.sound _ (.build (environment.set "CC" settings.cc)) (k + 1) _ hconfigured rfl,
    rfl, fun l hl ↦ .inl ?_⟩
  exact (htools.inside _ (.build _) (k + 1) _ hconfigured rfl l hl).trans
    (htools.inside _ (.configure _) k w hw rfl l hl)

/-- After a compile stage that went well everything stands at and below a place beside which was
compiled. -/
theorem standing_compileStage {x : Unit × String} (hs : s.files.Sound) (hbuild : r.build.IsNormal)
    (htools : r.skipCompile = false →
      CompilesBeside around.tools settings r s.files.here root)
    (h : perform (compileStage settings r) around s = (.ok x, t)) :
    Standing root s.files t.files := by
  by_cases hskip : r.skipCompile = true
  · unfold compileStage at h
    rw [if_pos hskip] at h
    cases h
    exact ⟨hs, rfl, fun l _ ↦ .inl rfl⟩
  have hcompile := Bool.eq_false_iff.mpr hskip
  obtain ⟨w, hmade, hfiles⟩ := parts_of_compileStage hcompile h
  have hway := Workspace.MakesWay.makeDirectories r.build s.files
  have hsound := hs.makeDirectories hbuild
  rw [hmade] at hway hsound
  have hbeside : CompilesBeside around.tools settings r w.here root := by
    rw [hway.here]
    exact htools hcompile
  have hstanding : Standing root w
      (afterCompiling around.tools settings r s.environment s.builds w) :=
    standing_afterCompiling hsound hbeside
  rw [hfiles]
  refine ⟨hstanding.sound, hstanding.here.trans hway.here, fun l hl ↦ ?_⟩
  exact (standsAt_of_makesWay hway l).trans (hstanding.stands l hl)

end Standing

/-! ### What differs between two runs -/

/-- Two workspaces differ only at and below a place, and there by each archive's name only in what
is no directory and is to be replaced. -/
structure LeftoversDiffer (root : Location) (replaced : String → Prop) (w v : Workspace) :
    Prop where
  left : w.Sound
  right : v.Sound
  here : v.here = w.here
  outside : ∀ l, ¬root <:+ l → v.tree.find? l = w.tree.find? l
  archives : ∀ name, isArchiveName name = true →
    v.tree.find? (name :: root) = w.tree.find? (name :: root) ∨
      replaced name ∧ w.tree.find? (name :: root) ≠ some .directory ∧
        v.tree.find? (name :: root) ≠ some .directory

namespace LeftoversDiffer

variable {settings : Settings} {r : Request} {around : Surroundings} {s s' t t' : Session}
  {w v w' v' : Workspace} {root : Location} {p directory destination : Path}
  {replaced : String → Prop}

/-- Leftovers go on to differ when everything in their place either stays in both workspaces or is
a directory in both. -/
theorem step (h : LeftoversDiffer root replaced w v) (hw : w'.Sound) (hv : v'.Sound)
    (hhere : v'.here = w'.here)
    (houtside : ∀ l, ¬root <:+ l → v'.tree.find? l = w'.tree.find? l)
    (hinside : ∀ l, root <:+ l →
      (w'.tree.find? l = w.tree.find? l ∧ v'.tree.find? l = v.tree.find? l) ∨
      (w'.tree.find? l = some .directory ∧ v'.tree.find? l = some .directory)) :
    LeftoversDiffer root replaced w' v' where
  left := hw
  right := hv
  here := hhere
  outside := houtside
  archives name hname := by
    rcases hinside (name :: root) (List.suffix_cons _ _) with ⟨hw, hv⟩ | ⟨hw, hv⟩
    · rw [hw, hv]
      exact h.archives name hname
    · exact .inl (hv.trans hw.symm)

/-- Leftovers go on to differ when a directory is made in both workspaces. -/
theorem makeDirectories (h : LeftoversDiffer root replaced w v) (hp : p.IsNormal)
    (hw : Attempt.perform (Workspace.makeDirectories p) w = (.ok (), w'))
    (hv : Attempt.perform (Workspace.makeDirectories p) v = (.ok (), v')) :
    LeftoversDiffer root replaced w' v' := by
  have hway := Workspace.MakesWay.makeDirectories p w
  have hway' := Workspace.MakesWay.makeDirectories p v
  have hsound := h.left.makeDirectories hp
  have hsound' := h.right.makeDirectories hp
  rw [hw] at hway hsound
  rw [hv] at hway' hsound'
  have halike := hway.find?_alike hway' h.here (Workspace.isDirectory_of_makeDirectories hw)
    (Workspace.isDirectory_of_makeDirectories hv)
  refine h.step hsound hsound' (hway'.here.trans (h.here.trans hway.here.symm)) ?_
    fun l _ ↦ halike l
  intro l hl
  rcases halike l with ⟨hsame, hsame'⟩ | ⟨hdirectory, hdirectory'⟩
  · rw [hsame, hsame', h.outside l hl]
  · rw [hdirectory, hdirectory']

/-- Leftovers go on to differ when the directories of an install are made in both workspaces. -/
theorem layOut (h : LeftoversDiffer root replaced w v) (hdestination : destination.IsNormal)
    (hw : Attempt.perform (layOut destination) w = (.ok (), w'))
    (hv : Attempt.perform (Build.layOut destination) v = (.ok (), v')) :
    LeftoversDiffer root replaced w' v' := by
  obtain ⟨_, u, hlibrary, hprograms⟩ := Attempt.perform_bind_eq_ok.mp hw
  obtain ⟨_, u', hlibrary', hprograms'⟩ := Attempt.perform_bind_eq_ok.mp hv
  exact (h.makeDirectories (hdestination.below _) hlibrary hlibrary').makeDirectories
    (hdestination.below _) hprograms hprograms'

/-- Leftovers go on to differ when the build tool is run beside them in both workspaces. -/
theorem afterRun (h : LeftoversDiffer root replaced w v) {tools : Toolbox}
    (htools : CompilesBeside tools settings r w.here root) {run : Invocation}
    (hrun : Compiles settings r run) (k : Nat) :
    LeftoversDiffer root replaced (afterRun tools k run w) (Build.afterRun tools k run v) :=
  h.step (htools.sound run hrun k w h.left rfl) (htools.sound run hrun k v h.right h.here) h.here
    (htools.alike run hrun k w v h.left h.right rfl h.here h.outside)
    fun l hl ↦ .inl ⟨htools.inside run hrun k w h.left rfl l hl,
      htools.inside run hrun k v h.right h.here l hl⟩

/-- Leftovers go on to differ after a compile stage that went well in both workspaces. -/
theorem compileStage {x x' : Unit × String} (h : LeftoversDiffer root replaced s.files s'.files)
    (henvironment : s'.environment = s.environment) (hbuilds : s'.builds = s.builds)
    (hbuild : r.build.IsNormal)
    (htools : r.skipCompile = false →
      CompilesBeside around.tools settings r s.files.here root)
    (hs : perform (compileStage settings r) around s = (.ok x, t))
    (hs' : perform (Build.compileStage settings r) around s' = (.ok x', t')) :
    LeftoversDiffer root replaced t.files t'.files := by
  by_cases hskip : r.skipCompile = true
  · unfold Build.compileStage at hs hs'
    rw [if_pos hskip] at hs hs'
    cases hs
    cases hs'
    exact h
  have hcompile := Bool.eq_false_iff.mpr hskip
  obtain ⟨w, hmade, hfiles⟩ := parts_of_compileStage hcompile hs
  obtain ⟨v, hmade', hfiles'⟩ := parts_of_compileStage hcompile hs'
  have hway := Workspace.MakesWay.makeDirectories r.build s.files
  rw [hmade] at hway
  have hbeside : CompilesBeside around.tools settings r w.here root := by
    rw [hway.here]
    exact htools hcompile
  rw [hfiles, hfiles', henvironment, hbuilds]
  exact ((h.makeDirectories hbuild hmade hmade').afterRun hbeside (.configure _) _).afterRun
    hbeside (.build _) _

/-- A directory has the same archives in both workspaces, unless it could hold leftovers. -/
theorem archivesIn_eq (h : LeftoversDiffer root replaced w v)
    (hdirectory : ∀ name, isArchiveName name = true →
      ¬root <:+ name :: w.place directory)
    (hw : w.isDirectory directory = true) (hv : v.isDirectory directory = true) :
    archivesIn v directory = archivesIn w directory := by
  obtain ⟨l, hlead, hl⟩ := Workspace.isDirectory_iff.mp hw
  obtain ⟨m, hlead', hm⟩ := Workspace.isDirectory_iff.mp hv
  have hplace : w.place directory = l := Workspace.place_of_resolve hlead
  have hsame : m = l := by
    rw [← Workspace.place_of_resolve hlead', Workspace.place_congr h.here, hplace]
  subst hsame
  rw [hplace] at hdirectory
  unfold archivesIn
  rw [Workspace.names_of_resolve hlead hl, Workspace.names_of_resolve hlead' hm]
  exact congrArg _ (Tree.filter_names_congr fun name hname ↦ h.outside _ (hdirectory name hname))

end LeftoversDiffer

end Vendoring.Build
