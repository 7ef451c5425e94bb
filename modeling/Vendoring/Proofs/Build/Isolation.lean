import Vendoring.Proofs.Build.Footprint
import Vendoring.Proofs.Build.Runs
import Vendoring.Proofs.Files.Separate

/-!
# Isolated builds

Two builds are isolated when neither writes at, above or below a directory of the other, and no
source is at, above or below a directory that is written. It makes no difference then which of them
is run first: each ends with the same outcome, and the same files are left. Only what clocks show,
in the outcomes and in the reports, may differ.
-/

namespace Vendoring.Build

open Vendoring.Files Vendoring.Tool
open Vendoring.Action

/-- Neither of two builds writes at, above or below a directory of the other, and no source is at,
above or below a directory that is written. -/
structure Isolated (w : Workspace) (r q : Request) : Prop where
  outputs : ∀ d ∈ r.outputs, ∀ e ∈ q.outputs, Apart (w.place d) (w.place e)
  sources : ∀ d ∈ r.outputs ++ q.outputs, ∀ s ∈ [r.source, q.source],
    Apart (w.place d) (w.place s)

instance (w : Workspace) (r q : Request) : Decidable (Isolated w r q) :=
  decidable_of_iff
    ((∀ d ∈ r.outputs, ∀ e ∈ q.outputs, Apart (w.place d) (w.place e)) ∧
      ∀ d ∈ r.outputs ++ q.outputs, ∀ s ∈ [r.source, q.source], Apart (w.place d) (w.place s))
    ⟨fun h ↦ ⟨h.1, h.2⟩, fun h ↦ ⟨h.outputs, h.sources⟩⟩

namespace Isolated

variable {w : Workspace} {r q : Request}

/-- The first of two isolated builds does not write where its source is. -/
theorem apart_source (h : Isolated w r q) :
    ∀ d ∈ r.outputs, Apart (w.place d) (w.place r.source) :=
  fun d hd ↦ h.sources d (List.mem_append_left _ hd) r.source List.mem_cons_self

/-- Being isolated does not depend on an order. -/
theorem symm (h : Isolated w r q) : Isolated w q r where
  outputs d hd e he := (h.outputs e he d hd).symm
  sources d hd s hs := h.sources d
    (List.mem_append.mpr (List.mem_append.mp hd).symm) s (by
      rw [List.mem_cons, List.mem_singleton] at hs ⊢
      exact hs.symm)

/-- The first of two isolated builds writes apart from where the second one begins. -/
theorem apart_roots (h : Isolated w r q) {hr hq} :
    ∀ d ∈ (r.footprint w hr).writes, ∀ root ∈ (q.footprint w hq).roots, Apart d root := by
  intro d hd root hroot
  obtain ⟨p, hp, rfl⟩ := List.mem_map.mp hd
  rcases List.mem_append.mp hroot with hwritten | hread
  · obtain ⟨e, he, rfl⟩ := List.mem_map.mp hwritten
    exact h.outputs p hp e he
  · rw [List.mem_singleton.mp hread]
    exact h.sources p (List.mem_append_left _ hp) q.source
      (List.mem_cons_of_mem _ List.mem_cons_self)

/-- The footprints of isolated builds are separate. -/
theorem separate (h : Isolated w r q) {hr hq} :
    (r.footprint w hr).Separate (q.footprint w hq) :=
  ⟨h.apart_roots, h.symm.apart_roots⟩

end Isolated

/-! ### Reports -/

namespace ReportedAt

variable {around around' : Surroundings} {r : Request} {w v w' : Workspace} {l : Location}

/-- Two reports of one request can be swapped. -/
theorem symm (h : ReportedAt around around' r r.profile w v l) (hhere : v.here = w.here) :
    ReportedAt around' around r r.profile v w l := by
  obtain ⟨hl, result, result', rfl, hsame, hw, hv⟩ := h
  have hrequest : result'.request = result.request := (congrArg Result.request hsame :)
  refine ⟨hl.trans (Workspace.place_congr hhere _).symm, result', result, hrequest, ?_, hv, hw⟩
  rw [hsame]
  rfl

/-- A report is where it is as long as the place holds the same. -/
theorem congr_left {profile} (h : ReportedAt around around' r profile w v l)
    (hhere : w'.here = w.here) (hl : w'.tree.find? l = w.tree.find? l) :
    ReportedAt around around' r profile w' v l := by
  obtain ⟨hplace, result, result', hresult, hsame, hw, hv⟩ := h
  exact ⟨hplace.trans (Workspace.place_congr hhere _).symm, result, result', hresult, hsame,
    hl.trans hw, hv⟩

end ReportedAt

section Runs

variable {settings : Settings} {r : Request} {around : Surroundings} {w₀ v₀ w v : Workspace}
  {hapart : ∀ d ∈ r.outputs, Apart (w₀.place d) (w₀.place r.source)}

/-- A report is written at its name in the destination, which is a directory. -/
theorem report_place (hw : w.Sound) {l : Location}
    (hlead : w.resolve (r.destination.below reportFileName) = .ok l)
    (hfree : w.tree.find? l ≠ some .directory) :
    l = reportFileName :: w.place r.destination ∧
      w.tree.find? (w.place r.destination) = some .directory := by
  have hname : IsName reportFileName := by decide
  have hplace := Workspace.place_of_resolve hlead
  rw [Path.below_of_isPart _ hname.toIsPart, Workspace.place_entry _ _ hname.ne_dots] at hplace
  obtain ⟨_, _, rfl, habove, _⟩ := Workspace.exists_cons_of_resolve hw hlead hfree
  cases hplace
  exact ⟨rfl, habove⟩

/-- Files that look alike but for the reports are what a build leaves of files that look alike. -/
theorem ButForReports.leaves {around' : Surroundings} {profile : Instrumentation.Profile}
    (h : ButForReports around around' r profile
      (Workspace.Alike (r.footprint w₀ hapart) w₀ v₀) w v) :
    Workspace.Leaves (r.footprint w₀ hapart) (ReportedAt around around' r profile w v) w₀ v₀
      w v := by
  obtain halike | ⟨u, x, m, result, result', halike, hlead, hfree, hresult, hreports, rfl, rfl⟩ := h
  · exact halike.leaves _
  have hname : IsName reportFileName := by decide
  have hwrites : (r.footprint w₀ hapart).Writes (u.place r.destination) := by
    rw [writes_footprint_iff, halike.left_place]
    exact ⟨r.destination, List.mem_cons_of_mem _ List.mem_cons_self, List.suffix_rfl⟩
  obtain ⟨rfl, hdirectory⟩ := report_place halike.left hlead hfree
  have hsame := halike.find?_eq hwrites.covers
  have hfree' := halike.find?_eq (hwrites.of_suffix (List.suffix_cons reportFileName _)).covers
  exact {
    left := halike.left.put hname hdirectory hfree _
    right := halike.right.put hname (hsame ▸ hdirectory) (hfree' ▸ hfree) _
    leftHere := halike.leftHere
    rightHere := halike.rightHere
    within := by
      intro l hl
      by_cases hreport : l = reportFileName :: u.place r.destination
      · subst hreport
        refine .inr ⟨(Workspace.place_of_resolve hlead).symm, result, result', hresult, hreports,
          ?_, ?_⟩
        · exact Tree.find?_put_self _ (List.cons_ne_nil _ _) _
        · exact Tree.find?_put_self _ (List.cons_ne_nil _ _) _
      · left
        dsimp only
        rw [Tree.find?_put_of_ne _ hreport, Tree.find?_put_of_ne _ hreport]
        exact halike.within l hl
    outside := by
      intro l hl
      have hreport : l ≠ reportFileName :: u.place r.destination := by
        rintro rfl
        exact hl (hwrites.of_suffix (List.suffix_cons _ _))
      dsimp only
      rw [Tree.find?_put_of_ne _ hreport, Tree.find?_put_of_ne _ hreport]
      exact halike.outside l hl }

/-- Two runs of a build, from sessions whose files look alike to it, end with the same outcome but
for the times of stages, and leave files that look alike but for the report. -/
theorem runBuild_leaves {s s' : Session}
    {hapart : ∀ d ∈ r.outputs, Apart (s.files.place d) (s.files.place r.source)}
    (hinside : KeepsInside settings r)
    (htools : CompilesInside around.tools settings r s.files.here)
    (henvironment : s'.environment = s.environment)
    (halike : Workspace.Alike (r.footprint s.files hapart) s.files s'.files s.files s'.files)
    (t t' : Times) :
    let left := perform (runBuild settings r) (around.showing t) s
    let right := perform (runBuild settings r) (around.showing t') s'
    left.1.map Result.untimed = right.1.map Result.untimed ∧
      left.2.environment = s.environment ∧
      Workspace.Leaves (r.footprint s.files hapart)
        (ReportedAt (around.showing t) (around.showing t') r r.profile left.2.files
          right.2.files) s.files s'.files left.2.files right.2.files := by
  intro left right
  have hpaired := paired_runBuild (goesAlike_alike t t' s.environment hinside htools)
    (.refl r.source r.profile) s s' ⟨halike, rfl, henvironment⟩
  have hends : EndsAlike _ _ left right := hpaired
  generalize left = p at hends ⊢
  generalize right = q at hends ⊢
  cases hends with
  | ok h =>
      obtain ⟨rfl, hsame, hfiles, henvironment, _⟩ := h
      exact ⟨congrArg Except.ok hsame.symm, henvironment, hfiles.leaves⟩
  | error h => exact ⟨rfl, h.2.1, h.1.leaves⟩

end Runs

/-- It makes no difference which of two isolated builds is run first: each ends with the same
outcome but for the times of stages, and the same files are left but for what the reports tell of
times. -/
theorem runBuild_order_irrelevant {settings settings' : Settings} {r q : Request}
    {around : Surroundings} {s : Session} (hsound : s.files.Sound)
    (hinside : KeepsInside settings r) (hinside' : KeepsInside settings' q)
    (hisolated : Isolated s.files r q)
    (htools : CompilesInside around.tools settings r s.files.here)
    (htools' : CompilesInside around.tools settings' q s.files.here) (t₁ t₂ t₃ t₄ : Times) :
    let first := perform (runBuild settings r) (around.showing t₁) s
    let second := perform (runBuild settings' q) (around.showing t₂) first.2
    let first' := perform (runBuild settings' q) (around.showing t₃) s
    let second' := perform (runBuild settings r) (around.showing t₄) first'.2
    first.1.map Result.untimed = second'.1.map Result.untimed ∧
      second.1.map Result.untimed = first'.1.map Result.untimed ∧
      second.2.files.here = second'.2.files.here ∧
      ∀ l, second.2.files.tree.find? l = second'.2.files.tree.find? l ∨
        ReportedAt (around.showing t₁) (around.showing t₄) r r.profile second.2.files
          second'.2.files l ∨
        ReportedAt (around.showing t₂) (around.showing t₃) q q.profile second.2.files
          second'.2.files l := by
  intro first second first' second'
  have hsep : (r.footprint s.files hisolated.apart_source).Separate
      (q.footprint s.files hisolated.symm.apart_source) := hisolated.separate
  -- What either build leaves looks to the other one as it did at first.
  obtain ⟨_, henvironment, hleft⟩ :=
    runBuild_leaves hinside htools rfl (.refl hsound) t₁ t₁
  obtain ⟨_, henvironment', hleft'⟩ :=
    runBuild_leaves hinside' htools' rfl (.refl hsound) t₃ t₃
  obtain ⟨hsame, _, hlast⟩ := runBuild_leaves hinside htools henvironment'
    (hleft'.alike hsep.symm hsound) t₁ t₄
  obtain ⟨hsame', _, hlast'⟩ := runBuild_leaves hinside' htools' henvironment
    (hleft.alike hsep hsound) t₃ t₂
  have hhere : second.2.files.here = second'.2.files.here :=
    hlast'.rightHere.trans hlast.rightHere.symm
  refine ⟨hsame, hsame'.symm, hhere, fun l ↦ ?_⟩
  obtain h | ⟨hreport, hkept⟩ | ⟨hreport, hkept⟩ := hlast.find?_eq_or hsep hlast' l
  · exact .inl h
  · exact .inr (.inl (hreport.congr_left (hlast'.rightHere.trans hlast.leftHere.symm) hkept))
  · refine .inr (.inr ?_)
    have hcongr := hreport.congr_left (hlast.rightHere.trans hlast'.leftHere.symm) hkept
    exact hcongr.symm hhere

/-! ### Sample builds -/

/-- Sample surroundings with a tool that leaves an archive where it builds. -/
def sampleArchiving : Surroundings where
  tools := {
    listSymbols := sampleSurroundings.tools.listSymbols
    build := fun _ ↦ archivingBuild }
  clock := sampleSurroundings.clock
  now := sampleSurroundings.now
  processors := none
  project := sampleSurroundings.project
  located := none
  loadable := []

/-- A sample request whose destination is below a directory that is missing. -/
def sampleMaking : Request :=
  { sampleRequest with build := .ofString "other", destination := .ofString "opt/other" }

/-- A sample request whose destination is below the same missing directory. -/
def sampleBeside : Request := { sampleRequest with destination := .ofString "opt/out" }

/-- A sample request that reaches its source through that missing directory. -/
def sampleRoundabout : Request := { sampleRequest with source := .ofString "opt/../src" }

/-- Two sample builds, whose destinations have a missing directory above them in common, end alike
in both orders. -/
theorem runBuild_sample_order_irrelevant :
    let s := sampleSession sampleFiles
    let run := fun r ↦
      perform (runBuild { sampleSettings with archiveSubdirs := ["."] } r) sampleArchiving
    let making := { sampleMaking with skipCompile := false }
    let beside := { sampleBeside with skipCompile := false }
    (run making s).1.map Result.untimed = (run making (run beside s).2).1.map Result.untimed ∧
      (run beside (run making s).2).1.map Result.untimed =
        (run beside s).1.map Result.untimed := by
  intro s run making beside
  have hsound : s.files.Sound :=
    Workspace.sound_of_entries (by decide +kernel) (by decide +kernel)
  have htools : ∀ k run w, sampleArchiving.tools.build k run w = archivingBuild run w :=
    fun _ _ _ ↦ rfl
  have hmaking : KeepsInside { sampleSettings with archiveSubdirs := ["."] } making :=
    ⟨by decide, by decide, by decide, by decide, by decide, by decide, by decide⟩
  have hbeside : KeepsInside { sampleSettings with archiveSubdirs := ["."] } beside :=
    ⟨by decide, by decide, by decide, by decide, by decide, by decide, by decide⟩
  have hsame := runBuild_order_irrelevant hsound hmaking hbeside (by decide +kernel)
    (compilesInside_archiving htools _ hmaking.build _)
    (compilesInside_archiving htools _ hbeside.build _)
    ⟨sampleArchiving.clock, sampleArchiving.now⟩ ⟨sampleArchiving.clock, sampleArchiving.now⟩
    ⟨sampleArchiving.clock, sampleArchiving.now⟩ ⟨sampleArchiving.clock, sampleArchiving.now⟩
  exact ⟨hsame.1, hsame.2.1⟩

/-- The order of isolated builds can make a difference when a path leads through a directory that is
missing and up again: one build makes that directory, and without it the other one fails. -/
theorem runBuild_sample_order_matters :
    let s := sampleSession sampleFiles
    let run := fun r ↦ perform (runBuild sampleSettings r) sampleArchiving
    Isolated s.files sampleMaking sampleRoundabout ∧
      (∀ name ∈ sampleSettings.headerDir :: sampleSettings.metadataFilename ::
        sampleSettings.archiveSubdirs, Path.StaysInside name) ∧
      CompilesInside sampleArchiving.tools sampleSettings sampleMaking s.files.here ∧
      CompilesInside sampleArchiving.tools sampleSettings sampleRoundabout s.files.here ∧
      (run sampleRoundabout (run sampleMaking s).2).1.toOption.map Result.success = some true ∧
      (run sampleRoundabout s).1.toOption.map Result.success = some false := by
  intro s run
  have htools : ∀ k run w, sampleArchiving.tools.build k run w = archivingBuild run w :=
    fun _ _ _ ↦ rfl
  exact ⟨by decide +kernel, by decide, compilesInside_archiving htools _ (by decide) _,
    compilesInside_archiving htools _ (by decide) _, by decide +kernel, by decide +kernel⟩

end Vendoring.Build
