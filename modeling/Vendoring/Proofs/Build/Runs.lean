import Vendoring.Proofs.Build.Stages

/-!
# Runs of a build

A build taken apart into its four stages and the report, and what holds of every run of all parts:
the names of its stages, the invariant of its progress, and the tools it runs.
-/

namespace Vendoring.Build

open Vendoring.Files Vendoring.Tool Vendoring.Provenance
open Vendoring.Action

/-! ### A build taken apart -/

section Parts

variable (settings : Settings) (r : Request)

/-- A build up to its compile stage. -/
def throughCompile : Action (Progress Unit) :=
  (Progress.start ()).next "compile" fun _ ↦ compileStage settings r

/-- A build up to its install stage. -/
def throughInstall : Action (Progress Unit) := do
  (← throughCompile settings r).next "install" fun _ ↦ installStage settings r

/-- A build up to its probe stage. -/
def throughProbe : Action (Progress Probe) := do
  (← throughInstall settings r).next "probe" fun _ ↦ probeStage settings r

/-- A build up to its emit stage. -/
def throughEmit : Action (Progress Path) := do
  (← throughProbe settings r).next "emit" (emitStage settings r)

/-- The sessions after each stage of a build. -/
def sessionsAfterStages (around : Surroundings) (s : Session) : List Session :=
  [(perform (throughCompile settings r) around s).2,
    (perform (throughInstall settings r) around s).2,
    (perform (throughProbe settings r) around s).2,
    (perform (throughEmit settings r) around s).2]

end Parts

/-- A build that gave a result, stage by stage. -/
structure Run (settings : Settings) (r : Request) (around : Surroundings) (s : Session)
    (result : Result) (s' : Session) where
  compiled : Progress Unit
  installed : Progress Unit
  probed : Progress Probe
  emitted : Progress Path
  afterCompile : Session
  afterInstall : Session
  afterProbe : Session
  afterEmit : Session
  compile : perform (throughCompile settings r) around s = (.ok compiled, afterCompile)
  install : perform (compiled.next "install" fun _ ↦ installStage settings r) around afterCompile =
    (.ok installed, afterInstall)
  probe : perform (installed.next "probe" fun _ ↦ probeStage settings r) around afterInstall =
    (.ok probed, afterProbe)
  emit : perform (probed.next "emit" (emitStage settings r)) around afterProbe =
    (.ok emitted, afterEmit)
  request_eq : result.request = r
  stages_eq : result.stages = emitted.stages
  record_eq : result.record = probed.carried.map (recordOf r)
  recordPath_eq : result.recordPath = emitted.carried
  report : perform (reportResult result) around afterEmit = (.ok (), s')

variable {settings : Settings} {r : Request} {around : Surroundings} {s s' : Session}
  {result : Result}

/-- A build that gives a result goes through all of its stages and the report. -/
theorem nonempty_run (h : perform (runBuild settings r) around s = (.ok result, s')) :
    Nonempty (Run settings r around s result s') := by
  obtain ⟨compiled, t₁, hcompile, h⟩ := perform_bind_eq_ok.mp h
  obtain ⟨installed, t₂, hinstall, h⟩ := perform_bind_eq_ok.mp h
  obtain ⟨probed, t₃, hprobe, h⟩ := perform_bind_eq_ok.mp h
  obtain ⟨emitted, t₄, hemit, h⟩ := perform_bind_eq_ok.mp h
  obtain ⟨_, t₅, hreport, h⟩ := perform_bind_eq_ok.mp h
  rw [perform_pure] at h
  cases h
  exact ⟨⟨compiled, installed, probed, emitted, t₁, t₂, t₃, t₄, hcompile, hinstall, hprobe, hemit,
    rfl, rfl, rfl, rfl, hreport⟩⟩

namespace Run

variable (run : Run settings r around s result s')
include run

/-- The stages up to the install stage. -/
theorem throughInstall_eq :
    perform (throughInstall settings r) around s = (.ok run.installed, run.afterInstall) :=
  perform_bind_eq_ok.mpr ⟨_, _, run.compile, run.install⟩

/-- The stages up to the probe stage. -/
theorem throughProbe_eq :
    perform (throughProbe settings r) around s = (.ok run.probed, run.afterProbe) :=
  perform_bind_eq_ok.mpr ⟨_, _, run.throughInstall_eq, run.probe⟩

/-- The stages up to the emit stage. -/
theorem throughEmit_eq :
    perform (throughEmit settings r) around s = (.ok run.emitted, run.afterEmit) :=
  perform_bind_eq_ok.mpr ⟨_, _, run.throughProbe_eq, run.emit⟩

/-- The sessions after the stages are those that the run went through. -/
theorem sessionsAfterStages_eq : sessionsAfterStages settings r around s =
    [run.afterCompile, run.afterInstall, run.afterProbe, run.afterEmit] := by
  unfold sessionsAfterStages
  rw [run.compile, run.throughInstall_eq, run.throughProbe_eq, run.throughEmit_eq]

/-- The last progress of a run is sound. -/
theorem sound_emitted :
    run.emitted.Sound (sessionsAfterStages settings r around s) run.afterEmit := by
  rw [run.sessionsAfterStages_eq]
  have hcompiled := (Progress.sound_start () s).next run.compile
  have hinstalled := hcompiled.next run.install
  have hprobed := hinstalled.next run.probe
  exact hprobed.next run.emit

/-- The stages of a run have the names of the stages of a build, in order. -/
theorem names_stages :
    result.stages.map Stage.name = ["compile", "install", "probe", "emit"] := by
  rw [run.stages_eq, Progress.names_next run.emit, Progress.names_next run.probe,
    Progress.names_next run.install, Progress.names_next run.compile]
  rfl

/-- Two stages come before the probe stage. -/
theorem length_installed : run.installed.stages.length = 2 := by
  rw [Progress.length_next run.install, Progress.length_next run.compile]
  rfl

/-- Three stages come before the emit stage. -/
theorem length_probed : run.probed.stages.length = 3 := by
  rw [Progress.length_next run.probe, run.length_installed]

/-- A run has stages. -/
theorem stages_ne_nil : result.stages ≠ [] := by
  intro hnil
  have hnames := run.names_stages
  rw [hnil] at hnames
  cases hnames

/-- A run is within every frame that its compile stage and listings of symbols are within and that
leaves the tree of files open. -/
theorem holds {F : Frame} (hF : F.LeavesTreeOpen) (hlistings : AllowsListings settings F)
    (hcompiling : Within F (compileStage settings r)) : F.Holds s s' := by
  have hcompile : F.Holds s run.afterCompile :=
    (Progress.within_next (fun _ ↦ hcompiling) _).holds run.compile
  have hinstall := (Progress.within_next (fun _ ↦ within_installStage hF r) _).holds run.install
  have hprobe := (Progress.within_next (fun _ ↦ within_probeStage hlistings r) _).holds run.probe
  have hemit := (Progress.within_next (within_emitStage hF r) _).holds run.emit
  have hreport := (within_reportResult hF result).holds run.report
  apply F.trans hcompile
  apply F.trans hinstall
  apply F.trans hprobe
  exact F.trans hemit hreport

/-- A run leaves the current directory as it is. -/
theorem here_eq : s'.files.here = s.files.here :=
  run.holds Frame.leavesTreeOpen_sameHere allowsListings_sameHere
    (within_compileStage Frame.leavesTreeOpen_sameHere allowsBuilds_sameHere r)

/-- A build that skips compiling runs no build tool, and other tools only to list symbols. -/
theorem onlyRuns_of_skipCompile (hskip : r.skipCompile = true) :
    (Frame.onlyRuns (IsListing settings)).Holds s s' :=
  run.holds (Frame.leavesTreeOpen_onlyRuns _) allowsListings_onlyRuns
    (within_compileStage_of_skipCompile r hskip)

/-- Saving the report runs no tool. -/
theorem onlyRuns_report : (Frame.onlyRuns fun _ ↦ False).Holds run.afterEmit s' :=
  (within_reportResult (Frame.leavesTreeOpen_onlyRuns _) result).holds run.report

/-- The emit stage is not skipped only when the probe stage handed on what the record is from. -/
theorem record_of_emit_ne_skipped {stage : Stage} (hstage : result.stages[3]? = some stage)
    (hrun : stage.status ≠ .skipped) :
    ∃ probe, run.probed.carried = some probe ∧ result.record = some (recordOf r probe) := by
  cases hcarried : run.probed.carried with
  | some probe =>
      refine ⟨probe, rfl, ?_⟩
      rw [run.record_eq, hcarried]
      rfl
  | none =>
      exfalso
      have hemit := run.emit
      rw [Progress.perform_next_of_none hcarried] at hemit
      have hlength := run.length_probed
      have hstages : result.stages = run.probed.stages ++ [.skipped "emit"] := by
        simp only [Prod.mk.injEq, Except.ok.injEq] at hemit
        rw [run.stages_eq, ← hemit.1]
      rw [hstages, List.getElem?_append_right (Nat.le_of_eq hlength), hlength] at hstage
      cases hstage
      exact hrun rfl

end Run

/-! ### A sample build -/

/-- Settings for a library of one output directory. -/
def sampleSettings : Settings :=
  ⟨"clang", "cmake", 1, none, "nm", "mark", none, ["crypto"], "include", "vendor.toml", none, false⟩

/-- A request that relies on output built before. -/
def sampleRequest : Request :=
  ⟨"lib", "1.0", .ofString "src", .ofString "build", .ofString "out", .plain, ["A"], [], true⟩

/-- Surroundings in which listing an archive gives its content and building takes too long. -/
def sampleSurroundings : Surroundings where
  tools := {
    listSymbols := fun _ content ↦ .exited 0 (content.getD []) []
    build := fun _ _ files ↦ (.timedOut, files.tree) }
  clock := fun _ ↦ .zero
  now := "2025-01-01T00:00:00+00:00"
  processors := none
  project := Path.here
  located := none
  loadable := []

/-- A session that starts with files. -/
def sampleSession (files : Workspace) : Session where
  files := files
  environment := ⟨[]⟩
  adopted := true
  host := .ofLibraries []
  readings := 0
  builds := 0
  calls := []
  console := []
  output := ""

/-- Files with a source's headers and with an archive built from it that carries the marker. -/
def sampleFiles : Workspace :=
  ((⟨.empty, []⟩ : Workspace).plant (.ofString "src/include/lib.h") (.file [])).plant
    (.ofString "build/crypto/lib.a") (.file (Text.Utf8.encode "mark"))

/-- A name that nothing can have, for it is too long. -/
def longName : String := String.ofList (List.replicate 300 'x')

theorem nameLimit_lt_length_longName : nameLimit < longName.length := by
  unfold longName
  rw [String.length_ofList, List.length_replicate]
  decide

theorem notMem_longName {c : Char} (hc : c ≠ 'x') : c ∉ longName.toList := by
  unfold longName
  rw [String.toList_ofList]
  exact fun h ↦ hc (List.eq_of_mem_replicate h)

theorem longName_ne {name : String} (h : name.length ≤ nameLimit) : longName ≠ name :=
  fun heq ↦ absurd nameLimit_lt_length_longName (heq ▸ Nat.not_lt.mpr h)

end Vendoring.Build
