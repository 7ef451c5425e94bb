import Vendoring.Proofs.Build.FailStop
import Vendoring.Proofs.Build.Scanning
import Vendoring.Proofs.Provenance.Storage

/-!
# The record of a successful build

What a successful build leaves behind: the record of what was requested and of what the scan found,
in the file that the result names, where loading gives it back.
-/

namespace Vendoring.Build

open Vendoring.Text Vendoring.Files Vendoring.Tool Vendoring.Provenance Vendoring.Instrumentation
open Vendoring.Action

variable {settings : Settings} {r : Request} {around : Surroundings} {s s' : Session}
  {result : Result}

/-- A successful build has handed on what its scan found and where it put the record, and the
record stands there before the report is saved. -/
theorem Run.exists_handed (run : Run settings r around s result s')
    (hsuccess : result.success = true) :
    ∃ probe path stage u v, run.probed.carried = some probe ∧ run.emitted.carried = some path ∧
      result.stages[2]? = some stage ∧ u.files = run.afterInstall.files ∧
      perform (probeStage settings r) around u = (.ok (probe, stage.detail), v) ∧
      path = r.destination.below settings.metadataFilename ∧ Failure.ofPath? path = none ∧
      run.afterEmit.files.content? path = some (Utf8.encode (recordOf r probe).render) := by
  have hok := (result.success_iff run.stages_ne_nil).mp hsuccess
  rw [run.stages_eq] at hok
  obtain ⟨path, hpath⟩ := run.sound_emitted.exists_carried hok
  obtain ⟨probe, last, u₄, v₄, hprobe, hlast, _, hafter, hemit⟩ :=
    Progress.ran_of_carried run.emit hpath
  obtain ⟨_, stage, u₃, v₃, _, hstage, hbefore, _, hscan⟩ :=
    Progress.ran_of_carried run.probe hprobe
  have hlength := run.length_installed
  obtain ⟨path', t, hwrite, hdone⟩ := perform_bind_eq_ok.mp hemit
  simp only [perform_pure, Prod.mk.injEq, Except.ok.injEq] at hdone
  obtain ⟨⟨rfl, _⟩, rfl⟩ := hdone
  obtain ⟨hwhere, htaken, hcontent⟩ := content?_writeRecord hwrite
  have hkept : run.afterEmit.files = t.files := Frame.of_sameWork .sameFiles hafter
  refine ⟨probe, path', stage, u₃, v₃, hprobe, hpath, ?_, Frame.of_sameWork .sameFiles hbefore,
    hscan, hwhere, htaken, ?_⟩
  · rw [run.stages_eq, hlast, hstage, List.append_assoc,
      List.getElem?_append_right (Nat.le_of_eq hlength), hlength]
    rfl
  · rw [hkept]
    exact hcontent

/-- The record of a successful build is in the file that its result names, from which it can be
loaded. It lists what was requested, and the tags requested but for the claimer; the claimer is
among its tags exactly when the scan of the installed archives found the marker, up to the first
archive for which the symbol tool was not there. The detail of the probe stage tells which. -/
theorem runBuild_emits_record (settings : Settings) (r : Request) (around : Surroundings)
    (s s' : Session) (result : Result)
    (h : perform (runBuild settings r) around s = (.ok result, s'))
    (hsuccess : result.success = true)
    (hother : s.files.place (r.destination.below settings.metadataFilename) ≠
      s.files.place (r.destination.below reportFileName)) :
    let w := (perform (throughInstall settings r) around s).2.files
    let outcome := fun archive : Path ↦ around.tools.listSymbols
      ⟨[settings.nmTool, archive.text], settings.probeTimeout, none⟩ (w.content? archive)
    ∃ m path, result.record = some m ∧ result.recordPath = some path ∧
      path = r.destination.below settings.metadataFilename ∧
      perform (loadRecord path) around s' = (.ok m, s') ∧
      m.libname = r.libname ∧ m.version = r.version ∧
      m.knownVulnerabilities = r.knownVulnerabilities ∧
      m.fixedVulnerabilities = r.fixedVulnerabilities ∧
      (∀ tag, tag ≠ .claimer → (tag ∈ m.instrumentation ↔ r.profile.requests tag = true)) ∧
      (.claimer ∈ m.instrumentation ↔
        ∃ archive ∈ (archivesIn w (r.destination.below "lib")).takeWhile
            (fun archive ↦ outcome archive ≠ .notStarted .notFound),
          ∃ output errors, outcome archive = .exited 0 output errors ∧
            Utf8.encode settings.claimerMarker <:+: output) ∧
      ∃ stage, result.stages[2]? = some stage ∧ stage.name = "probe" ∧
        (.claimer ∈ m.instrumentation ↔ ∃ k : Nat, 1 ≤ k ∧ stage.detail =
          settings.claimerMarker ++ (" found in " ++ toString k ++ " archive(s)")) ∧
        (.claimer ∉ m.instrumentation ↔ stage.detail = settings.claimerMarker ++ " not found") := by
  intro w outcome
  obtain ⟨run⟩ := nonempty_run h
  obtain ⟨probe, path, stage, u, v, hprobe, hpath, hstage, hfiles, hscan, hwhere, htaken,
    hcontent⟩ := run.exists_handed hsuccess
  have hw : u.files = w := by
    rw [hfiles]
    show _ = (perform (throughInstall settings r) around s).2.files
    rw [run.throughInstall_eq]
  obtain ⟨hmatched, hdetail⟩ := probeStage_eq hscan
  rw [hw] at hmatched hdetail
  have hname : stage.name = "probe" := by
    have hnames := congrArg (·[2]?) run.names_stages
    simp only [List.getElem?_map, hstage, Option.map_some] at hnames
    simpa using hnames
  have hclaimer : Tag.claimer ∈ (recordOf r probe).instrumentation ↔
      matchedIn settings around w (archivesIn w (libraryDirectory r.destination)) ≠ [] := by
    refine claimer_mem_carriedTags.trans ?_
    unfold Probe.claimerPresent
    rw [hmatched, Bool.not_eq_true', List.isEmpty_eq_false_iff, Ne, List.map_eq_nil_iff]
  refine ⟨recordOf r probe, path, ?_, ?_, hwhere, ?_, rfl, rfl, rfl, rfl, ?_, ?_, stage, hstage,
    hname, ?_, ?_⟩
  · rw [run.record_eq, hprobe]
    rfl
  · rw [run.recordPath_eq, hpath]
  · apply perform_loadRecord htaken
    refine content?_reportResult hcontent run.report ?_
    apply Workspace.sameEntry_of_place_ne
    rw [hwhere, run.request_eq, Workspace.place_congr run.here_eq,
      Workspace.place_congr run.here_eq]
    exact hother
  · intro tag htag
    exact mem_carriedTags_of_ne htag
  · rw [hclaimer]
    exact matchedIn_ne_nil_iff settings around w _
  · rw [hclaimer]
    exact matched_ne_nil_iff_detail hdetail
  · rw [hclaimer, Classical.not_not]
    exact matched_eq_nil_iff_detail hdetail

/-- A build of output with a marked archive leaves a record with the claimer. -/
theorem runBuild_sample_emits_record : ∃ result s' m,
    perform (runBuild sampleSettings sampleRequest) sampleSurroundings
      (sampleSession sampleFiles) = (.ok result, s') ∧
    result.record = some m ∧ Tag.claimer ∈ m.instrumentation ∧
    perform (loadRecord (.ofString "out/vendor.toml")) sampleSurroundings s' = (.ok m, s') := by
  have hgiven : (perform (runBuild sampleSettings sampleRequest) sampleSurroundings
      (sampleSession sampleFiles)).1.toOption.any (fun result ↦ result.success &&
        result.record.any (Tag.claimer ∈ ·.instrumentation)) = true := by
    decide +kernel
  obtain ⟨result, s', h, hresult⟩ := exists_of_any_toOption hgiven
  obtain ⟨hsuccess, hclaimer⟩ := Bool.and_eq_true_iff.mp hresult
  have hother : sampleFiles.place (.ofString "out/vendor.toml") ≠
      sampleFiles.place (.ofString "out/vendor_build_report.json") := by
    decide +kernel
  obtain ⟨m, path, hrecord, _, rfl, hload, _⟩ :=
    runBuild_emits_record _ _ _ _ _ _ h hsuccess hother
  refine ⟨result, s', m, h, hrecord, ?_, hload⟩
  simpa [hrecord] using hclaimer

end Vendoring.Build
