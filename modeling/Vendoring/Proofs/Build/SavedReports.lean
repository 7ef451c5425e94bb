import Vendoring.Proofs.Build.Collecting
import Vendoring.Proofs.Build.Recording
import Vendoring.Proofs.Build.ResultFields

/-!
# Saved reports

A report that was saved can be read: it is ASCII, its JSON is the report, and the result is read
back from the part of it that holds the build. A build whose report the files do not allow to be
saved gives the result that it gives otherwise, provided that the line which tells why can be shown.
-/

namespace Vendoring.Build

open Vendoring.Data Vendoring.Files Vendoring.Text
open Vendoring.Action

variable {settings : Settings} {r : Request} {around : Surroundings} {s t : Session}
  {result : Result}

/-! ### The file -/

/-- The content of a report holds a result, and tells of it whether it is a success and which stages
failed, in their order. -/
structure Presents (entries : Entries) (result : Result) : Prop where
  build : ∃ fields, entries.get? "build" = some (.table fields) ∧
    Result.ofFields fields = .valid result
  success : entries.get? "success" = some (.bool result.success)
  failedStages : entries.get? "failed_stages" = some (.texts result.failedNames)

/-- The report of a result with paths in normal form holds the result. -/
theorem Result.HasNormalPaths.presents (h : result.HasNormalPaths) (around : Surroundings) :
    ∃ entries, reportIn around result = .table entries ∧ Presents entries result := by
  obtain ⟨fields, hfields, hread⟩ := h.ofFields (around.listing.perm result.request.profile)
  exact ⟨_, rfl, ⟨fields, congrArg some hfields, hread⟩, rfl, rfl⟩

/-- A file is ASCII, and its JSON is the report of a result as it is made in surroundings, from
which the result is read back. -/
def HoldsReport (files : Workspace) (path : Path) (around : Surroundings) (result : Result) :
    Prop :=
  ∃ bytes text entries, files.content? path = some bytes ∧ (∀ b ∈ bytes, b.toNat < 0x80) ∧
    Utf8.decode bytes = .ok text ∧ Json.read? text = some (.table entries) ∧
    reportIn around result = .table entries ∧ Presents entries result

/-- A report that was saved can be read. -/
theorem holdsReport_of_saveReport {directory path : Path} (hresult : result.HasNormalPaths)
    (h : perform (saveReport result directory) around s = (.ok path, t)) :
    path = directory.below reportFileName ∧ HoldsReport t.files path around result := by
  obtain ⟨hpath, hcontent⟩ := content?_saveReport h
  obtain ⟨entries, hreport, hpresents⟩ := hresult.presents around
  have hjson : Json.IsJson (reportIn around result) := isJson_report around.now result
  obtain ⟨text, hdecode, hread⟩ := hjson.read?_of_encode Json.Layout.isBlank_indented 0
  rw [hreport] at hread
  exact ⟨hpath, _, text, entries, hcontent,
    fun b hb ↦ hjson.lt_of_mem_encode Json.Layout.isBlank_indented hb, hdecode, hread, hreport,
    hpresents⟩

/-! ### Builds -/

/-- The stages of a build, up to its result, without the report. -/
def runStages (settings : Settings) (r : Request) : Action Result := do
  let compiled ← (Progress.start ()).next "compile" fun _ ↦ compileStage settings r
  let installed ← compiled.next "install" fun _ ↦ installStage settings r
  let probed ← installed.next "probe" fun _ ↦ probeStage settings r
  let emitted ← probed.next "emit" (emitStage settings r)
  return ⟨r, emitted.stages, probed.carried.map (recordOf r), emitted.carried⟩

/-- A build runs its stages and reports their result. -/
theorem runBuild_eq (settings : Settings) (r : Request) :
    runBuild settings r = do
      let result ← runStages settings r
      reportResult result
      return result := by
  simp only [runBuild, runStages, bind_assoc, pure_bind]

/-- The result of the stages is a result for the request. -/
theorem request_of_runStages (h : perform (runStages settings r) around s = (.ok result, t)) :
    result.request = r := by
  obtain ⟨_, _, _, h⟩ := perform_bind_eq_ok.mp h
  obtain ⟨_, _, _, h⟩ := perform_bind_eq_ok.mp h
  obtain ⟨_, _, _, h⟩ := perform_bind_eq_ok.mp h
  obtain ⟨_, _, _, h⟩ := perform_bind_eq_ok.mp h
  cases h
  rfl

/-- A build whose stages give a result gives it too if reporting it succeeds, and fails as this
does. -/
theorem perform_runBuild (h : perform (runStages settings r) around s = (.ok result, t)) :
    perform (runBuild settings r) around s =
      ((perform (reportResult result) around t).1.map fun _ ↦ result,
        (perform (reportResult result) around t).2) := by
  rw [runBuild_eq, perform_bind, h]
  dsimp only
  rw [perform_bind]
  rcases perform (reportResult result) around t with ⟨_ | _, _⟩
  · rfl
  · rfl

/-- A build whose report is saved gives the result of its stages. -/
theorem runBuild_of_saved {path : Path} {u : Session}
    (h : perform (runStages settings r) around s = (.ok result, t))
    (hsaved : perform (saveReport result r.destination) around t = (.ok path, u)) :
    perform (runBuild settings r) around s = (.ok result, u) := by
  rw [perform_runBuild h, perform_reportResult, request_of_runStages h, hsaved]
  rfl

/-- A build whose report the files do not allow to be saved gives it too, after the line that tells
why. If the markup of this line is refused, then this is what the build raises. -/
theorem runBuild_of_unsaved {e : FileError} {u : Session}
    (h : perform (runStages settings r) around s = (.ok result, t))
    (hunsaved : perform (saveReport result r.destination) around t = (.error (.file e), u)) :
    perform (runBuild settings r) around s = match Markup.render (unsavedLine e) with
      | .ok shown => (.ok result, { u with console := u.console ++ splitLines shown })
      | .error m => (.error (.markup m), u) := by
  rw [perform_runBuild h, perform_reportResult, request_of_runStages h, hunsaved]
  dsimp only
  rw [perform_say]
  cases Markup.render (unsavedLine e)
  · rfl
  · rfl

/-- The stages of a build, and what becomes of saving its report. -/
def stagesThenSave (settings : Settings) (r : Request) : Action (Except Failure Path) := do
  let result ← runStages settings r
  outcome (saveReport result r.destination)

/-- When the stages give a result, what becomes of saving its report is what saving does after
them. -/
theorem exists_of_stagesThenSave {saved : Except Failure Path}
    (h : (perform (stagesThenSave settings r) around s).1 = .ok saved) :
    ∃ result t u, perform (runStages settings r) around s = (.ok result, t) ∧
      perform (saveReport result r.destination) around t = (saved, u) := by
  obtain ⟨result, t, hstages, hsave⟩ := perform_bind_eq_ok.mp (Prod.ext h rfl)
  rw [perform_outcome] at hsave
  exact ⟨result, t, _, hstages, Prod.ext (Except.ok.inj (congrArg Prod.fst hsave)) rfl⟩

/-! ### Sample results -/

/-- A result with a record, of a request whose texts need escapes. -/
def sampleResult : Result where
  request := { sampleRequest with libname := "bib \"é\"", version := "𝟏\n" }
  stages := [⟨"compile", .ok, "flags: (none)", .ofScaled 125 (-3)⟩, .skipped "install"]
  record := some ⟨"lib", "1.0", .ofList [.claimer, .asan], ["A"], []⟩
  recordPath := some (.ofString "out/vendor.toml")

/-- Files with nothing but a file at a path. -/
def filesWith (p : Path) : Workspace := (⟨.empty, []⟩ : Workspace).plant p (.file [])

/-- A request whose destination closes the tag of the line that tells where a report was saved. -/
def taggedRequest : Request :=
  { sampleRequest with destination := .ofString "out[a][/dim]", skipCompile := false }

/-! ### The main result -/

/-- A report that was saved, whatever its result and wherever it was saved, is in a file of ASCII
whose JSON is the report, and from which the result is read back with what the report tells of it.
A build gives the result of its stages if its report is saved, and also if the files do not allow
this, unless the markup of the line is refused that tells why: then this is what it raises. -/
theorem reports_read_back_unsaved_absorbed (result : Result) (around : Surroundings)
    (s t : Session) :
    (∀ directory path : Path, result.HasNormalPaths →
      perform (saveReport result directory) around s = (.ok path, t) →
      path = directory.below reportFileName ∧ HoldsReport t.files path around result) ∧
    ∀ (settings : Settings) (r : Request),
      perform (runStages settings r) around s = (.ok result, t) →
      (∀ path u, perform (saveReport result r.destination) around t = (.ok path, u) →
        perform (runBuild settings r) around s = (.ok result, u)) ∧
      ∀ e u, perform (saveReport result r.destination) around t = (.error (.file e), u) →
        perform (runBuild settings r) around s = match Markup.render (unsavedLine e) with
          | .ok shown => (.ok result, { u with console := u.console ++ splitLines shown })
          | .error m => (.error (.markup m), u) := by
  refine ⟨?_, ?_⟩
  · intro directory path hresult h
    exact holdsReport_of_saveReport hresult h
  · intro settings r h
    refine ⟨?_, ?_⟩
    · intro path u hsaved
      exact runBuild_of_saved h hsaved
    · intro e u hunsaved
      exact runBuild_of_unsaved h hunsaved

/-- A report is saved and can be read. A build gives its result after the report was saved, and
another build does so though there is a file where the report's directory should be. -/
theorem sample_read_back_unsaved_absorbed :
    (∃ t path, perform (saveReport sampleResult (.ofString "out")) sampleSurroundings
        (sampleSession sampleFiles) = (.ok path, t) ∧
      HoldsReport t.files path sampleSurroundings sampleResult) ∧
    (∃ result t u path,
      perform (saveReport result sampleRequest.destination) sampleSurroundings t = (.ok path, u) ∧
      perform (runBuild sampleSettings sampleRequest) sampleSurroundings
        (sampleSession sampleFiles) = (.ok result, u)) ∧
    ∃ result t u v e, perform (saveReport result sampleRequest.destination) sampleSurroundings t =
        (.error (.file e), u) ∧
      perform (runBuild sampleSettings sampleRequest) sampleSurroundings
        (sampleSession (filesWith sampleRequest.destination)) = (.ok result, v) := by
  refine ⟨?_, ?_, ?_⟩
  · have hgiven : (perform (saveReport sampleResult (.ofString "out")) sampleSurroundings
        (sampleSession sampleFiles)).1 = .ok (.ofString "out/vendor_build_report.json") := by
      decide +kernel
    have hnormal : sampleResult.HasNormalPaths :=
      ⟨Path.isNormal_ofString _, Path.isNormal_ofString _, Path.isNormal_ofString _,
        by rintro _ ⟨⟩; exact Path.isNormal_ofString _⟩
    have hsaved := Prod.ext hgiven rfl
    exact ⟨_, _, hsaved, ((reports_read_back_unsaved_absorbed _ _ _ _).1 _ _ hnormal hsaved).2⟩
  · have hgiven : (perform (stagesThenSave sampleSettings sampleRequest) sampleSurroundings
        (sampleSession sampleFiles)).1 = .ok (.ok (.ofString "out/vendor_build_report.json")) := by
      decide +kernel
    obtain ⟨result, t, u, hstages, hsaved⟩ := exists_of_stagesThenSave hgiven
    exact ⟨result, t, u, _, hsaved,
      ((reports_read_back_unsaved_absorbed _ _ _ _).2 _ _ hstages).1 _ _ hsaved⟩
  · have hgiven : (perform (stagesThenSave sampleSettings sampleRequest) sampleSurroundings
        (sampleSession (filesWith sampleRequest.destination))).1 =
          .ok (.error (.file (.system .alreadyExists "out"))) := by
      decide +kernel
    have hshown : Markup.render (unsavedLine (.system .alreadyExists "out")) =
        .ok "Could not save build report: [Errno 17] File exists: 'out'" := by
      decide +kernel
    obtain ⟨result, t, u, hstages, hunsaved⟩ := exists_of_stagesThenSave hgiven
    have hbuild := ((reports_read_back_unsaved_absorbed _ _ _ _).2 _ _ hstages).2 _ _ hunsaved
    rw [hshown] at hbuild
    exact ⟨result, t, u, _, _, hunsaved, hbuild⟩

/-- A build whose report could be saved gives its result; when there is a file where the report's
directory should be, the stages give the same result, but the build raises the failure of the line
that tells so. -/
theorem runBuild_sample_not_absorbed :
    ∃ result e,
      (perform (runBuild sampleSettings taggedRequest) sampleSurroundings
        (sampleSession ⟨.empty, []⟩)).1 = .ok result ∧
      (perform (runStages sampleSettings taggedRequest) sampleSurroundings
        (sampleSession (filesWith taggedRequest.destination))).1 = .ok result ∧
      (perform (stagesThenSave sampleSettings taggedRequest) sampleSurroundings
        (sampleSession (filesWith taggedRequest.destination))).1 = .ok (.error (.file e)) ∧
      (perform (runBuild sampleSettings taggedRequest) sampleSurroundings
        (sampleSession (filesWith taggedRequest.destination))).1 =
          .error (.markup (.unmatchedClose "/dim" 68)) := by
  refine ⟨⟨taggedRequest, [⟨"compile", .failed, "Source directory not found: src", .zero⟩,
    .skipped "install", .skipped "probe", .skipped "emit"], none, none⟩,
    .system .alreadyExists "out[a][/dim]", ?_⟩
  refine ⟨?_, ?_, ?_, ?_⟩
  · decide +kernel
  · decide +kernel
  · decide +kernel
  · decide +kernel

end Vendoring.Build
