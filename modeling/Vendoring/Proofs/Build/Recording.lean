import Vendoring.Proofs.Build.Emission

/-!
# Records and their files

A result gives the path of a record's file exactly when the emit stage went well, and then the
record in the result is the one in the file. The result holds a record whenever the emit stage was
begun, also when the record could not be written: so it holds a record without a path just if the
emit stage failed. The report shows what the result holds.
-/

namespace Vendoring.Build

open Vendoring.Text Vendoring.Files Vendoring.Provenance
open Vendoring.Action

variable {settings : Settings} {r : Request} {around : Surroundings} {s s' t : Session}
  {result : Result}

/-- What a result tells of its record agrees with its emit stage: there is a record when the stage
was begun, and a path when it went well. -/
structure Result.RecordsEmission (result : Result) (emit : Stage) : Prop where
  stage : result.stages[3]? = some emit
  name : emit.name = "emit"
  record : result.record.isSome ↔ emit.status ≠ .skipped
  recordPath : result.recordPath.isSome ↔ emit.status = .ok

/-- A result has a record and no path, or a path and no record, just if its emit stage failed. -/
theorem Result.RecordsEmission.agree_iff {emit : Stage} (h : result.RecordsEmission emit) :
    (result.record.isSome ↔ result.recordPath.isSome) ↔ emit.status ≠ .failed := by
  rw [h.record, h.recordPath]
  cases emit.status with
  | ok => simp
  | failed => simp
  | skipped => simp

namespace Run

/-- Every run tells of its record what its emit stage did. -/
theorem recordsEmission (run : Run settings r around s result s') :
    ∃ emit, result.RecordsEmission emit := by
  have hlast : ∀ emit, result.stages = run.probed.stages ++ [emit] →
      result.stages[3]? = some emit := by
    intro emit hstages
    rw [hstages, List.getElem?_append_right (Nat.le_of_eq run.length_probed), run.length_probed]
    rfl
  have hrecord := run.record_eq
  have hpath := run.recordPath_eq
  cases hprobed : run.probed.carried with
  | none =>
      have hemit := run.emit
      rw [Progress.perform_next_of_none hprobed] at hemit
      simp only [Prod.mk.injEq, Except.ok.injEq] at hemit
      obtain ⟨hemitted, _⟩ := hemit
      refine ⟨.skipped "emit", hlast _ ?_, rfl, ?_, ?_⟩
      · rw [run.stages_eq, ← hemitted]
      · simp [hrecord, hprobed, Stage.skipped]
      · simp [hpath, ← hemitted, Stage.skipped]
  | some probe =>
      obtain ⟨emit, hstages, hran⟩ := Progress.ran_of_next hprobed run.emit
      have hat := hlast emit (run.stages_eq.trans hstages)
      obtain ⟨_, _, _, _, ⟨path, _, hok, hcarried⟩ | ⟨e, _, hfailed, hcarried⟩⟩ := hran.work
      · refine ⟨emit, hat, hran.name, ?_, ?_⟩
        · simp [hrecord, hprobed, hok]
        · simp [hpath, hcarried, hok]
      · refine ⟨emit, hat, hran.name, ?_, ?_⟩
        · simp [hrecord, hprobed, hfailed]
        · simp [hpath, hcarried, hfailed]

/-- A path in a result is that of a file that holds the record in the result. -/
theorem loads_recordPath (run : Run settings r around s result s') {path : Path}
    (hpath : result.recordPath = some path)
    (hother : s.files.place (r.destination.below settings.metadataFilename) ≠
      s.files.place (r.destination.below reportFileName)) :
    path = r.destination.below settings.metadataFilename ∧
    ∃ m, result.record = some m ∧ perform (loadRecord path) around s' = (.ok m, s') := by
  have hcarried := run.recordPath_eq.symm.trans hpath
  have hok := run.sound_emitted.running path hcarried
  rw [← run.stages_eq] at hok
  obtain ⟨probe, path', _, _, _, hprobe, hcarried', _, _, _, hwhere, htaken, hcontent⟩ :=
    run.exists_handed ((result.success_iff run.stages_ne_nil).mpr hok)
  have hsame : path' = path := Option.some.inj (hcarried'.symm.trans hcarried)
  subst hsame
  refine ⟨hwhere, recordOf r probe, ?_, ?_⟩
  · rw [run.record_eq, hprobe]
    rfl
  · apply perform_loadRecord htaken
    refine content?_reportResult hcontent run.report ?_
    apply Workspace.sameEntry_of_place_ne
    rw [hwhere, run.request_eq, Workspace.place_congr run.here_eq,
      Workspace.place_congr run.here_eq]
    exact hother

end Run

/-- A report that was saved shows the result, in the file whose path is given. -/
theorem content?_saveReport {directory path : Path}
    (h : perform (saveReport result directory) around s = (.ok path, t)) :
    path = directory.below reportFileName ∧
      t.files.content? path = some (Utf8.encode (Json.indented (reportIn around result))) := by
  obtain ⟨_, s₁, _, h⟩ := perform_bind_eq_ok.mp h
  rw [perform_bind, perform_read] at h
  obtain ⟨_, s₂, hwritten, h⟩ := perform_bind_eq_ok.mp h
  obtain ⟨_, s₃, hsaid, h⟩ := perform_bind_eq_ok.mp h
  rw [perform_pure] at h
  cases h
  have hfiles : t.files = s₂.files := (Within.say (F := .sameFiles) _).holds hsaid
  refine ⟨rfl, ?_⟩
  rw [hfiles]
  exact content?_writeText hwritten

/-- A reported result is shown by the report beside it, unless the files did not allow the report
to be saved. -/
theorem content?_report (h : perform (reportResult result) around s = (.ok (), t)) :
    t.files.content? (result.request.destination.below reportFileName) =
        some (Utf8.encode (Json.indented (reportIn around result))) ∨
      ∃ e, (perform (saveReport result result.request.destination) around s).1 =
        .error (.file e) := by
  rw [perform_reportResult] at h
  split at h
  · next path t hsaved =>
      cases h
      obtain ⟨rfl, hcontent⟩ := content?_saveReport hsaved
      exact .inl hcontent
  · next e t hsaved => exact .inr ⟨e, congrArg Prod.fst hsaved⟩
  · cases h

/-- A build that gives a result, whatever its tools and files do, tells of the record what the emit
stage did. There is a record just if the stage was begun, and a path just if it went well; so there
is a record without a path just if the stage failed. A path is that of a file from which the record
in the result can be loaded. The report beside it shows the same, unless the files did not allow it
to be saved. -/
theorem runBuild_records_emission (settings : Settings) (r : Request) (around : Surroundings)
    (s s' : Session) (result : Result)
    (h : perform (runBuild settings r) around s = (.ok result, s'))
    (hother : s.files.place (r.destination.below settings.metadataFilename) ≠
      s.files.place (r.destination.below reportFileName)) :
    let t := (perform (throughEmit settings r) around s).2
    (∃ emit, result.RecordsEmission emit ∧
      ((result.record.isSome ↔ result.recordPath.isSome) ↔ emit.status ≠ .failed)) ∧
    (∀ path, result.recordPath = some path →
      path = r.destination.below settings.metadataFilename ∧
      ∃ m, result.record = some m ∧ perform (loadRecord path) around s' = (.ok m, s')) ∧
    (s'.files.content? (r.destination.below reportFileName) =
        some (Utf8.encode (Json.indented (reportIn around result))) ∨
      ∃ e, (perform (saveReport result r.destination) around t).1 = .error (.file e)) := by
  intro t
  obtain ⟨run⟩ := nonempty_run h
  obtain ⟨emit, hemit⟩ := run.recordsEmission
  have ht : t = run.afterEmit := congrArg Prod.snd run.throughEmit_eq
  refine ⟨⟨emit, hemit, hemit.agree_iff⟩, ?_, ?_⟩
  · intro path hpath
    exact run.loads_recordPath hpath hother
  · have hreport := content?_report run.report
    rw [run.request_eq, ← ht] at hreport
    exact hreport

/-- A build of output that was built before gives the path of a file with the record in the
result. -/
theorem runBuild_sample_records_emission : ∃ result s' path m,
    perform (runBuild sampleSettings sampleRequest) sampleSurroundings
      (sampleSession sampleFiles) = (.ok result, s') ∧
    result.recordPath = some path ∧ result.record = some m ∧
    perform (loadRecord path) sampleSurroundings s' = (.ok m, s') := by
  have hgiven : (perform (runBuild sampleSettings sampleRequest) sampleSurroundings
      (sampleSession sampleFiles)).1.toOption.any (·.recordPath.isSome) = true := by
    decide +kernel
  obtain ⟨result, s', h, hpath⟩ := exists_of_any_toOption hgiven
  obtain ⟨path, hpath⟩ := Option.isSome_iff_exists.mp hpath
  have hother : sampleFiles.place (.ofString "out/vendor.toml") ≠
      sampleFiles.place (.ofString "out/vendor_build_report.json") := by
    decide +kernel
  obtain ⟨_, hloads, _⟩ := runBuild_records_emission _ _ _ _ _ _ h hother
  obtain ⟨_, m, hrecord, hload⟩ := hloads path hpath
  exact ⟨result, s', path, m, h, hpath, hrecord, hload⟩

/-- Settings that put the record's file into a directory that no stage makes. -/
def strandedSettings : Settings :=
  { sampleSettings with metadataFilename := "missing/vendor.toml" }

/-- A build whose record cannot be written gives the record without a path. -/
theorem runBuild_sample_keeps_unwritten_record :
    ((perform (runBuild strandedSettings sampleRequest) sampleSurroundings
      (sampleSession sampleFiles)).1.toOption.any fun result ↦
        result.record.isSome && result.recordPath.isNone &&
        result.stages[3]?.any (·.status = .failed)) = true ∧
    sampleFiles.place (sampleRequest.destination.below strandedSettings.metadataFilename) ≠
      sampleFiles.place (sampleRequest.destination.below reportFileName) := by
  decide +kernel

end Vendoring.Build
