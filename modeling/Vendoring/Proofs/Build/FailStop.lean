import Vendoring.Proofs.Build.Reporting
import Vendoring.Proofs.Build.Runs

/-!
# Builds stop at the first failure

The shape of every result: stages that all went well, or one that failed with only good ones before
and only skipped ones after it. From a failed stage on, no tool is run and nothing but the report
and the way to it changes.
-/

namespace Vendoring.Build

open Vendoring.Files
open Vendoring.Action

namespace Result

/-- A result with stages is a success exactly when all of them went well. -/
theorem success_iff (result : Result) (hstages : result.stages ≠ []) :
    result.success = true ↔ ∀ stage ∈ result.stages, stage.status = .ok := by
  unfold success
  rw [Bool.and_eq_true, List.all_eq_true, Bool.not_eq_true', List.isEmpty_eq_false_iff]
  constructor
  · intro h stage hstage
    exact of_decide_eq_true (h.2 stage hstage)
  · intro h
    refine ⟨hstages, ?_⟩
    intro stage hstage
    exact decide_eq_true (h stage hstage)

/-- Stages that went well are no failures. -/
theorem failures_of_ok (result : Result) (h : ∀ stage ∈ result.stages, stage.status = .ok) :
    result.failures = [] := by
  apply List.filter_eq_nil_iff.mpr
  intro stage hstage
  rw [h stage hstage]
  decide

/-- The one failure of a result that stopped is the stage at which it did. -/
theorem failures_of_stopped (result : Result) {before : List Stage} {failed : Stage}
    {later : List String} (hstages : result.stages = before ++ failed :: later.map Stage.skipped)
    (hbefore : ∀ stage ∈ before, stage.status = .ok) (hfailed : failed.status = .failed) :
    result.failures = [failed] := by
  have hbefore' : before.filter (·.status = .failed) = [] := by
    apply List.filter_eq_nil_iff.mpr
    intro stage hstage
    rw [hbefore stage hstage]
    decide
  have hlater : (later.map Stage.skipped).filter (·.status = .failed) = [] := by
    apply List.filter_eq_nil_iff.mpr
    intro stage hstage
    obtain ⟨name, _, rfl⟩ := List.mem_map.mp hstage
    exact Bool.false_ne_true
  unfold failures
  rw [hstages, List.filter_append, hbefore', List.filter_cons_of_pos, hlater]
  · rfl
  · exact decide_eq_true hfailed

end Result

variable {settings : Settings} {r : Request} {around : Surroundings} {s s' : Session}
  {result : Result}

namespace Run

variable (run : Run settings r around s result s')
include run

/-- Either all stages of a run went well, or nothing happened after one that failed. -/
theorem ok_or_stopped : (∀ stage ∈ result.stages, stage.status = .ok) ∨
    ∃ (before : List Stage) (failed : Stage) (later : List String) (t : Session),
      result.stages = before ++ failed :: later.map Stage.skipped ∧
      (∀ stage ∈ before, stage.status = .ok) ∧ failed.status = .failed ∧
      (sessionsAfterStages settings r around s)[before.length]? = some t ∧
      s'.calls = t.calls ∧ s'.builds = t.builds ∧
      DiffersByReport r.destination t.files s'.files := by
  have hsound := run.sound_emitted
  cases hcarried : run.emitted.carried with
  | some path =>
      left
      rw [run.stages_eq]
      exact hsound.running path hcarried
  | none =>
      right
      obtain ⟨before, failed, later, hstages, hbefore, hfailed, hat⟩ := hsound.stopped hcarried
      obtain ⟨hbuilds, runs, hcalls, hnone⟩ := run.onlyRuns_report
      have hruns : runs = [] := by
        cases runs with
        | nil => rfl
        | cons first _ => exact (hnone first List.mem_cons_self).elim
      have hfiles := differsByReport_reportResult result around run.afterEmit
      rw [run.report, run.request_eq] at hfiles
      refine ⟨before, failed, later, run.afterEmit, run.stages_eq.trans hstages, hbefore, hfailed,
        hat, ?_, hbuilds, hfiles⟩
      rw [hcalls, hruns, List.append_nil]

end Run

/-- A build that gives a result has gone through its four stages, or through as many as went well
and one that failed, with the others skipped. Success means that no stage failed, and at most one
can fail. After a failed stage no tool is run and no place changes but the report and the way to it.
A build that skips compiling runs tools only to list symbols, and the emit stage is run only with
what the probe stage found. -/
theorem runBuild_stops_at_failure (settings : Settings) (r : Request) (around : Surroundings)
    (s s' : Session) (result : Result)
    (h : perform (runBuild settings r) around s = (.ok result, s')) :
    result.stages.map Stage.name = ["compile", "install", "probe", "emit"] ∧
    ((∀ stage ∈ result.stages, stage.status = .ok) ∨
      ∃ before failed after t, result.stages = before ++ failed :: after ∧
        (∀ stage ∈ before, stage.status = .ok) ∧ failed.status = .failed ∧
        (∀ stage ∈ after, stage.status = .skipped ∧ stage.detail = "" ∧ stage.duration = .zero) ∧
        (sessionsAfterStages settings r around s)[before.length]? = some t ∧
        s'.calls = t.calls ∧ s'.builds = t.builds ∧
        DiffersByReport r.destination t.files s'.files) ∧
    (result.success = true ↔ result.failures = []) ∧
    (result.success = true ↔ ∀ stage ∈ result.stages, stage.status = .ok) ∧
    result.failures.length ≤ 1 ∧
    (r.skipCompile = true → s'.builds = s.builds ∧ ∃ runs, s'.calls = s.calls ++ runs ∧
      ∀ run ∈ runs, ∃ archive : Path,
        run = ⟨[settings.nmTool, archive.text], settings.probeTimeout, none⟩) ∧
    (∀ stage, result.stages[3]? = some stage → stage.status ≠ .skipped →
      ∃ probed probe, (perform (throughProbe settings r) around s).1 = .ok probed ∧
        probed.carried = some probe ∧ result.record = some (recordOf r probe)) := by
  obtain ⟨run⟩ := nonempty_run h
  have hsuccess := result.success_iff run.stages_ne_nil
  refine ⟨run.names_stages, ?_, ?_, hsuccess, ?_, run.onlyRuns_of_skipCompile, ?_⟩
  · rcases run.ok_or_stopped with hok |
      ⟨before, failed, later, t, hstages, hbefore, hfailed, hat, hquiet⟩
    · exact .inl hok
    · refine .inr ⟨before, failed, later.map Stage.skipped, t, hstages, hbefore, hfailed, ?_, hat,
        hquiet⟩
      intro stage hstage
      obtain ⟨name, _, rfl⟩ := List.mem_map.mp hstage
      exact ⟨rfl, rfl, rfl⟩
  · rw [hsuccess]
    constructor
    · exact result.failures_of_ok
    · intro hnone
      rcases run.ok_or_stopped with hok | ⟨before, failed, later, t, hstages, hbefore, hfailed, _⟩
      · exact hok
      · rw [result.failures_of_stopped hstages hbefore hfailed] at hnone
        cases hnone
  · rcases run.ok_or_stopped with hok | ⟨before, failed, later, t, hstages, hbefore, hfailed, _⟩
    · rw [result.failures_of_ok hok]
      exact Nat.zero_le 1
    · rw [result.failures_of_stopped hstages hbefore hfailed]
      exact Nat.le_refl 1
  · intro stage hstage hrun
    obtain ⟨probe, hcarried, hrecord⟩ := run.record_of_emit_ne_skipped hstage hrun
    refine ⟨run.probed, probe, ?_, hcarried, hrecord⟩
    rw [run.throughProbe_eq]

/-- A build of output that is not there stops at the install stage. -/
theorem runBuild_sample_stops : ∃ result s',
    perform (runBuild sampleSettings sampleRequest) sampleSurroundings
      (sampleSession ⟨.empty, []⟩) = (.ok result, s') ∧
    result.success = false ∧ result.failures.length ≤ 1 ∧ s'.builds = 0 := by
  have hgiven : (perform (runBuild sampleSettings sampleRequest) sampleSurroundings
      (sampleSession ⟨.empty, []⟩)).1.toOption.any (!·.success) = true := by
    decide +kernel
  obtain ⟨result, s', h, hfailed⟩ := exists_of_any_toOption hgiven
  obtain ⟨_, _, _, _, hfew, hskip, _⟩ := runBuild_stops_at_failure _ _ _ _ _ _ h
  exact ⟨result, s', h, by simpa using hfailed, hfew, (hskip rfl).1⟩

end Vendoring.Build
