import Vendoring.Build.VendorBuild
import Vendoring.Proofs.Files.Frames
import Vendoring.Proofs.Session.Frames

/-!
# Saving the report

What reporting a result does to the files, whether the report can be saved or not: it adds
directories on the way to the destination and the report itself. Every other file keeps its content.
-/

namespace Vendoring.Build

open Vendoring.Files
open Vendoring.Action Files.Workspace

/-- The files of one workspace differ from those of another only by directories made on the way to
a destination, and by the report that was written into it. -/
structure DiffersByReport (destination : Path) (w v : Workspace) : Prop where
  here : v.here = w.here
  place : ∀ l, v.tree.find? l = w.tree.find? l ∨
    (w.tree.find? l = none ∧ v.tree.find? l = some .directory ∧
      ∃ q : Path, q.IsOnWayTo destination ∧ v.resolve q = .ok l) ∨
    (v.resolve (destination.below reportFileName) = .ok l ∧
      ∃ bytes, v.tree.find? l = some (.file bytes))

/-- Saving a report makes way to the directory and then writes the report's file, or stops before
that. -/
theorem files_saveReport (result : Result) (directory : Path) (around : Surroundings)
    (s : Session) : ∃ v, MakesWay directory s.files v ∧
      ((perform (saveReport result directory) around s).2.files = v ∨
        ∃ bytes, (perform (saveReport result directory) around s).2.files =
          (Attempt.perform (writeFile (directory.below reportFileName) bytes) v).2) := by
  have hmade := makesWay_makeDirectories directory around s
  refine ⟨_, hmade, ?_⟩
  unfold saveReport
  rw [perform_bind]
  rcases perform (Action.makeDirectories directory) around s with ⟨e | _, t⟩
  · exact .inl rfl
  · dsimp only
    rw [perform_bind, perform_read]
    dsimp only
    rw [files_bind]
    · obtain hrefused | hwritten := files_writeText (directory.below reportFileName) _ around t
      · exact .inl hrefused
      · exact .inr ⟨_, hwritten⟩
    · intro _
      exact (Within.say _).bind fun _ ↦ .pure _

/-- The line that tells where the report was saved. -/
def savedLine (directory : Path) : String :=
  "  [dim]Report saved: " ++ (directory.below reportFileName).text ++ "[/]"

/-- The line that tells why the report was not saved. -/
def unsavedLine (e : FileError) : String :=
  "[yellow]Could not save build report: " ++ e.message ++ "[/]"

/-- Reporting a result saves its report. If the files do not allow this, a line tells why. -/
theorem perform_reportResult (result : Result) (around : Surroundings) (s : Session) :
    perform (reportResult result) around s =
      match perform (saveReport result result.request.destination) around s with
      | (.ok _, t) => (.ok (), t)
      | (.error (.file e), t) => perform (say (unsavedLine e)) around t
      | (.error f, t) => (.error f, t) := by
  have hdiscard : perform (discard (saveReport result result.request.destination)) around s =
      ((perform (saveReport result result.request.destination) around s).1.map fun _ ↦ (),
        (perform (saveReport result result.request.destination) around s).2) :=
    perform_map _ _ around s
  unfold reportResult
  rw [perform_tryCatch, hdiscard]
  rcases perform (saveReport result result.request.destination) around s with ⟨f | path, t⟩
  · cases f
    all_goals rfl
  · rfl

/-- Reporting a result does to the files what saving the report does. -/
theorem files_reportResult (result : Result) (around : Surroundings) (s : Session) :
    (perform (reportResult result) around s).2.files =
      (perform (saveReport result result.request.destination) around s).2.files := by
  unfold reportResult
  rw [files_tryCatch]
  · show (perform ((fun _ ↦ ()) <$> saveReport result _) around s).2.files = _
    rw [perform_map]
  · intro e
    split
    · exact .say _
    · exact .throw _

private theorem differsByReport_of_makesWay {destination : Path} {w v : Workspace}
    (h : MakesWay destination w v) : DiffersByReport destination w v := by
  refine ⟨h.here, ?_⟩
  intro l
  rcases h.place l with hsame | hmade
  · exact .inl hsame
  · exact .inr (.inl hmade)

/-- Reporting a result changes nothing but the report and the way to it. -/
theorem differsByReport_reportResult (result : Result) (around : Surroundings) (s : Session) :
    DiffersByReport result.request.destination s.files
      (perform (reportResult result) around s).2.files := by
  rw [files_reportResult]
  obtain ⟨v, hmade, hstopped | ⟨bytes, hwritten⟩⟩ :=
    files_saveReport result result.request.destination around s
  · rw [hstopped]
    exact differsByReport_of_makesWay hmade
  · rw [hwritten]
    rcases writeFile_cases (result.request.destination.below reportFileName) bytes v with
      hrefused | ⟨m, hlead, hfree, hput⟩
    · rw [hrefused]
      exact differsByReport_of_makesWay hmade
    · rw [hput]
      have hkeeps := KeepsDirectories.put (.file bytes) hfree
      refine ⟨hmade.here, ?_⟩
      intro l
      by_cases hl : l = m
      · subst hl
        refine .inr (.inr ⟨hkeeps.resolve hlead, bytes, ?_⟩)
        exact Tree.find?_put_self v.tree (ne_nil_of_find?_ne hfree) _
      · rcases hmade.place l with hsame | ⟨hnone, hdirectory, q, hq, hresolve⟩
        · exact .inl ((Tree.find?_put_of_ne v.tree hl _).trans hsame)
        · refine .inr (.inl ⟨hnone, hkeeps.directory l hdirectory, q, hq, ?_⟩)
          exact hkeeps.resolve hresolve

/-- Reporting a result keeps the content of every file that is not the report afterwards. -/
theorem content?_reportResult {result : Result} {around : Surroundings} {s s' : Session}
    {p : Path} {bytes : List UInt8} (hp : s.files.content? p = some bytes)
    (h : perform (reportResult result) around s = (.ok (), s'))
    (hother : s'.files.sameEntry p (result.request.destination.below reportFileName) = false) :
    s'.files.content? p = some bytes := by
  have hfiles : s'.files = (perform (reportResult result) around s).2.files := by rw [h]
  rw [files_reportResult] at hfiles
  obtain ⟨v, hmade, hstopped | ⟨report, hwritten⟩⟩ :=
    files_saveReport result result.request.destination around s
  · rw [hfiles, hstopped]
    exact hmade.content? hp
  · rw [hfiles, hwritten] at hother ⊢
    exact content?_writeFile_of_not_sameEntry (hmade.content? hp) hother

end Vendoring.Build
