import Vendoring.Proofs.Build.Reporting
import Vendoring.Proofs.Build.Runs
import Vendoring.Proofs.Files.PathText
import Vendoring.Proofs.Text.Styled

/-!
# Failures are collected

What a build gives for every way in which its stages may go. A stage that fails is recorded with the
failure's message, and the build goes on to its result. The lines that a build tells outside of its
stages are not guarded: when the markup of such a line is refused, this stops the build instead, and
so does a destination that holds a null character, in which no report can be saved.
-/

namespace Vendoring.Build

open Vendoring.Files Vendoring.Text
open Vendoring.Action

/-- The line that tells of a stage that failed. -/
def failureLine (name : String) (e : Failure) : String :=
  "[red]" ++ name ++ " failed: " ++ e.message ++ "[/]"

/-- A session in which a stage has been announced and its clock has been started. -/
def announced (name : String) (s : Session) : Session :=
  { s with console := s.console ++ splitLines ("Stage: " ++ name), readings := s.readings + 1 }

/-- A stage records a failure under a name, with the failure's message. -/
def Stage.Records (stage : Stage) (name : String) (e : Failure) : Prop :=
  stage.name = name ∧ stage.status = .failed ∧ stage.detail = e.message

/-- The names of a build's stages. -/
def stageNames : List String := ["compile", "install", "probe", "emit"]

namespace Progress

variable {α β : Type} {around : Surroundings} {s : Session} {name : String}

private theorem render_announcement (hname : name ∈ stageNames) :
    Markup.render ("[bold]Stage: " ++ name ++ "[/]") = .ok ("Stage: " ++ name) := by
  simp only [stageNames, List.mem_cons, List.not_mem_nil, or_false] at hname
  rcases hname with rfl | rfl | rfl | rfl
  · decide +kernel
  · decide +kernel
  · decide +kernel
  · decide +kernel

/-- A stage is run in the session in which it was announced. When its action fails, the failure is
recorded if the line that tells so can be shown, and otherwise that line's failure is raised. -/
theorem runStage_cases (hname : name ∈ stageNames) (a : Action (β × String))
    (around : Surroundings) (s : Session) :
    (∃ b detail u stage t, perform a around (announced name s) = (.ok (b, detail), u) ∧
      perform (runStage name a) around s = (.ok (stage, some b), t) ∧ stage.status = .ok) ∨
    ∃ e u, perform a around (announced name s) = (.error e, u) ∧
      ((∃ shown stage t, Markup.render (failureLine name e) = .ok shown ∧
          perform (runStage name a) around s = (.ok (stage, none), t) ∧ stage.Records name e) ∨
        ∃ m t, Markup.render (failureLine name e) = .error m ∧
          perform (runStage name a) around s = (.error (.markup m), t)) := by
  unfold runStage announced failureLine
  rw [perform_bind, perform_say, render_announcement hname]
  dsimp only
  rw [perform_bind, perform_readClock]
  dsimp only
  rw [perform_bind, perform_outcome]
  dsimp only
  rw [perform_bind, perform_readClock]
  dsimp only
  generalize perform a around _ = worked
  rcases worked with ⟨e | ⟨b, detail⟩, u⟩
  · right
    refine ⟨e, u, rfl, ?_⟩
    dsimp only [timed]
    rw [perform_bind, perform_say]
    cases Markup.render ("[red]" ++ name ++ " failed: " ++ e.message ++ "[/]") with
    | ok shown => exact .inl ⟨shown, _, _, rfl, rfl, rfl, rfl, rfl⟩
    | error m => exact .inr ⟨m, _, rfl, rfl⟩
  · left
    exact ⟨b, detail, u, _, _, rfl, rfl, rfl⟩

/-- Going on runs the next stage in the session in which it was announced. -/
theorem next_cases (hname : name ∈ stageNames) {p : Progress α} {x : α}
    (hp : p.carried = some x) (f : α → Action (β × String)) (around : Surroundings)
    (s : Session) :
    (∃ b detail u stage t, perform (f x) around (announced name s) = (.ok (b, detail), u) ∧
      perform (p.next name f) around s = (.ok ⟨p.stages ++ [stage], some b⟩, t) ∧
      stage.status = .ok) ∨
    ∃ e u, perform (f x) around (announced name s) = (.error e, u) ∧
      ((∃ shown stage t, Markup.render (failureLine name e) = .ok shown ∧
          perform (p.next name f) around s = (.ok ⟨p.stages ++ [stage], none⟩, t) ∧
          stage.Records name e) ∨
        ∃ m t, Markup.render (failureLine name e) = .error m ∧
          perform (p.next name f) around s = (.error (.markup m), t)) := by
  unfold next
  rw [hp]
  dsimp only
  rw [perform_bind]
  obtain ⟨b, detail, u, stage, t, hwork, hstage, hstatus⟩ | ⟨e, u, hwork, hfailed⟩ :=
    runStage_cases hname (f x) around s
  · rw [hstage]
    exact .inl ⟨b, detail, u, stage, t, hwork, rfl, hstatus⟩
  · refine .inr ⟨e, u, hwork, ?_⟩
    obtain ⟨shown, stage, t, hrender, hstage, hrecords⟩ | ⟨m, t, hrender, hstage⟩ := hfailed
    · rw [hstage]
      exact .inl ⟨shown, stage, t, hrender, rfl, hrecords⟩
    · rw [hstage]
      exact .inr ⟨m, t, hrender, rfl⟩

end Progress

/-! ### Stages that fail -/

section Failing

variable {α β : Type} {around : Surroundings} {s : Session}

/-- After what has been done, the next stage is reached and its action fails. -/
def FailsNext (around : Surroundings) (s : Session) (a : Action (Progress α)) (name : String)
    (f : α → Action (β × String)) (e : Failure) : Prop :=
  ∃ p t x u, perform a around s = (.ok p, t) ∧ p.carried = some x ∧
    perform (f x) around (announced name t) = (.error e, u)

/-- An action through some stages, of which some may fail, collects their failures: if it gives a
progress then this records just these failures, and all lines that tell of them were shown; and the
failure of such a line is all that it may raise. -/
structure Collects (around : Surroundings) (s : Session) (a : Action (Progress α))
    (fails : String → Failure → Prop) : Prop where
  recorded : ∀ p t, perform a around s = (.ok p, t) → ∀ name e, fails name e →
    (∃ shown, Markup.render (failureLine name e) = .ok shown) ∧
      ∃ stage ∈ p.stages, stage.Records name e
  failed : ∀ p t, perform a around s = (.ok p, t) → ∀ stage ∈ p.stages, stage.status = .failed →
    ∃ e, fails stage.name e ∧ stage.Records stage.name e
  raised : ∀ f t, perform a around s = (.error f, t) → ∃ name e m, fails name e ∧
    Markup.render (failureLine name e) = .error m ∧ f = .markup m

/-- Before the first stage there are no failures. -/
theorem collects_start (around : Surroundings) (s : Session) :
    Collects around s (pure (Progress.start ())) fun _ _ ↦ False where
  recorded _ _ _ _ _ h := h.elim
  failed p t h stage hstage := by
    cases h
    cases hstage
  raised f t h := by cases h

private theorem Collects.append {a : Action (Progress α)} {b : Action (Progress β)}
    {fails : String → Failure → Prop} {new : Failure → Prop} {name : String} {p : Progress α}
    {stage : Stage} {carried : Option β} {t u : Session} (ha : Collects around s a fails)
    (hbefore : perform a around s = (.ok p, t))
    (hafter : perform b around s = (.ok ⟨p.stages ++ [stage], carried⟩, u))
    (hnew : ∀ e, new e →
      (∃ shown, Markup.render (failureLine name e) = .ok shown) ∧ stage.Records name e)
    (hstage : stage.status = .failed → ∃ e, new e ∧ stage.Records name e) :
    Collects around s b fun name' e ↦ fails name' e ∨ (name' = name ∧ new e) where
  recorded q v h name' e hfails := by
    cases hafter.symm.trans h
    obtain hold | ⟨rfl, he⟩ := hfails
    · obtain ⟨hshown, old, hmem, hrecords⟩ := ha.recorded p t hbefore name' e hold
      exact ⟨hshown, old, List.mem_append_left _ hmem, hrecords⟩
    · obtain ⟨hshown, hrecords⟩ := hnew e he
      exact ⟨hshown, stage, List.mem_append_right _ (List.mem_singleton_self stage), hrecords⟩
  failed q v h stage' hmem hfailed := by
    cases hafter.symm.trans h
    obtain hold | hlast := List.mem_append.mp hmem
    · obtain ⟨e, hfails, hrecords⟩ := ha.failed p t hbefore stage' hold hfailed
      exact ⟨e, .inl hfails, hrecords⟩
    · obtain rfl := List.mem_singleton.mp hlast
      obtain ⟨e, he, hrecords⟩ := hstage hfailed
      rw [hrecords.1]
      exact ⟨e, .inr ⟨rfl, he⟩, hrecords⟩
  raised f v h := by cases hafter.symm.trans h

private theorem Collects.of_raised {b : Action (Progress β)} {fails : String → Failure → Prop}
    {g : Failure} {t : Session} (hraised : perform b around s = (.error g, t))
    (hline : ∃ name e m, fails name e ∧ Markup.render (failureLine name e) = .error m ∧
      g = .markup m) : Collects around s b fails where
  recorded p u h := by cases hraised.symm.trans h
  failed p u h := by cases hraised.symm.trans h
  raised f u h := by
    cases hraised.symm.trans h
    exact hline

private theorem failsNext_iff {a : Action (Progress α)} {name : String}
    {f : α → Action (β × String)} {p : Progress α} {t : Session} {e : Failure}
    (hbefore : perform a around s = (.ok p, t)) :
    FailsNext around s a name f e ↔ ∃ x u, p.carried = some x ∧
      perform (f x) around (announced name t) = (.error e, u) := by
  constructor
  · rintro ⟨p', t', x, u, hreached, hx, hwork⟩
    cases hbefore.symm.trans hreached
    exact ⟨x, u, hx, hwork⟩
  · rintro ⟨x, u, hx, hwork⟩
    exact ⟨p, t, x, u, hbefore, hx, hwork⟩

/-- Going on to the next stage collects its failure too. -/
theorem Collects.next {a : Action (Progress α)} {fails : String → Failure → Prop}
    (ha : Collects around s a fails) {name : String} (hname : name ∈ stageNames)
    (f : α → Action (β × String)) :
    Collects around s (a >>= (·.next name f)) fun name' e ↦
      fails name' e ∨ (name' = name ∧ FailsNext around s a name f e) := by
  rcases hbefore : perform a around s with ⟨g | p, t⟩
  · have hraised : perform (a >>= (·.next name f)) around s = (.error g, t) := by
      rw [perform_bind, hbefore]
    obtain ⟨name', e, m, hfails, hline⟩ := ha.raised g t hbefore
    exact .of_raised hraised ⟨name', e, m, .inl hfails, hline⟩
  · have hperform : perform (a >>= (·.next name f)) around s =
        perform (p.next name f) around t := by
      rw [perform_bind, hbefore]
    cases hcarried : p.carried with
    | none =>
        rw [Progress.perform_next_of_none hcarried] at hperform
        apply ha.append hbefore hperform
        · intro e he
          obtain ⟨x, _, hx, _⟩ := (failsNext_iff hbefore).mp he
          cases hcarried.symm.trans hx
        · rintro ⟨⟩
    | some x =>
        have hwork : ∀ e, FailsNext around s a name f e →
            ∃ u, perform (f x) around (announced name t) = (.error e, u) := by
          intro e he
          obtain ⟨x', u, hx, hwork⟩ := (failsNext_iff hbefore).mp he
          cases hcarried.symm.trans hx
          exact ⟨u, hwork⟩
        obtain ⟨b, detail, u, stage, v, hok, hstage, hstatus⟩ | ⟨e, u, herror, hfailed⟩ :=
          Progress.next_cases hname hcarried f around t
        · apply ha.append hbefore (hperform.trans hstage)
          · intro e he
            obtain ⟨_, hwork⟩ := hwork e he
            cases hok.symm.trans hwork
          · intro hfailed
            cases hstatus.symm.trans hfailed
        · have hfails : FailsNext around s a name f e :=
            (failsNext_iff hbefore).mpr ⟨x, u, hcarried, herror⟩
          obtain ⟨shown, stage, v, hrender, hstage, hrecords⟩ | ⟨m, v, hrender, hstage⟩ := hfailed
          · apply ha.append hbefore (hperform.trans hstage)
            · intro e' he'
              obtain ⟨_, hwork⟩ := hwork e' he'
              cases herror.symm.trans hwork
              exact ⟨⟨shown, hrender⟩, hrecords⟩
            · exact fun _ ↦ ⟨e, hfails, hrecords⟩
          · exact .of_raised (hperform.trans hstage)
              ⟨name, e, m, .inr ⟨rfl, hfails⟩, hrender, rfl⟩

end Failing

/-- A stage of a build is reached and fails. -/
inductive StageFails (settings : Settings) (r : Request) (around : Surroundings) (s : Session) :
    String → Failure → Prop
  | compile {e : Failure} :
    FailsNext around s (pure (Progress.start ())) "compile" (fun _ ↦ compileStage settings r) e →
      StageFails settings r around s "compile" e
  | install {e : Failure} :
    FailsNext around s (throughCompile settings r) "install" (fun _ ↦ installStage settings r) e →
      StageFails settings r around s "install" e
  | probe {e : Failure} :
    FailsNext around s (throughInstall settings r) "probe" (fun _ ↦ probeStage settings r) e →
      StageFails settings r around s "probe" e
  | emit {e : Failure} :
    FailsNext around s (throughProbe settings r) "emit" (emitStage settings r) e →
      StageFails settings r around s "emit" e

variable {settings : Settings} {r : Request} {around : Surroundings} {s : Session}

private theorem stageFails_iff {name : String} {e : Failure} :
    StageFails settings r around s name e ↔
      (((False ∨ (name = "compile" ∧ FailsNext around s (pure (Progress.start ())) "compile"
        (fun _ ↦ compileStage settings r) e)) ∨
      (name = "install" ∧ FailsNext around s (throughCompile settings r) "install"
        (fun _ ↦ installStage settings r) e)) ∨
      (name = "probe" ∧ FailsNext around s (throughInstall settings r) "probe"
        (fun _ ↦ probeStage settings r) e)) ∨
      (name = "emit" ∧ FailsNext around s (throughProbe settings r) "emit"
        (emitStage settings r) e) := by
  constructor
  · rintro (h | h | h | h)
    · exact .inl (.inl (.inl (.inr ⟨rfl, h⟩)))
    · exact .inl (.inl (.inr ⟨rfl, h⟩))
    · exact .inl (.inr ⟨rfl, h⟩)
    · exact .inr ⟨rfl, h⟩
  · rintro ((((⟨⟨⟩⟩ | ⟨rfl, h⟩) | ⟨rfl, h⟩) | ⟨rfl, h⟩) | ⟨rfl, h⟩)
    · exact .compile h
    · exact .install h
    · exact .probe h
    · exact .emit h

/-- A build up to its emit stage collects the failures of its stages. -/
theorem collects_throughEmit (settings : Settings) (r : Request) (around : Surroundings)
    (s : Session) :
    Collects around s (throughEmit settings r) (StageFails settings r around s) := by
  have hnames : "compile" ∈ stageNames ∧ "install" ∈ stageNames ∧ "probe" ∈ stageNames ∧
      "emit" ∈ stageNames := by
    decide
  have hcompile := (collects_start around s).next hnames.1 fun _ ↦ compileStage settings r
  rw [pure_bind] at hcompile
  have hinstall := Collects.next (a := throughCompile settings r) hcompile hnames.2.1
    fun _ ↦ installStage settings r
  have hprobe := Collects.next (a := throughInstall settings r) hinstall hnames.2.2.1
    fun _ ↦ probeStage settings r
  have hemit := Collects.next (a := throughProbe settings r) hprobe hnames.2.2.2
    (emitStage settings r)
  have hfails : StageFails settings r around s = fun name e ↦ _ :=
    funext fun name ↦ funext fun e ↦ propext stageFails_iff
  rw [hfails]
  exact hemit

/-! ### The report -/

variable {result : Result} {directory : Path} {f : Failure} {s' : Session}

/-- Work on a path fails because the path holds a null character or because of the files. -/
private theorem error_of_checkPath_onFiles {α : Type} {p : Path} {a : Attempt FileError α}
    (h : perform (checkPath p >>= fun _ ↦ onFiles a) around s = (.error f, s')) :
    (p.holdsNull = true ∧ f = .nullByte) ∨ ∃ e, f = .file e := by
  rw [perform_checkPath_bind, Failure.ofPath?] at h
  split_ifs at h with hnull hlong
  · cases h
    exact .inl ⟨hnull, rfl⟩
  · cases h
    exact .inr ⟨_, rfl⟩
  · dsimp only at h
    rw [perform_onFiles] at h
    generalize Attempt.perform a s.files = attempted at h
    rcases attempted with ⟨e | x, files⟩
    · cases h
      exact .inr ⟨e, rfl⟩
    · cases h

private theorem error_of_say {line : String} (h : perform (say line) around s = (.error f, s')) :
    ∃ m, Markup.render line = .error m ∧ f = .markup m := by
  rw [perform_say] at h
  cases hrender : Markup.render line with
  | ok shown =>
      rw [hrender] at h
      cases h
  | error m =>
      rw [hrender] at h
      cases h
      exact ⟨m, rfl, rfl⟩

/-- The path of a report holds a null character exactly when its directory does. -/
theorem holdsNull_reportPath (directory : Path) :
    (directory.below reportFileName).holdsNull = directory.holdsNull := by
  have hpart : IsPart reportFileName := ⟨by decide, by decide, by decide⟩
  rw [Path.below_of_isPart directory hpart]
  exact Path.holdsNull_entry (by decide)

/-- Saving a report fails because the directory holds a null character, because of the files, or
because the line that tells so is refused. -/
theorem error_of_saveReport (h : perform (saveReport result directory) around s = (.error f, s')) :
    (directory.holdsNull = true ∧ f = .nullByte) ∨ (∃ e, f = .file e) ∨
      ∃ m, Markup.render (savedLine directory) = .error m ∧ f = .markup m := by
  obtain hmade | ⟨_, t, _, h⟩ := perform_bind_eq_error.mp h
  · obtain hnull | hfile := error_of_checkPath_onFiles hmade
    · exact .inl hnull
    · exact .inr (.inl hfile)
  obtain hread | ⟨around', t, hread, h⟩ := perform_bind_eq_error.mp h
  · cases hread
  obtain hwritten | ⟨_, t, _, h⟩ := perform_bind_eq_error.mp h
  · obtain ⟨hnull, rfl⟩ | hfile := error_of_checkPath_onFiles hwritten
    · rw [holdsNull_reportPath] at hnull
      exact .inl ⟨hnull, rfl⟩
    · exact .inr (.inl hfile)
  obtain htold | ⟨_, t, _, h⟩ := perform_bind_eq_error.mp h
  · exact .inr (.inr (error_of_say htold))
  · cases h

/-- No report is saved in a directory whose path holds a null character. -/
theorem perform_saveReport_of_holdsNull (hnull : directory.holdsNull = true) (result : Result)
    (around : Surroundings) (s : Session) :
    perform (saveReport result directory) around s = (.error .nullByte, s) := by
  rw [saveReport, perform_bind, makeDirectories, perform_checkPath_bind, Failure.ofPath?,
    if_pos hnull]

/-- Reporting a result fails because the destination holds a null character, or because a line is
refused: that the report was saved or why it was not. -/
theorem error_of_reportResult (h : perform (reportResult result) around s = (.error f, s')) :
    (result.request.destination.holdsNull = true ∧ f = .nullByte) ∨
    ∃ line m, (line = savedLine result.request.destination ∨ ∃ e t,
        perform (saveReport result result.request.destination) around s = (.error (.file e), t) ∧
          line = unsavedLine e) ∧
      Markup.render line = .error m ∧ f = .markup m := by
  rw [perform_reportResult] at h
  split at h
  · cases h
  · next e t hsaved =>
      obtain ⟨m, hrender, rfl⟩ := error_of_say h
      exact .inr ⟨_, m, .inr ⟨e, t, hsaved, rfl⟩, hrender, rfl⟩
  · next g t hfile hsaved =>
      cases h
      obtain hnull | ⟨e, rfl⟩ | ⟨m, hrender, rfl⟩ := error_of_saveReport hsaved
      · exact .inl hnull
      · exact absurd rfl (hfile e)
      · exact .inr ⟨_, m, .inl rfl, hrender, rfl⟩

/-! ### Builds -/

/-- What a build tells outside of its stages: that a stage failed, and that the report was saved or
why it was not. -/
inductive Told (settings : Settings) (r : Request) (around : Surroundings) (s : Session) :
    String → Prop
  | failure {name : String} {e : Failure} (h : StageFails settings r around s name e) :
    Told settings r around s (failureLine name e)
  | saved : Told settings r around s (savedLine r.destination)
  | unsaved {result : Result} {e : FileError} {t t' : Session} (hresult : result.request = r)
    (h : perform (saveReport result r.destination) around t = (.error (.file e), t')) :
    Told settings r around s (unsavedLine e)

/-- A build fails in its stages or with its report. -/
theorem error_of_runBuild (h : perform (runBuild settings r) around s = (.error f, s')) :
    perform (throughEmit settings r) around s = (.error f, s') ∨
      ∃ result t, result.request = r ∧ perform (reportResult result) around t = (.error f, s') := by
  obtain hcompile | ⟨compiled, t₁, hcompile, h⟩ := perform_bind_eq_error.mp h
  · have hinstalled : perform (throughInstall settings r) around s = (.error f, s') :=
      perform_bind_eq_error.mpr (.inl hcompile)
    have hprobed : perform (throughProbe settings r) around s = (.error f, s') :=
      perform_bind_eq_error.mpr (.inl hinstalled)
    exact .inl (perform_bind_eq_error.mpr (.inl hprobed))
  obtain hinstall | ⟨installed, t₂, hinstall, h⟩ := perform_bind_eq_error.mp h
  · have hinstalled : perform (throughInstall settings r) around s = (.error f, s') :=
      perform_bind_eq_error.mpr (.inr ⟨compiled, t₁, hcompile, hinstall⟩)
    have hprobed : perform (throughProbe settings r) around s = (.error f, s') :=
      perform_bind_eq_error.mpr (.inl hinstalled)
    exact .inl (perform_bind_eq_error.mpr (.inl hprobed))
  have hinstalled : perform (throughInstall settings r) around s = (.ok installed, t₂) :=
    perform_bind_eq_ok.mpr ⟨compiled, t₁, hcompile, hinstall⟩
  obtain hprobe | ⟨probed, t₃, hprobe, h⟩ := perform_bind_eq_error.mp h
  · have hprobed : perform (throughProbe settings r) around s = (.error f, s') :=
      perform_bind_eq_error.mpr (.inr ⟨installed, t₂, hinstalled, hprobe⟩)
    exact .inl (perform_bind_eq_error.mpr (.inl hprobed))
  have hprobed : perform (throughProbe settings r) around s = (.ok probed, t₃) :=
    perform_bind_eq_ok.mpr ⟨installed, t₂, hinstalled, hprobe⟩
  obtain hemit | ⟨emitted, t₄, hemit, h⟩ := perform_bind_eq_error.mp h
  · exact .inl (perform_bind_eq_error.mpr (.inr ⟨probed, t₃, hprobed, hemit⟩))
  obtain hreport | ⟨_, t₅, _, h⟩ := perform_bind_eq_error.mp h
  · exact .inr ⟨_, t₄, rfl, hreport⟩
  · cases h

/-- A build gives a result in which just the stages that failed are recorded as failed, each with
the message of its failure, after the lines that tell so were shown. -/
def Returns (settings : Settings) (r : Request) (around : Surroundings) (s : Session) : Prop :=
  ∃ result s', perform (runBuild settings r) around s = (.ok result, s') ∧
    (∀ name e, StageFails settings r around s name e →
      (∃ shown, Markup.render (failureLine name e) = .ok shown) ∧
        ∃ stage ∈ result.stages, stage.Records name e) ∧
    ∀ stage ∈ result.stages, stage.status = .failed →
      ∃ e, StageFails settings r around s stage.name e ∧ stage.Records stage.name e

/-- A build that gives a result has a destination without a null character. -/
theorem Returns.holdsNull_eq_false (h : Returns settings r around s) :
    r.destination.holdsNull = false := by
  obtain ⟨result, s', hbuild, -⟩ := h
  obtain ⟨run⟩ := nonempty_run hbuild
  refine Bool.eq_false_iff.mpr fun hnull ↦ ?_
  have hsaved := perform_saveReport_of_holdsNull hnull result around run.afterEmit
  have hreport := run.report
  rw [perform_reportResult, run.request_eq, hsaved] at hreport
  cases hreport

/-- A build gives a result, or raises the failure of a line that it tells, or refuses a destination
that holds a null character. -/
theorem returns_or_raises (settings : Settings) (r : Request) (around : Surroundings)
    (s : Session) :
    Returns settings r around s ∨
    (∃ line m s', Told settings r around s line ∧ Markup.render line = .error m ∧
      perform (runBuild settings r) around s = (.error (.markup m), s')) ∨
    (r.destination.holdsNull = true ∧
      ∃ s', perform (runBuild settings r) around s = (.error .nullByte, s')) := by
  have hcollects := collects_throughEmit settings r around s
  rcases hbuild : perform (runBuild settings r) around s with ⟨f | result, s'⟩
  · right
    obtain hstages | ⟨result, t, rfl, hreport⟩ := error_of_runBuild hbuild
    · obtain ⟨name, e, m, hfails, hrender, rfl⟩ := hcollects.raised f s' hstages
      exact .inl ⟨_, m, s', .failure hfails, hrender, rfl⟩
    · obtain ⟨hnull, rfl⟩ | ⟨line, m, rfl | ⟨e, t', hsaved, rfl⟩, hrender, rfl⟩ :=
        error_of_reportResult hreport
      · exact .inr ⟨hnull, s', rfl⟩
      · exact .inl ⟨_, m, s', .saved, hrender, rfl⟩
      · exact .inl ⟨_, m, s', .unsaved rfl hsaved, hrender, rfl⟩
  · left
    obtain ⟨run⟩ := nonempty_run hbuild
    have hemitted := run.throughEmit_eq
    refine ⟨result, s', hbuild, ?_, ?_⟩
    · rw [run.stages_eq]
      exact hcollects.recorded _ _ hemitted
    · rw [run.stages_eq]
      exact hcollects.failed _ _ hemitted

/-- The lines of a build whose messages and destination hold no opening bracket can be shown. -/
theorem Told.render {line : String} (h : Told settings r around s line)
    (hfailures : ∀ name e, StageFails settings r around s name e → '[' ∉ e.message.toList)
    (hpath : '[' ∉ (r.destination.below reportFileName).text.toList)
    (hunsaved : ∀ result e t t', result.request = r →
      perform (saveReport result r.destination) around t = (.error (.file e), t') →
        '[' ∉ e.message.toList) : ∃ shown, Markup.render line = .ok shown := by
  cases h with
  | @failure name e hfails =>
      have hname : '[' ∉ name.toList := by
        cases hfails <;> decide
      apply Markup.exists_render_of_eq (.styled "" .red (name ++ " failed: " ++ e.message) "")
      · simp [failureLine, Markup.Line.markup, Markup.Style.red, String.toList_append]
      · simp [Markup.Line.texts, String.toList_append, hname, hfailures name e hfails]
  | saved =>
      unfold savedLine
      generalize (r.destination.below reportFileName).text = path at hpath ⊢
      apply Markup.exists_render_of_eq (.styled "  " .dim ("Report saved: " ++ path) "")
      · simp [Markup.Line.markup, Markup.Style.dim, String.toList_append]
      · simp [Markup.Line.texts, String.toList_append, hpath]
  | @unsaved result e t t' hresult hsaved =>
      have hmessage := hunsaved result e t t' hresult hsaved
      unfold unsavedLine
      generalize e.message = message at hmessage ⊢
      apply Markup.exists_render_of_eq
        (.styled "" .yellow ("Could not save build report: " ++ message) "")
      · simp [Markup.Line.markup, Markup.Style.yellow, String.toList_append]
      · simp [Markup.Line.texts, String.toList_append, hmessage]

/-- A build gives a result in which just the stages that failed are recorded, with two exceptions.
The markup of a line may be refused that tells of a stage that failed or of the report, and then
this is what the build raises; and a destination that holds a null character is refused after all
stages. No line is refused if neither the failures' messages nor the report's path hold an opening
bracket. -/
theorem runBuild_collects_failures (settings : Settings) (r : Request) (around : Surroundings)
    (s : Session) :
    (Returns settings r around s ∨
      (∃ line m s', Told settings r around s line ∧ Markup.render line = .error m ∧
        perform (runBuild settings r) around s = (.error (.markup m), s')) ∨
      (r.destination.holdsNull = true ∧
        ∃ s', perform (runBuild settings r) around s = (.error .nullByte, s'))) ∧
    (Returns settings r around s → r.destination.holdsNull = false) ∧
    (r.destination.holdsNull = false →
      (∀ name e, StageFails settings r around s name e → '[' ∉ e.message.toList) →
      '[' ∉ (r.destination.below reportFileName).text.toList →
      (∀ result e t t', result.request = r →
        perform (saveReport result r.destination) around t = (.error (.file e), t') →
          '[' ∉ e.message.toList) → Returns settings r around s) := by
  refine ⟨returns_or_raises settings r around s, Returns.holdsNull_eq_false, ?_⟩
  intro hnull hfailures hpath hunsaved
  obtain hreturns | ⟨line, m, s', htold, hrefused, _⟩ | ⟨hnull', _⟩ :=
    returns_or_raises settings r around s
  · exact hreturns
  · obtain ⟨shown, hrender⟩ := htold.render hfailures hpath hunsaved
    cases hrender.symm.trans hrefused
  · cases hnull.symm.trans hnull'

/-- Surroundings in which a build tool fails and writes a closing tag that closes nothing. -/
def sampleFailing : Surroundings where
  tools := {
    listSymbols := sampleSurroundings.tools.listSymbols
    build := fun _ _ files ↦
      (.exited 1 [] (Utf8.encode "undefined symbol [/b]"), files.tree) }
  clock := sampleSurroundings.clock
  now := sampleSurroundings.now
  processors := none
  project := sampleSurroundings.project
  located := none
  loadable := []

/-- A build whose tool writes such a tag raises the failure of the line that tells so. -/
theorem runBuild_sample_raises :
    (perform (runBuild sampleSettings { sampleRequest with skipCompile := false }) sampleFailing
      (sampleSession sampleFiles)).1 = .error (.markup (.unmatchedClose "/b" 56)) := by
  decide +kernel

end Vendoring.Build
