import Vendoring.Proofs.Build.Requesting
import Vendoring.Proofs.Text.Utf8

/-!
# Compilations

A compilation has two steps that run the build tool, and each of them either went well, or failed
with a diagnostic, or was stopped: by what the tool wrote, which has to be text even of a run that
went well, or because there is no run of that command line or within that time. Before the second
step the number of jobs has to be written. So a compilation of a library that is there gives a
result just when no run made stops it and the number of jobs has not too many digits. A result
accounts for what was done: it tells which runs were made, with which environment and within which
time, whether both went well, and of the one that did not why.
-/

namespace Vendoring.Build

open Vendoring.Text Vendoring.Files Vendoring.Tool Vendoring.Instrumentation
open Vendoring.Action

/-! ### Runs of the build tool -/

/-- The tool exited with status zero. -/
def Succeeds : Outcome → Prop
  | .exited status _ _ => status = 0
  | _ => False

/-- There was a run, or a try at one, and whatever the tool came to write is text. -/
def IsJudged : Outcome → Prop
  | .exited _ output errors => Utf8.IsText output ∧ Utf8.IsText errors
  | .notStarted _ => True
  | .timedOut => True
  | .refused => False
  | .unwaitable _ => False

/-- The first fault in what the tool wrote, its output being read before its errors. -/
inductive Garbles : Outcome → Utf8.DecodeError → Prop
  | output {status output errors e} (h : Utf8.decode output = .error e) :
      Garbles (.exited status output errors) e
  | errors {status output errors e} (htext : Utf8.IsText output)
      (h : Utf8.decode errors = .error e) : Garbles (.exited status output errors) e

/-- Why a run stops the step that it is made for: what the tool wrote is no text, no tool can be
started with its command line, or its time limit cannot be waited for. -/
inductive Stops : Outcome → Failure → Prop
  | garbled {o e} (h : Garbles o e) : Stops o (.undecodable e)
  | refused : Stops .refused .nullByte
  | unwaitable (wording : String) :
      Stops (.unwaitable wording) (.integer (.outOfRange wording))

/-- Why a run did not go well: the first that is not empty of the text it wrote as errors, the text
it wrote as output, and a text that tells its status; that it ran out of time; or why the tool did
not start. Line endings in what it wrote are read as line feeds. -/
inductive Explains (tool : String) : Outcome → String → Prop
  | exited {status output errors why} (hstatus : status ≠ 0)
      (h : [unified errors, unified output, "exit status " ++ intText status].find? (· ≠ "") =
        some why) :
      Explains tool (.exited status (Utf8.encode output) (Utf8.encode errors)) why
  | notStarted (fault : LaunchFault) : Explains tool (.notStarted fault) (fault.message tool)
  | timedOut : Explains tool .timedOut ((Path.ofString tool).name ++ " timed out")

/-- What becomes of a run of the build tool in a session. -/
def outcomeOf (tools : Toolbox) (run : Invocation) (s : Session) : Outcome :=
  (tools.build s.builds run s.files).1

/-- A session after a run of the build tool. -/
def afterBuilder (tools : Toolbox) (run : Invocation) (s : Session) : Session :=
  { s with
    calls := s.calls ++ [run]
    builds := s.builds + 1
    files := { s.files with tree := (tools.build s.builds run s.files).2 } }

/-- Bytes that cannot be decoded are no text. -/
theorem not_isText_of_decode {bytes : List UInt8} {e : Utf8.DecodeError}
    (h : Utf8.decode bytes = .error e) : ¬Utf8.IsText bytes := by
  intro htext
  obtain ⟨text, hdecoded⟩ := Utf8.isText_iff.mp htext
  rw [h] at hdecoded
  cases hdecoded

/-- A run that stops its step is not judged. -/
theorem Stops.not_isJudged {o : Outcome} {e : Failure} (h : Stops o e) : ¬IsJudged o := by
  cases h with
  | garbled h =>
      cases h with
      | output h => exact fun htext ↦ not_isText_of_decode h htext.1
      | errors _ h => exact fun htext ↦ not_isText_of_decode h htext.2
  | refused => exact id
  | unwaitable => exact id

/-! ### Steps of a compilation -/

/-- How a step of a compilation ends, by what became of its run. -/
inductive StepEnds (tool : String) : Outcome → Except Failure (Except StepFault Unit) → Prop
  | done {o} (hexit : Succeeds o) (hjudged : IsJudged o) : StepEnds tool o (.ok (.ok ()))
  | failed {o fault} (hexit : ¬Succeeds o) (hjudged : IsJudged o)
      (hwhy : Explains tool o fault.message) : StepEnds tool o (.ok (.error fault))
  | stopped {o e} (h : Stops o e) : StepEnds tool o (.error e)

namespace StepEnds

variable {tool : String} {o : Outcome}

/-- A step went well when its run did and was judged. -/
theorem of_ok (h : StepEnds tool o (.ok (.ok ()))) : Succeeds o ∧ IsJudged o := by
  cases h with
  | done hexit hjudged => exact ⟨hexit, hjudged⟩

/-- A step failed when its run did and was judged, and the fault tells why. -/
theorem of_fault {fault : StepFault} (h : StepEnds tool o (.ok (.error fault))) :
    ¬Succeeds o ∧ IsJudged o ∧ Explains tool o fault.message := by
  cases h with
  | failed hexit hjudged hwhy => exact ⟨hexit, hjudged, hwhy⟩

/-- A step that gave no result was stopped by its run. -/
theorem of_error {e : Failure} (h : StepEnds tool o (.error e)) : Stops o e := by
  cases h with
  | stopped h => exact h

end StepEnds

/-- The wording of an exit with another status than zero is the first text that is not empty. -/
theorem find?_message (status : Int) (output errors : String) :
    [errors, output, "exit status " ++ intText status].find? (· ≠ "") =
      some (StepFault.exited status output errors).message := by
  have hstatus : "exit status " ++ intText status ≠ "" := by
    intro h
    exact absurd (String.append_eq_empty_iff.mp h).1 (by decide)
  by_cases herrors : errors = ""
  · by_cases houtput : output = ""
    · simp [StepFault.message, herrors, houtput, hstatus]
    · simp [StepFault.message, herrors, houtput]
  · simp [StepFault.message, herrors]

/-- Running the build tool records the run and leaves the files as the tool does. -/
theorem perform_runBuilder (run : Invocation) (around : Surroundings) (s : Session) :
    perform (runBuilder run) around s =
      (.ok (outcomeOf around.tools run s), afterBuilder around.tools run s) := rfl

private theorem stepEnds_exited (tool : String) (status : Int) (output errors : List UInt8)
    (around : Surroundings) (s : Session) :
    ∃ result,
      perform (do
        let output ← decoded output
        let errors ← decoded errors
        return if status = 0 then .ok () else .error (.exited status output errors)) around s =
        (result, s) ∧
      StepEnds tool (.exited status output errors) result := by
  simp only [perform_bind, perform_decoded]
  cases houtput : Utf8.decode output with
  | error e => exact ⟨_, rfl, .stopped (.garbled (.output houtput))⟩
  | ok text =>
      have htext : Utf8.IsText output := Utf8.isText_iff.mpr ⟨text, houtput⟩
      cases herrors : Utf8.decode errors with
      | error e => exact ⟨_, rfl, .stopped (.garbled (.errors htext herrors))⟩
      | ok text' =>
          have htext' : Utf8.IsText errors := Utf8.isText_iff.mpr ⟨text', herrors⟩
          refine ⟨_, rfl, ?_⟩
          by_cases hstatus : status = 0
          · rw [if_pos hstatus]
            exact .done hstatus ⟨htext, htext'⟩
          · rw [if_neg hstatus]
            refine .failed hstatus ⟨htext, htext'⟩ ?_
            obtain rfl := Utf8.decode_eq_ok_iff.mp houtput
            obtain rfl := Utf8.decode_eq_ok_iff.mp herrors
            exact .exited hstatus (find?_message status (unified text) (unified text'))

/-- A step makes one run, and ends by what became of it. What has been shown before has no influence
on it. -/
theorem perform_runStep (words : List String) (settings : Settings) (around : Surroundings)
    (s : Session) (shown : List String) :
    ∃ result console,
      perform (runStep words settings) around { s with console := shown } =
        (result, { afterBuilder around.tools (building words settings s.environment) s with
          console }) ∧
      StepEnds (building words settings s.environment).tool
        (outcomeOf around.tools (building words settings s.environment) s) result := by
  obtain ⟨console, hdebug⟩ := perform_debug settings.debug "compiler" (" ".intercalate words) around
    { s with console := shown }
  have hrun := perform_runBuilder (building words settings s.environment) around
    { s with console }
  have hsame : outcomeOf around.tools (building words settings s.environment) { s with console } =
    outcomeOf around.tools (building words settings s.environment) s := rfl
  unfold runStep
  rw [perform_bind, hdebug]
  dsimp only
  rw [perform_bind, perform_get]
  dsimp only
  rw [perform_bind]
  unfold building at hrun hsame ⊢
  rw [hrun, hsame]
  cases outcomeOf around.tools _ s with
  | exited status output errors =>
      obtain ⟨result, hjudged, hends⟩ := stepEnds_exited _ status output errors around _
      exact ⟨result, console, hjudged, hends⟩
  | notStarted fault => exact ⟨_, _, rfl, .failed nofun trivial (.notStarted fault)⟩
  | timedOut => exact ⟨_, _, rfl, .failed nofun trivial .timedOut⟩
  | refused => exact ⟨_, _, rfl, .stopped .refused⟩
  | unwaitable wording => exact ⟨_, _, rfl, .stopped (.unwaitable wording)⟩

/-! ### A compilation -/

/-- A compilation to be done: of what, with which settings, and from which session on. -/
structure Compilation where
  settings : Settings
  source : Path
  build : Path
  profile : Profile
  around : Surroundings
  start : Session

namespace Compilation

variable (c : Compilation)

/-- What a compilation gives, and the session that it leaves. -/
def performed : Except Failure (Except CompileError Unit) × Session :=
  perform (compile c.settings c.source c.build c.profile) c.around c.start

/-- The source is there. -/
def HasSource : Prop := c.start.files.lookUp c.source = .ok (some .directory)

/-- The number of jobs has not too many digits to be written. -/
def CountsJobs : Prop := ∃ text, writtenInt c.settings.buildJobs = .ok text

/-- The run that configures the build. -/
def configuring : Invocation :=
  building (configureCommand c.source.text c.build.text c.profile c.settings) c.settings
    c.start.environment

/-- The run that builds what is configured. -/
def constructing : Invocation :=
  building (buildCommand c.build.text c.settings) c.settings c.start.environment

/-- The session with the build directory made. -/
def prepared : Session :=
  { c.start with files := (perform (makeDirectories c.build) c.around c.start).2.files }

/-- The session with the build configured. -/
def configured : Session := afterBuilder c.around.tools c.configuring c.prepared

/-- The session with the library built. -/
def constructed : Session := afterBuilder c.around.tools c.constructing c.configured

/-- What becomes of configuring. -/
def configureOutcome : Outcome := outcomeOf c.around.tools c.configuring c.prepared

/-- What becomes of building. -/
def buildOutcome : Outcome := outcomeOf c.around.tools c.constructing c.configured

/-- The source is there and the build directory is made. -/
structure IsPrepared : Prop where
  source : c.HasSource
  directory : (perform (makeDirectories c.build) c.around c.start).1 = .ok ()

/-- How a compilation goes, by the step that it ends with. -/
inductive Goes : Except Failure (Except CompileError Unit) → Session → Prop
  | unfound {e} (hsource : c.start.files.lookUp c.source = .error e) :
      Goes (.error (.file e)) c.start
  | noSource (hsource : ¬c.HasSource) : Goes (.ok (.error (.noSource c.source.text))) c.start
  | unprepared {e} (hsource : c.HasSource)
      (hmade : (perform (makeDirectories c.build) c.around c.start).1 = .error e) :
      Goes (.error e) c.prepared
  | untold {e} (hprepared : c.IsPrepared)
      (htold : Markup.render (configuringLine c.source c.profile) = .error e) :
      Goes (.error (.markup e)) c.prepared
  | configureStopped {e console} (hprepared : c.IsPrepared)
      (h : StepEnds c.settings.cmake c.configureOutcome (.error e)) :
      Goes (.error e) { c.configured with console }
  | configureFailed {fault console} (hprepared : c.IsPrepared)
      (h : StepEnds c.settings.cmake c.configureOutcome (.ok (.error fault))) :
      Goes (.ok (.error (.configure fault))) { c.configured with console }
  | uncounted {e console} (hprepared : c.IsPrepared)
      (h : StepEnds c.settings.cmake c.configureOutcome (.ok (.ok ())))
      (hjobs : writtenInt c.settings.buildJobs = .error e) :
      Goes (.error (.integer e)) { c.configured with console }
  | buildStopped {e console} (hprepared : c.IsPrepared)
      (h : StepEnds c.settings.cmake c.configureOutcome (.ok (.ok ())))
      (hjobs : c.CountsJobs) (h' : StepEnds c.settings.cmake c.buildOutcome (.error e)) :
      Goes (.error e) { c.constructed with console }
  | buildFailed {fault console} (hprepared : c.IsPrepared)
      (h : StepEnds c.settings.cmake c.configureOutcome (.ok (.ok ())))
      (hjobs : c.CountsJobs) (h' : StepEnds c.settings.cmake c.buildOutcome (.ok (.error fault))) :
      Goes (.ok (.error (.build fault))) { c.constructed with console }
  | built {console} (hprepared : c.IsPrepared)
      (h : StepEnds c.settings.cmake c.configureOutcome (.ok (.ok ())))
      (hjobs : c.CountsJobs) (h' : StepEnds c.settings.cmake c.buildOutcome (.ok (.ok ()))) :
      Goes (.ok (.ok ())) { c.constructed with console }

/-- The last step of a compilation. -/
def lastStep : Action (Except CompileError Unit) := do
  writable c.settings.buildJobs
  match ← runStep (buildCommand c.build.text c.settings) c.settings with
  | .error fault => return .error (.build fault)
  | .ok _ => return .ok ()

/-- Both steps of a compilation. -/
def steps : Action (Except CompileError Unit) := do
  match ← runStep (configureCommand c.source.text c.build.text c.profile c.settings) c.settings with
  | .error fault => return .error (.configure fault)
  | .ok _ =>
    say "  [dim]Building…[/]"
    c.lastStep

variable {c}

private theorem goes_lastStep (hprepared : c.IsPrepared)
    (h : StepEnds c.settings.cmake c.configureOutcome (.ok (.ok ()))) (console : List String) :
    c.Goes (perform c.lastStep c.around { c.configured with console }).1
      (perform c.lastStep c.around { c.configured with console }).2 := by
  obtain ⟨result, _, hstep, hends⟩ := perform_runStep (buildCommand c.build.text c.settings)
    c.settings c.around c.configured console
  have hrun : building (buildCommand c.build.text c.settings) c.settings c.configured.environment =
    c.constructing := rfl
  rw [hrun] at hstep hends
  rw [lastStep, perform_bind, perform_writable]
  cases hjobs : writtenInt c.settings.buildJobs with
  | error e => exact .uncounted hprepared h hjobs
  | ok text =>
      dsimp only [Except.map, Except.mapError]
      rw [perform_bind, hstep]
      rcases result with e | fault | _
      · exact .buildStopped hprepared h ⟨text, hjobs⟩ hends
      · dsimp only
        rw [perform_pure]
        exact .buildFailed hprepared h ⟨text, hjobs⟩ hends
      · dsimp only
        rw [perform_pure]
        exact .built hprepared h ⟨text, hjobs⟩ hends

private theorem goes_steps (hprepared : c.IsPrepared) (console : List String) :
    c.Goes (perform c.steps c.around { c.prepared with console }).1
      (perform c.steps c.around { c.prepared with console }).2 := by
  obtain ⟨result, _, hstep, hends⟩ := perform_runStep
    (configureCommand c.source.text c.build.text c.profile c.settings) c.settings c.around
    c.prepared console
  have hrun : building (configureCommand c.source.text c.build.text c.profile c.settings) c.settings
    c.prepared.environment = c.configuring := rfl
  rw [hrun] at hstep hends
  unfold steps
  rw [perform_bind, hstep]
  rcases result with e | fault | _
  · exact .configureStopped hprepared hends
  · dsimp only
    rw [perform_pure]
    exact .configureFailed hprepared hends
  · obtain ⟨_, hshown⟩ : ∃ shown, Markup.render "  [dim]Building…[/]" = .ok shown := ⟨_, rfl⟩
    dsimp only
    rw [perform_bind, perform_say, hshown]
    exact goes_lastStep hprepared hends _

variable (c)

/-- Every compilation goes on to one of its ends. -/
theorem goes : c.Goes c.performed.1 c.performed.2 := by
  unfold performed compile
  rw [perform_bind, perform_lookUp]
  cases hfound : c.start.files.lookUp c.source with
  | error e => exact .unfound hfound
  | ok found =>
      dsimp only [Except.mapError]
      by_cases hdirectory : found = some .directory
      · have hsource : c.HasSource := hfound.trans (congrArg _ hdirectory)
        rw [if_neg (not_not_intro hdirectory), perform_bind]
        have hleft := session_makeDirectories c.build c.around c.start
        rcases hmade : perform (makeDirectories c.build) c.around c.start with ⟨e | u, t⟩
        · obtain rfl : t = c.prepared := by rw [prepared, ← hleft, hmade]
          exact .unprepared hsource (by rw [hmade])
        · obtain rfl : t = c.prepared := by rw [prepared, ← hleft, hmade]
          have hprepared : c.IsPrepared := ⟨hsource, by rw [hmade]⟩
          dsimp only
          rw [perform_bind, perform_say]
          cases htold : Markup.render (configuringLine c.source c.profile) with
          | error e =>
              unfold configuringLine at htold
              rw [htold]
              exact .untold hprepared htold
          | ok shown =>
              unfold configuringLine at htold
              rw [htold]
              exact goes_steps hprepared _
      · rw [if_pos hdirectory]
        refine .noSource fun hsource ↦ hdirectory ?_
        exact Except.ok.inj (hfound.symm.trans hsource)

/-! ### What the tool decides -/

/-- A compilation begins whose source is there, under a name without a slash, and whose build
directory is made. -/
structure Begins : Prop extends c.IsPrepared where
  name : '/' ∉ c.source.name.toList

/-- What the runs made and the number of jobs decide: whether there is a result, whether it is that
all went well, and what there is instead of a result. -/
structure DecidedByRuns : Prop where
  returns_iff : (∃ result, c.performed.1 = .ok result) ↔
    IsJudged c.configureOutcome ∧
      (Succeeds c.configureOutcome → c.CountsJobs ∧ IsJudged c.buildOutcome)
  succeeds_iff : c.performed.1 = .ok (.ok ()) ↔
    (Succeeds c.configureOutcome ∧ IsJudged c.configureOutcome) ∧ c.CountsJobs ∧
      Succeeds c.buildOutcome ∧ IsJudged c.buildOutcome
  stops : ∀ e, c.performed.1 = .error e →
    Stops c.configureOutcome e ∨
    (Succeeds c.configureOutcome ∧ IsJudged c.configureOutcome) ∧
      ((∃ fault, writtenInt c.settings.buildJobs = .error fault ∧ e = .integer fault) ∨
        c.CountsJobs ∧ Stops c.buildOutcome e)

/-- A compilation that begins gives a result just when the runs made are judged and the number of
jobs, which the second of them needs, can be written. -/
theorem decided_by_runs (h : c.Begins) : c.DecidedByRuns := by
  suffices hgoes : ∀ {r t}, c.Goes r t → c.performed.1 = r → c.DecidedByRuns from hgoes c.goes rfl
  intro r t hgoes hr
  cases hgoes with
  | unfound hsource => cases hsource.symm.trans h.source
  | noSource hsource => exact absurd h.source hsource
  | unprepared _ hmade =>
      rw [h.directory] at hmade
      cases hmade
  | untold _ htold =>
      obtain ⟨_, hshown⟩ := exists_render_configuringLine h.name c.profile
      rw [hshown] at htold
      cases htold
  | configureStopped _ hstep =>
      have hstops := hstep.of_error
      have hnot := hstops.not_isJudged
      exact ⟨by simp [hr, hnot], by simp [hr, hnot], by simp [hr, hstops]⟩
  | configureFailed _ hstep =>
      obtain ⟨hexit, hjudged, _⟩ := hstep.of_fault
      exact ⟨by simp [hr, hexit, hjudged], by simp [hr, hexit], by simp [hr]⟩
  | uncounted _ hstep hjobs =>
      obtain ⟨hexit, hjudged⟩ := hstep.of_ok
      have hnot : ¬c.CountsJobs := by simp [CountsJobs, hjobs]
      exact ⟨by simp [hr, hexit, hnot], by simp [hr, hnot], by simp [hr, hexit, hjudged, hjobs]⟩
  | buildStopped _ hstep hjobs hstep' =>
      obtain ⟨hexit, hjudged⟩ := hstep.of_ok
      have hstops := hstep'.of_error
      have hnot := hstops.not_isJudged
      exact ⟨by simp [hr, hexit, hnot], by simp [hr, hnot],
        by simp [hr, hexit, hjudged, hjobs, hstops]⟩
  | buildFailed _ hstep hjobs hstep' =>
      obtain ⟨hexit, hjudged⟩ := hstep.of_ok
      obtain ⟨hexit', hjudged', _⟩ := hstep'.of_fault
      exact ⟨by simp [hr, hjudged, hjobs, hjudged'], by simp [hr, hexit'], by simp [hr]⟩
  | built _ hstep hjobs hstep' =>
      obtain ⟨hexit, hjudged⟩ := hstep.of_ok
      obtain ⟨hexit', hjudged'⟩ := hstep'.of_ok
      exact ⟨by simp [hr, hjudged, hjobs, hjudged'],
        by simp [hr, hexit, hjudged, hjobs, hexit', hjudged'], by simp [hr]⟩

/-- A source that has one file. -/
def sampleSource : Workspace := (⟨.empty, []⟩ : Workspace).plant (.ofString "src/a.c") (.file [])

/-- A compilation of a source that has one file, in which the first run of the build tool has an
outcome and every other one exits with zero and writes nothing. -/
def sample (first : Outcome) : Compilation where
  settings := sampleSettings
  source := .ofString "src"
  build := .ofString "build"
  profile := .plain
  around := { sampleSurroundings with
    tools := { sampleSurroundings.tools with
      build := fun k _ files ↦ (if k = 0 then first else .exited 0 [] [], files.tree) } }
  start := sampleSession sampleSource

/-- A first run that exits with zero and writes a byte that starts no character. -/
def sampleGarbled : Compilation := sample (.exited 0 [0xFF] [])

/-- The sample begins, whatever becomes of its first run. -/
theorem begins_sample (first : Outcome) : (sample first).Begins where
  source := by
    show sampleSource.lookUp (.ofString "src") = .ok (some .directory)
    decide +kernel
  name := by
    show '/' ∉ (Path.ofString "src").name.toList
    decide
  directory := by
    have hpath : Failure.ofPath? (sample first).build = none := by
      show Failure.ofPath? (.ofString "build") = none
      decide +kernel
    rw [makeDirectories, perform_checkPath_bind, hpath]
    dsimp only
    rw [perform_onFiles]
    rfl

/-- The sample is decided by its runs. -/
theorem sampleGarbled_decided_by_runs : sampleGarbled.Begins ∧ sampleGarbled.DecidedByRuns :=
  ⟨begins_sample _, decided_by_runs _ (begins_sample _)⟩

/-- A compilation stops although it begins and every run of the tool exits with zero, because the
first one writes a byte that starts no character. -/
theorem sampleGarbled_stops :
    sampleGarbled.Begins ∧ Succeeds sampleGarbled.configureOutcome ∧
      Succeeds sampleGarbled.buildOutcome ∧
      perform (compile sampleGarbled.settings sampleGarbled.source sampleGarbled.build
        sampleGarbled.profile) sampleGarbled.around sampleGarbled.start =
        (.error (.undecodable ⟨.invalidStart, 0, [0xFF]⟩), sampleGarbled.performed.2) :=
  ⟨begins_sample _, rfl, rfl, rfl⟩

/-! ### What an answer accounts for -/

/-- What a compilation answers: whether it went well, and the diagnostic if it did not. -/
def answer : Except CompileError Unit → Bool × String
  | .ok () => (true, "")
  | .error e => (false, e.message)

/-- The diagnostics of a compilation, each by the step that failed and with the reason why. -/
inductive Tells : String → Prop
  | noSource (hsource : ¬c.HasSource) : Tells ("Source directory not found: " ++ c.source.text)
  | configure {why} (hsource : c.HasSource) (hexit : ¬Succeeds c.configureOutcome)
      (hwhy : Explains c.settings.cmake c.configureOutcome why) :
      Tells ("configure failed: " ++ why)
  | build {why} (hsource : c.HasSource) (hexit : Succeeds c.configureOutcome)
      (hexit' : ¬Succeeds c.buildOutcome)
      (hwhy : Explains c.settings.cmake c.buildOutcome why) :
      Tells ("build failed: " ++ why)

/-- A run is made within the time of the settings, and in the environment of the session with the
compiler of the settings. -/
def IsSet (run : Invocation) : Prop :=
  run.timeout = c.settings.compileTimeout ∧
    ∃ environment, run.environment = some environment ∧
      environment.get? "CC" = some c.settings.cc ∧
      ∀ name, name ≠ "CC" → environment.get? name = c.start.environment.get? name

/-- A compilation's answer and the session that it left account for what was done. -/
structure AccountsFor (well : Bool) (diagnostic : String) (t : Session) : Prop where
  nothing_done : ¬c.HasSource → t = c.start
  configured_alone : c.HasSource → ¬Succeeds c.configureOutcome →
    t.calls = c.start.calls ++ [c.configuring]
  configured_and_built : c.HasSource → Succeeds c.configureOutcome →
    t.calls = c.start.calls ++ [c.configuring, c.constructing]
  set : ∀ run ∈ [c.configuring, c.constructing], c.IsSet run
  well_iff : well = true ↔ c.HasSource ∧ Succeeds c.configureOutcome ∧ Succeeds c.buildOutcome
  diagnostic_eq_empty_iff : diagnostic = "" ↔ well = true
  tells : well = false → c.Tells diagnostic

private theorem isSet_building (words : List String) :
    c.IsSet (building words c.settings c.start.environment) :=
  ⟨rfl, _, rfl, Settings.Environment.get?_set_self _ _ _,
    fun _ hname ↦ Settings.Environment.get?_set_of_ne _ _ hname⟩

private theorem isSet_of_mem {run : Invocation} (h : run ∈ [c.configuring, c.constructing]) :
    c.IsSet run := by
  simp only [List.mem_cons, List.not_mem_nil, or_false] at h
  rcases h with rfl | rfl
  · exact c.isSet_building _
  · exact c.isSet_building _

/-- The answer of every compilation that gives one accounts for what was done. -/
theorem answer_accounts {result : Except CompileError Unit} {t : Session}
    (h : perform (compile c.settings c.source c.build c.profile) c.around c.start =
      (.ok result, t)) :
    c.AccountsFor (answer result).1 (answer result).2 t := by
  have hgoes := c.goes
  unfold performed at hgoes
  rw [h] at hgoes
  cases hgoes with
  | noSource hsource =>
      exact {
        nothing_done := fun _ ↦ rfl
        configured_alone := fun hthere ↦ absurd hthere hsource
        configured_and_built := fun hthere ↦ absurd hthere hsource
        set := fun _ ↦ c.isSet_of_mem
        well_iff := by simp [answer, hsource]
        diagnostic_eq_empty_iff := by simp [answer, CompileError.message_ne_empty]
        tells := fun _ ↦ .noSource hsource }
  | configureFailed hprepared hstep =>
      obtain ⟨hexit, _, hwhy⟩ := hstep.of_fault
      exact {
        nothing_done := fun hmissing ↦ absurd hprepared.source hmissing
        configured_alone := fun _ _ ↦ rfl
        configured_and_built := fun _ hwell ↦ absurd hwell hexit
        set := fun _ ↦ c.isSet_of_mem
        well_iff := by simp [answer, hexit]
        diagnostic_eq_empty_iff := by simp [answer, CompileError.message_ne_empty]
        tells := fun _ ↦ .configure hprepared.source hexit hwhy }
  | buildFailed hprepared hstep _ hstep' =>
      obtain ⟨hexit, _⟩ := hstep.of_ok
      obtain ⟨hexit', _, hwhy⟩ := hstep'.of_fault
      exact {
        nothing_done := fun hmissing ↦ absurd hprepared.source hmissing
        configured_alone := fun _ hfailed ↦ absurd hexit hfailed
        configured_and_built := fun _ _ ↦ List.append_assoc _ _ _
        set := fun _ ↦ c.isSet_of_mem
        well_iff := by simp [answer, hexit']
        diagnostic_eq_empty_iff := by simp [answer, CompileError.message_ne_empty]
        tells := fun _ ↦ .build hprepared.source hexit hexit' hwhy }
  | built hprepared hstep _ hstep' =>
      exact {
        nothing_done := fun hmissing ↦ absurd hprepared.source hmissing
        configured_alone := fun _ hfailed ↦ absurd hstep.of_ok.1 hfailed
        configured_and_built := fun _ _ ↦ List.append_assoc _ _ _
        set := fun _ ↦ c.isSet_of_mem
        well_iff := by simp [answer, hprepared.source, hstep.of_ok.1, hstep'.of_ok.1]
        diagnostic_eq_empty_iff := by simp [answer]
        tells := nofun }

/-- A first run that exits with a status and writes nothing. -/
def sampleFailing : Compilation := sample (.exited 2 [] [])

/-- The answer of a sample that fails is accounted for, and tells the status. -/
theorem sampleFailing_answer_accounts :
    ∃ result t,
      perform (compile sampleFailing.settings sampleFailing.source sampleFailing.build
        sampleFailing.profile) sampleFailing.around sampleFailing.start = (.ok result, t) ∧
      answer result = (false, "configure failed: exit status 2") ∧
      sampleFailing.AccountsFor (answer result).1 (answer result).2 t :=
  ⟨_, _, rfl, rfl, answer_accounts _ rfl⟩

end Compilation

end Vendoring.Build
