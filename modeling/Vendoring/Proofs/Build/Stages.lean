import Vendoring.Build.VendorBuild
import Vendoring.Proofs.Session.Frames

/-!
# Stages of a build

The frames that each stage of a build stays within, what going on to the next stage does, and the
invariant of a build's progress: as long as something is handed on every stage went well, and from
the first stage that failed on nothing is done any more.
-/

namespace Vendoring.Build

open Vendoring.Files Vendoring.Tool Vendoring.Provenance

/-- The run that lists the symbols of an archive. -/
def listing (settings : Settings) (archive : Path) : Invocation :=
  ⟨[settings.nmTool, archive.text], settings.probeTimeout, none⟩

/-- A run lists the symbols of some archive. -/
def IsListing (settings : Settings) (run : Invocation) : Prop :=
  ∃ archive, run = listing settings archive

/-! ### Frames of the stages -/

section Frames

open Vendoring.Action

variable {F : Frame} {settings : Settings}

/-- A frame that listings of symbols are within. -/
def AllowsListings (settings : Settings) (F : Frame) : Prop :=
  ∀ archive, Within F (runLister (listing settings archive) archive)

/-- Listing symbols runs nothing else. -/
theorem allowsListings_onlyRuns : AllowsListings settings (.onlyRuns (IsListing settings)) := by
  intro archive around s
  rw [perform_runLister]
  refine ⟨rfl, [listing settings archive], rfl, ?_⟩
  intro run hrun
  rw [List.mem_singleton] at hrun
  exact ⟨archive, hrun⟩

/-- Listing symbols leaves the current directory as it is. -/
theorem allowsListings_sameHere : AllowsListings settings .sameHere := by
  intro archive around s
  rw [perform_runLister]
  rfl

/-- The run of the build tool that a step of a compilation makes in an environment. -/
def building (words : List String) (settings : Settings) (environment : Settings.Environment) :
    Invocation :=
  ⟨words, settings.compileTimeout, some (environment.set "CC" settings.cc)⟩

/-- A frame that the runs of the build tool are within. -/
def AllowsBuilds (settings : Settings) (F : Frame) : Prop :=
  ∀ words around s,
    F.Holds s (perform (runBuilder (building words settings s.environment)) around s).2

/-- A build tool leaves the current directory as it is. -/
theorem allowsBuilds_sameHere : AllowsBuilds settings .sameHere := fun _ _ _ ↦ rfl

private theorem within_runStep (hF : AllowsBuilds settings F) (words : List String) :
    Within F (runStep words settings) := by
  refine (Within.debug _ _ _).bind fun _ ↦ ?_
  -- The tool is run in the environment of the session that it is run in.
  refine Within.getBind fun around s ↦ ?_
  refine Within.holds_bind (hF words around s) fun outcome ↦ ?_
  cases outcome with
  | exited status output errors =>
      exact (Within.decoded _).bind fun _ ↦ (Within.decoded _).bind fun _ ↦ .pure _
  | notStarted fault => exact .pure _
  | timedOut => exact .pure _
  | refused => exact .throw _
  | unwaitable wording => exact .throw _

/-- A compilation is within every frame that build runs are within and that leaves the tree of
files open. -/
theorem within_compile (hF : F.LeavesTreeOpen) (hbuilds : AllowsBuilds settings F)
    (source build : Path) (profile : Instrumentation.Profile) :
    Within F (compile settings source build profile) := by
  refine (Within.lookUp _).bind fun found ↦ ?_
  split
  · exact .pure _
  refine (Within.makeDirectories hF _).bind fun _ ↦ ?_
  refine (Within.say _).bind fun _ ↦ ?_
  refine (within_runStep hbuilds _).bind fun configured ↦ ?_
  split
  · exact .pure _
  refine (Within.say _).bind fun _ ↦ ?_
  refine (Within.writable _).bind fun _ ↦ ?_
  refine (within_runStep hbuilds _).bind fun built ↦ ?_
  split
  · exact .pure _
  · exact .pure _

/-- The compile stage is within every frame that build runs are within and that leaves the tree of
files open. -/
theorem within_compileStage (hF : F.LeavesTreeOpen) (hbuilds : AllowsBuilds settings F)
    (r : Request) :
    Within F (compileStage settings r) := by
  unfold compileStage
  split
  · exact .pure _
  refine (within_compile hF hbuilds _ _ _).bind fun compiled ↦ ?_
  split
  · exact .throw _
  · exact .pure _

/-- A compile stage that is skipped is within every frame. -/
theorem within_compileStage_of_skipCompile (r : Request) (hskip : r.skipCompile = true) :
    Within F (compileStage settings r) := by
  unfold compileStage
  rw [if_pos hskip]
  exact .pure _

private theorem within_listSymbols (hF : AllowsListings settings F) (archive : Path) :
    Within F (listSymbols settings archive) := by
  refine (hF archive).bind ?_
  intro outcome
  cases outcome with
  | exited status output errors => exact .pure _
  | notStarted fault => exact .pure _
  | timedOut => exact .pure _
  | refused => exact .throw _
  | unwaitable wording => exact .throw _

private theorem within_scanFrom (hF : AllowsListings settings F) (p : Probe)
    (archives : List Path) : Within F (scanFrom settings p archives) := by
  induction archives generalizing p with
  | nil => exact .pure p
  | cons archive rest ih =>
      refine (within_listSymbols hF archive).bind ?_
      intro listed
      split
      · split
        · exact ih _
        · exact ih _
      · refine (Within.debug _ _ _).bind ?_
        intro _
        exact .pure _
      · refine (Within.debug _ _ _).bind ?_
        intro _
        exact ih _

/-- A scan is within every frame that listings are within. -/
theorem within_scan (hF : AllowsListings settings F) (directory : Path) :
    Within F (scan settings directory) :=
  Within.get.bind fun _ ↦ (Within.ofExcept _ _).bind fun _ ↦ within_scanFrom hF _ _

/-- The probe stage is within every frame that listings are within. -/
theorem within_probeStage (hF : AllowsListings settings F) (r : Request) :
    Within F (probeStage settings r) :=
  (within_scan hF _).bind fun _ ↦ .pure _

/-- An install is within every frame that leaves the tree of files open. -/
theorem within_install (hF : F.LeavesTreeOpen) (r : InstallRequest) :
    Within F (install r) := by
  refine (Within.refusedAs _ (Within.checkPath _)).bind fun _ ↦ ?_
  refine (Within.onFilesElse hF _ ?_).bind fun _ ↦ ?_
  · exact (Attempt.KeepsHere.makeDirectories _).bind fun _ ↦ .makeDirectories _
  refine Within.get.bind fun s ↦ ?_
  refine (Within.ofExcept _ _).bind fun archives ↦ ?_
  refine (Within.mapM ?_ archives).bind fun installed ↦ ?_
  · intro archive
    exact (Within.onFilesElse hF _ (.copyFile _ _)).bind fun _ ↦ .pure _
  refine (Within.say _).bind fun _ ↦ ?_
  refine (Within.lookUp _).bind fun found ↦ ?_
  split
  · exact (Within.throw _).bind fun _ ↦ (Within.onFilesElse hF _ (.copyTree _ _)).bind fun _ ↦
      .pure _
  · exact (Within.onFilesElse hF _ (.copyTree _ _)).bind fun _ ↦ .pure _

/-- The install stage is within every frame that leaves the tree of files open. -/
theorem within_installStage (hF : F.LeavesTreeOpen) (r : Request) :
    Within F (installStage settings r) :=
  (within_install hF _).bind fun _ ↦ .pure _

/-- Writing a record is within every frame that leaves the tree of files open. -/
theorem within_writeRecord (hF : F.LeavesTreeOpen) (directory : Path) (record : Record) :
    Within F (writeRecord settings directory record) := by
  refine (Within.makeDirectories hF _).bind fun _ ↦ ?_
  refine (Within.writeText hF _ _).bind fun _ ↦ ?_
  exact (Within.say _).bind fun _ ↦ .pure _

/-- The emit stage is within every frame that leaves the tree of files open. -/
theorem within_emitStage (hF : F.LeavesTreeOpen) (r : Request) (probe : Probe) :
    Within F (emitStage settings r probe) :=
  (within_writeRecord hF _ _).bind fun _ ↦ .pure _

/-- Saving a report is within every frame that leaves the tree of files open. -/
theorem within_saveReport (hF : F.LeavesTreeOpen) (result : Result) (directory : Path) :
    Within F (saveReport result directory) := by
  refine (Within.makeDirectories hF _).bind fun _ ↦ ?_
  refine Within.read.bind fun _ ↦ ?_
  refine (Within.writeText hF _ _).bind fun _ ↦ ?_
  exact (Within.say _).bind fun _ ↦ .pure _

/-- Saving a report, or telling that it cannot be saved, is within every frame that leaves the tree
of files open. -/
theorem within_reportResult (hF : F.LeavesTreeOpen) (result : Result) :
    Within F (reportResult result) := by
  refine Within.tryCatch ?_ ?_
  · exact Within.map _ (within_saveReport hF _ _)
  · intro e
    split
    · exact .say _
    · exact .throw _

end Frames

/-! ### Going on to the next stage -/

namespace Progress

open Vendoring.Action

variable {α β : Type} {F : Frame} {around : Surroundings} {s t : Session} {name : String}

/-- Running a stage is within every frame that its action is within. -/
theorem within_runStage {a : Action (β × String)} (ha : Within F a) :
    Within F (runStage name a) := by
  refine (Within.say _).bind fun _ ↦ ?_
  refine Within.readClock.bind fun started ↦ ?_
  refine ha.outcome.bind fun outcome ↦ ?_
  refine Within.readClock.bind fun ended ↦ ?_
  split
  · exact .pure _
  · exact (Within.say _).bind fun _ ↦ .pure _

/-- Going on is within every frame that the next stage's action is within. -/
theorem within_next {f : α → Action (β × String)} (hf : ∀ x, Within F (f x)) (p : Progress α) :
    Within F (p.next name f) := by
  unfold next
  split
  · exact .pure _
  · exact (within_runStage (hf _)).bind fun _ ↦ .pure _

/-- A stage was run by its action and has its name. What the action gives is handed on, and a
failure of the action makes the stage fail. -/
structure Ran (name : String) (a : Action (β × String)) (around : Surroundings) (s : Session)
    (stage : Stage) (carried : Option β) (t : Session) : Prop where
  name : stage.name = name
  work : ∃ u v, Frame.sameWork.Holds s u ∧ Frame.sameWork.Holds v t ∧
    ((∃ b, perform a around u = (.ok (b, stage.detail), v) ∧ stage.status = .ok ∧
        carried = some b) ∨
      (∃ e, perform a around u = (.error e, v) ∧ stage.status = .failed ∧ carried = none))

/-- Running a stage runs its action once, between two readings of the clock. -/
theorem ran_of_runStage {a : Action (β × String)} {stage : Stage} {carried : Option β}
    (h : perform (runStage name a) around s = (.ok (stage, carried), t)) :
    Ran name a around s stage carried t := by
  obtain ⟨_, s₁, hsay, h⟩ := perform_bind_eq_ok.mp h
  obtain ⟨started, u, hstarted, h⟩ := perform_bind_eq_ok.mp h
  obtain ⟨result, v, hresult, h⟩ := perform_bind_eq_ok.mp h
  obtain ⟨ended, s₂, hended, h⟩ := perform_bind_eq_ok.mp h
  have hbefore : Frame.sameWork.Holds s u :=
    Frame.sameWork.trans ((Within.say _).holds hsay) (Within.readClock.holds hstarted)
  have hafter : Frame.sameWork.Holds v s₂ := Within.readClock.holds hended
  have hwork : perform a around u = (result, v) := by
    rw [perform_outcome] at hresult
    cases hresult
    rfl
  cases result with
  | ok x =>
      obtain ⟨b, detail⟩ := x
      rw [perform_pure] at h
      cases h
      exact ⟨rfl, u, v, hbefore, hafter, .inl ⟨b, hwork, rfl, rfl⟩⟩
  | error e =>
      obtain ⟨_, s₃, htold, h⟩ := perform_bind_eq_ok.mp h
      rw [perform_pure] at h
      cases h
      exact ⟨rfl, u, v, hbefore, Frame.sameWork.trans hafter ((Within.say _).holds htold),
        .inr ⟨e, hwork, rfl, rfl⟩⟩

/-- Once nothing is handed on, the next stage is skipped and the session stays as it is. -/
theorem perform_next_of_none {p : Progress α} (hp : p.carried = none)
    (f : α → Action (β × String)) :
    perform (p.next name f) around s = (.ok ⟨p.stages ++ [.skipped name], none⟩, s) := by
  unfold next
  rw [hp]
  rfl

/-- While something is handed on, the next stage is run with it. -/
theorem ran_of_next {p : Progress α} {q : Progress β} {x : α} (hp : p.carried = some x)
    {f : α → Action (β × String)} (h : perform (p.next name f) around s = (.ok q, t)) :
    ∃ stage, q.stages = p.stages ++ [stage] ∧ Ran name (f x) around s stage q.carried t := by
  unfold next at h
  rw [hp] at h
  obtain ⟨⟨stage, carried⟩, u, hran, h⟩ := perform_bind_eq_ok.mp h
  cases h
  exact ⟨stage, rfl, ran_of_runStage hran⟩

/-- What a stage hands on comes from its action, which worked on what was handed on before. -/
theorem ran_of_carried {p : Progress α} {q : Progress β} {f : α → Action (β × String)} {y : β}
    (h : perform (p.next name f) around s = (.ok q, t)) (hq : q.carried = some y) :
    ∃ x stage u v, p.carried = some x ∧ q.stages = p.stages ++ [stage] ∧
      Frame.sameWork.Holds s u ∧ Frame.sameWork.Holds v t ∧
      perform (f x) around u = (.ok (y, stage.detail), v) := by
  cases hp : p.carried with
  | none =>
      rw [perform_next_of_none hp] at h
      cases h
      cases hq
  | some x =>
      obtain ⟨stage, hstages, hran⟩ := ran_of_next hp h
      obtain ⟨u, v, hbefore, hafter, ⟨b, hwork, _, hcarried⟩ | ⟨e, _, _, hcarried⟩⟩ := hran.work
      · rw [hq] at hcarried
        cases hcarried
        exact ⟨x, stage, u, v, rfl, hstages, hbefore, hafter, hwork⟩
      · rw [hq] at hcarried
        cases hcarried

/-- Going on adds one stage of the name given. -/
theorem names_next {p : Progress α} {q : Progress β} {f : α → Action (β × String)}
    (h : perform (p.next name f) around s = (.ok q, t)) :
    q.stages.map Stage.name = p.stages.map Stage.name ++ [name] := by
  cases hp : p.carried with
  | none =>
      rw [perform_next_of_none hp] at h
      cases h
      rw [List.map_append]
      rfl
  | some x =>
      obtain ⟨stage, hstages, hran⟩ := ran_of_next hp h
      rw [hstages, List.map_append, List.map_singleton, hran.name]

/-- Going on adds one stage. -/
theorem length_next {p : Progress α} {q : Progress β} {f : α → Action (β × String)}
    (h : perform (p.next name f) around s = (.ok q, t)) :
    q.stages.length = p.stages.length + 1 := by
  have hnames := congrArg List.length (names_next h)
  simpa using hnames

/-- The invariant of a progress, for the sessions after each of its stages and the current one: as
long as something is handed on, every stage went well; otherwise the session is still that after
the one stage that failed, and all later stages were skipped. -/
structure Sound (p : Progress α) (trail : List Session) (t : Session) : Prop where
  length : trail.length = p.stages.length
  running : ∀ x, p.carried = some x → ∀ stage ∈ p.stages, stage.status = .ok
  stopped : p.carried = none →
    ∃ (before : List Stage) (failed : Stage) (later : List String),
      p.stages = before ++ failed :: later.map Stage.skipped ∧
      (∀ stage ∈ before, stage.status = .ok) ∧ failed.status = .failed ∧
      trail[before.length]? = some t

/-- A sound progress in which every stage went well hands something on. -/
theorem Sound.exists_carried {p : Progress α} {trail : List Session} (hp : p.Sound trail t)
    (hok : ∀ stage ∈ p.stages, stage.status = .ok) : ∃ x, p.carried = some x := by
  cases hcarried : p.carried with
  | some x => exact ⟨x, rfl⟩
  | none =>
      obtain ⟨before, failed, later, hstages, _, hfailed, _⟩ := hp.stopped hcarried
      have hbad := hok failed (hstages ▸ List.mem_append_right _ List.mem_cons_self)
      rw [hfailed] at hbad
      cases hbad

/-- A progress without stages is sound. -/
theorem sound_start (x : α) (t : Session) : (start x).Sound [] t := by
  refine ⟨rfl, ?_, nofun⟩
  intro _ _ stage hstage
  exact absurd hstage List.not_mem_nil

/-- Going on to the next stage keeps a progress sound. -/
theorem Sound.next {p : Progress α} {q : Progress β} {trail : List Session}
    (hp : p.Sound trail s) {f : α → Action (β × String)}
    (h : perform (p.next name f) around s = (.ok q, t)) : q.Sound (trail ++ [t]) t := by
  cases hcarried : p.carried with
  | none =>
      rw [perform_next_of_none hcarried] at h
      cases h
      -- The session has not moved since the stage that failed, so the trail still ends in it.
      obtain ⟨before, failed, later, hstages, hbefore, hfailed, hat⟩ := hp.stopped hcarried
      refine ⟨?_, nofun, ?_⟩
      · rw [List.length_append, List.length_append, hp.length]
        rfl
      · intro _
        refine ⟨before, failed, later ++ [name], ?_, hbefore, hfailed, ?_⟩
        · rw [hstages, List.map_append, List.append_assoc]
          rfl
        · rw [List.getElem?_append_left, hat]
          exact (List.getElem?_eq_some_iff.mp hat).1
  | some x =>
      obtain ⟨stage, hstages, hran⟩ := ran_of_next hcarried h
      -- All stages before went well, so the new one is the first that can have failed.
      have hok := hp.running x hcarried
      have hlength : (trail ++ [t]).length = q.stages.length := by
        rw [hstages, List.length_append, List.length_append, hp.length]
        rfl
      obtain ⟨u, v, _, _, ⟨b, _, hstatus, hq⟩ | ⟨e, _, hstatus, hq⟩⟩ := hran.work
      · refine ⟨hlength, ?_, ?_⟩
        · intro _ _ stage' hstage'
          rw [hstages] at hstage'
          rcases List.mem_append.mp hstage' with hold | hnew
          · exact hok stage' hold
          · rw [List.mem_singleton.mp hnew]
            exact hstatus
        · intro hnone
          rw [hq] at hnone
          cases hnone
      · refine ⟨hlength, ?_, ?_⟩
        · intro _ hsome
          rw [hq] at hsome
          cases hsome
        · intro _
          refine ⟨p.stages, stage, [], hstages, hok, hstatus, ?_⟩
          rw [← hp.length, List.getElem?_append_right (Nat.le_refl _), Nat.sub_self]
          rfl

end Progress

open Vendoring.Action in
/-- A build is within every frame that listings and build runs are within and that leaves the tree
of files open. -/
theorem within_runBuild {F : Frame} {settings : Settings} (hF : F.LeavesTreeOpen)
    (hlistings : AllowsListings settings F) (hbuilds : AllowsBuilds settings F) (r : Request) :
    Within F (runBuild settings r) := by
  refine (Progress.within_next (fun _ ↦ within_compileStage hF hbuilds r) _).bind fun _ ↦ ?_
  refine (Progress.within_next (fun _ ↦ within_installStage hF r) _).bind fun _ ↦ ?_
  refine (Progress.within_next (fun _ ↦ within_probeStage hlistings r) _).bind fun _ ↦ ?_
  refine (Progress.within_next (within_emitStage hF r) _).bind fun _ ↦ ?_
  exact (within_reportResult hF _).bind fun _ ↦ .pure _

end Vendoring.Build
