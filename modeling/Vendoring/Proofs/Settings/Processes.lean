import Vendoring.CommandLine.Run
import Vendoring.Entropy.Binding
import Vendoring.Proofs.Build.Stages
import Vendoring.Proofs.Settings.Loading

/-!
# Loads in a process

In a process the environment, the files and the host libraries change from outside, and the library
is called: settings are loaded, by the caller or by a call that is given none, and the stages of
builds are performed. From the first load that completes on, whatever happens in between, every load
reads the environment as it is and nothing else, no call changes the environment, and the build tool
gets it with nothing but the compiler replaced.
-/

namespace Vendoring

open Vendoring.Text Vendoring.Data Vendoring.Files Vendoring.Settings Vendoring.Tool
open Vendoring.Instrumentation Vendoring.Entropy Vendoring.Build Vendoring.Provenance
open Vendoring.Action

/-! ### Loads after the first -/

namespace Settings

variable {around : Surroundings} {s t : Session}

/-- The settings that an environment and overrides give. -/
def ofEnvironment (processors : Option Int) (e : Environment) (overrides : Entries) :
    Except Failure Settings := do
  let fields ← (fieldsOf e).mapError .integer
  (ofEntries processors (override fields overrides)).mapError .fields

/-- A load reads the environment that the adoption of the files of variables leaves. -/
theorem perform_load (overrides : Entries) (around : Surroundings) (s : Session) :
    perform (load overrides) around s = match perform adoptEnvFiles around s with
      | (.ok _, t) => (ofEnvironment around.processors t.environment overrides, t)
      | (.error e, t) => (.error e, t) := by
  rw [load, perform_bind]
  rcases perform adoptEnvFiles around s with ⟨e | u, t⟩
  · rfl
  · dsimp only
    rw [perform_bind, perform_get]
    dsimp only
    rw [perform_bind, perform_ofExcept, ofEnvironment]
    cases fieldsOf t.environment with
    | error e => rfl
    | ok fields =>
        dsimp only [Except.mapError]
        rw [perform_bind, perform_read]
        exact perform_ofExcept _ _ _ _

/-- Once the files of variables have been adopted, a load reads the environment and leaves the
session as it is. -/
theorem perform_load_of_adopted (h : s.adopted = true) (overrides : Entries)
    (around : Surroundings) :
    perform (load overrides) around s =
      (ofEnvironment around.processors s.environment overrides, s) := by
  rw [perform_load, perform_adoptEnvFiles_of_adopted h]

/-- A load that completes has adopted the files of variables, and nothing else but the environment
has changed; the settings are read from what it is then. -/
theorem adopted_of_load {overrides : Entries} {x : Settings}
    (h : perform (load overrides) around s = (.ok x, t)) :
    t = { s with environment := t.environment, adopted := true } ∧
      ofEnvironment around.processors t.environment overrides = .ok x := by
  rw [perform_load] at h
  cases hadopt : perform adoptEnvFiles around s with
  | mk result u =>
      rw [hadopt] at h
      cases result with
      | error e => cases h
      | ok _ =>
          obtain ⟨hx, rfl⟩ := Prod.mk.inj h
          refine ⟨?_, hx⟩
          cases hs : s.adopted with
          | true =>
              rw [perform_adoptEnvFiles_of_adopted hs] at hadopt
              cases hadopt
              rw [← hs]
          | false =>
              obtain ⟨_, _, e, rfl, _⟩ := layers_of_adoptEnvFiles hs hadopt
              rfl

end Settings

/-! ### What calls leave as it is -/

/-- The environment stays as it is, and the tools run get it with nothing replaced but the
compiler; without a compiler none gets an environment of its own. -/
def Frame.sameEnvironment (cc : Option String) : Frame where
  Holds s t := t.environment = s.environment ∧ t.adopted = s.adopted ∧
    ∃ runs, t.calls = s.calls ++ runs ∧ ∀ run ∈ runs, ∀ e, run.environment = some e →
      ∃ name, cc = some name ∧ e = s.environment.set "CC" name
  shows s _ _ := ⟨rfl, rfl, [], (List.append_nil s.calls).symm, nofun⟩
  trans := by
    rintro s t u ⟨he, hadopted, runs, hcalls, hruns⟩ ⟨he', hadopted', runs', hcalls', hruns'⟩
    refine ⟨he'.trans he, hadopted'.trans hadopted, runs ++ runs', ?_, ?_⟩
    · rw [hcalls', hcalls, List.append_assoc]
    · intro run hrun e hrune
      rcases List.mem_append.mp hrun with h | h
      · exact hruns run h e hrune
      · rw [← he]
        exact hruns' run h e hrune

section
variable {cc : Option String} {settings : Settings}

/-- The environment is no part of the tree of files. -/
theorem leavesTreeOpen_sameEnvironment : (Frame.sameEnvironment cc).LeavesTreeOpen :=
  fun s _ _ ↦ ⟨rfl, rfl, [], (List.append_nil s.calls).symm, nofun⟩

/-- A listing of symbols has the environment of the process. -/
theorem allowsListings_sameEnvironment : AllowsListings settings (.sameEnvironment cc) := by
  intro archive around s
  rw [perform_runLister]
  refine ⟨rfl, rfl, [listing settings archive], rfl, ?_⟩
  intro run hrun e he
  rw [List.mem_singleton.mp hrun] at he
  cases he

/-- A build tool gets the environment with the compiler replaced. -/
theorem allowsBuilds_sameEnvironment :
    AllowsBuilds settings (.sameEnvironment (some settings.cc)) := by
  intro words around s
  refine ⟨rfl, rfl, [building words settings s.environment], rfl, ?_⟩
  intro run hrun e he
  rw [List.mem_singleton.mp hrun] at he
  cases he
  exact ⟨settings.cc, rfl, rfl⟩

/-- Working on the host's libraries leaves the environment as it is. -/
theorem within_onHost {α : Type}
    (f : Entropy.Host → Except Entropy.OverrideError α × Entropy.Host) :
    Within (.sameEnvironment cc) (onHost f) := by
  intro around s
  rw [perform_onHost]
  exact ⟨rfl, rfl, [], (List.append_nil s.calls).symm, nofun⟩

/-- Writing to the standard output leaves the environment as it is. -/
theorem within_write (text : String) : Within (.sameEnvironment cc) (write text) :=
  fun _ s ↦ ⟨rfl, rfl, [], (List.append_nil s.calls).symm, nofun⟩

/-- Writing a line to the standard output leaves the environment as it is. -/
theorem within_writeLine (text : String) : Within (.sameEnvironment cc) (writeLine text) :=
  Within.read.bind fun _ ↦ (Within.ofExcept _ _).bind fun _ ↦ within_write _

private theorem within_reseeding (settings : Settings) (seed : Option Int) (i : OverrideId) :
    Within (.sameEnvironment cc) (do
      match seed with
      | none => Pure.pure ()
      | some value =>
        Action.writable value
        Action.debug settings.debug "entropy" ("reseeding with " ++ intText value)
        onHost (·.reseed i value)
      return i) := by
  cases seed with
  | none => exact .pure i
  | some value =>
      refine (Within.writable _).bind fun _ ↦ ?_
      exact (Within.debug _ _ _).bind fun _ ↦ (within_onHost _).bind fun _ ↦ .pure _

/-- Binding the process to an override leaves the environment as it is. -/
theorem within_makeDeterministic (library : Option String) (seed : Option Int) :
    Within (.sameEnvironment cc) (makeDeterministic settings library seed) := by
  have hseed : ∀ i, Within (.sameEnvironment cc) _ := within_reseeding settings seed
  refine Within.get.bind fun s ↦ ?_
  rcases s.host.bound with _ | i
  · refine (Within.say _).bind fun _ ↦ ?_
    cases library with
    | none =>
        refine Within.read.bind fun _ ↦ ?_
        exact (Within.ofExcept _ _).bind fun _ ↦ (within_onHost _).bind hseed
    | some name => exact (Within.pure name).bind fun _ ↦ (within_onHost _).bind hseed
  · exact Within.get.bind fun _ ↦ (Within.ofExcept _ _).bind hseed

/-! ### Calls of the library -/

/-- What the library does with settings. -/
inductive Operation where
  | install (source build destination : Path) (subdirs : List String) (headerDir : String)
  | scan (directory : Path)
  | compile (source build : Path) (profile : Profile)
  | writeRecord (directory : Path) (record : Record)
  | build (request : Request)
  | bind (library : Option String) (seed : Option Int)

/-- Do something with settings. -/
def Operation.run (settings : Settings) : Operation → Action Unit
  | .install source output destination subdirs headerDir =>
    discard (Build.install (.ofSettings settings source output destination subdirs headerDir))
  | .scan directory => discard (Build.scan settings directory)
  | .compile source output profile => discard (Build.compile settings source output profile)
  | .writeRecord directory record => discard (Provenance.writeRecord settings directory record)
  | .build request => discard (runBuild settings request)
  | .bind library seed => discard (makeDeterministic settings library seed)

/-- Whatever is done with settings leaves the environment as it is. -/
theorem within_operation (o : Operation) :
    Within (.sameEnvironment (some settings.cc)) (o.run settings) := by
  have hF : (Frame.sameEnvironment (some settings.cc)).LeavesTreeOpen :=
    leavesTreeOpen_sameEnvironment
  cases o with
  | install => exact .map _ (within_install hF _)
  | scan => exact .map _ (within_scan allowsListings_sameEnvironment _)
  | compile => exact .map _ (within_compile hF allowsBuilds_sameEnvironment _ _ _)
  | writeRecord => exact .map _ (within_writeRecord hF _ _)
  | build =>
      exact .map _
        (within_runBuild hF allowsListings_sameEnvironment allowsBuilds_sameEnvironment _)
  | bind => exact .map _ (within_makeDeterministic _ _)

end

/-- A call of the library: settings are loaded, something is done with settings that are given or
else loaded, a record is read, a report is saved, or a command line is run. -/
inductive Call where
  | load (overrides : Entries)
  | operate (given : Option Settings) (operation : Operation)
  | loadRecord (path : Path)
  | saveReport (result : Result) (directory : Path)
  | command (words : List String)

namespace CommandLine

/-- The overrides of the settings that a command loads, if it gets to loading any. -/
def Command.loads? : Command → Option Entries
  | .install _ _ _ verbose => some (givenOverrides [debugOverride verbose])
  | .probe _ _ nm marker verbose => some (givenOverrides
      [("nm_tool", nm.map .text), ("claimer_marker", marker.map .text), debugOverride verbose])
  | .metadata destination d =>
    if destination.isSome ∧ (tagsOfWords d.tags).toOption.isSome then some (givenOverrides [])
    else none
  | .build _ _ _ _ _ cc jobs verbose => some (givenOverrides
      [("cc", cc.map .text), ("build_jobs", jobs.map .int), debugOverride verbose])
  | .rng _ _ => none
where
  /-- The overrides that have a value. -/
  givenOverrides (overrides : List (String × Option Value)) : Entries :=
    overrides.filterMap fun (name, value) ↦ value.map (name, ·)

end CommandLine

namespace Call

/-- Perform a call. -/
def run : Call → Action Unit
  | .load overrides => discard (Settings.load overrides)
  | .operate given o => do o.run (← Action.settings given)
  | .loadRecord path => discard (Provenance.loadRecord path)
  | .saveReport result directory => discard (Build.saveReport result directory)
  | .command words => discard (CommandLine.run words)

/-- The overrides of the settings that a call loads, if it loads any, where a command's options are
read with a reader of integers. -/
def loads? (integers : String → Checked Int) : Call → Option Entries
  | .load overrides => some overrides
  | .operate none _ => some []
  | .operate (some _) _ | .loadRecord _ | .saveReport .. => none
  | .command words =>
    (CommandLine.Command.read integers words).toOption.bind CommandLine.Command.loads?

/-- The settings that a call is given. -/
def given? : Call → Option Settings
  | .operate given _ => given
  | _ => none

end Call

/-- In some surroundings, an action loads settings first and then keeps to the environment. -/
def LoadsFirst {α : Type} (around : Surroundings) (overrides : Entries) (a : Action α) : Prop :=
  ∃ rest : Settings → Action α,
    (∀ s, perform a around s = perform (Settings.load overrides >>= rest) around s) ∧
    ∀ x, Within (.sameEnvironment (some x.cc)) (rest x)

/-- Changing the result of an action that loads settings first makes no difference to that. -/
theorem LoadsFirst.map {α β : Type} {around : Surroundings} {overrides : Entries} {a : Action α}
    (g : α → β) (h : LoadsFirst around overrides a) : LoadsFirst around overrides (g <$> a) := by
  obtain ⟨rest, heq, hrest⟩ := h
  refine ⟨fun x ↦ g <$> rest x, ?_, fun x ↦ (hrest x).map g⟩
  intro s
  rw [perform_map, heq, perform_bind, perform_bind]
  cases perform (Settings.load overrides) around s with
  | mk result t =>
      cases result with
      | error e => rfl
      | ok x => exact (perform_map g (rest x) around t).symm

/-- A command line is read with the reader of the surroundings and then run. -/
theorem CommandLine.perform_run (words : List String) (around : Surroundings) (s : Session) :
    perform (CommandLine.run words) around s =
      match CommandLine.Command.read around.integers words with
      | .error e => (.error (.usage e), s)
      | .ok command => perform command.run around s := by
  rw [CommandLine.run, perform_bind, perform_read]
  dsimp only
  rw [perform_bind, perform_ofExcept]
  cases CommandLine.Command.read around.integers words <;> rfl

/-! ### What calls load -/

section
variable {around : Surroundings} {overrides : Entries}

private theorem loadsFirst_runInstall (source build destination : Path) (verbose : Bool) :
    LoadsFirst around
      (CommandLine.Command.loads?.givenOverrides [CommandLine.debugOverride verbose])
      (CommandLine.runInstall source build destination verbose) := by
  refine ⟨_, fun _ ↦ rfl, fun x ↦ ?_⟩
  refine (within_install leavesTreeOpen_sameEnvironment _).outcome.bind fun outcome ↦ ?_
  split
  · exact (within_writeLine _).bind fun _ ↦ .pure _
  · exact (within_writeLine _).bind fun _ ↦ .pure _
  · exact .throw _

private theorem loadsFirst_runProbe (directory : Path) (tags : List String)
    (nm marker : Option String) (verbose : Bool) :
    LoadsFirst around (CommandLine.Command.loads?.givenOverrides [("nm_tool", nm.map .text),
        ("claimer_marker", marker.map .text), CommandLine.debugOverride verbose])
      (CommandLine.runProbe directory tags nm marker verbose) := by
  refine ⟨_, fun _ ↦ rfl, fun x ↦ ?_⟩
  refine (Within.ofExcept _ _).bind fun requested ↦ ?_
  refine (within_scan allowsListings_sameEnvironment _).bind fun probe ↦ ?_
  refine (within_writeLine _).bind fun _ ↦ ?_
  refine Within.bind (.forIn ?_ _ _) fun _ ↦ ?_
  · exact fun _ _ ↦ (within_writeLine _).bind fun _ ↦ .pure _
  cases probe.toolAvailable with
  | false => exact (within_writeLine _).bind fun _ ↦ (within_writeLine _).bind fun _ ↦ .pure _
  | true => exact (within_writeLine _).bind fun _ ↦ .pure _

private theorem loadsFirst_runMetadata {d : CommandLine.Description} {tags : TagSet}
    (htags : CommandLine.tagsOfWords d.tags = .ok tags) (directory : Path) :
    LoadsFirst around (CommandLine.Command.loads?.givenOverrides [])
      (CommandLine.runMetadata (some directory) d) := by
  refine ⟨fun x ↦ do
    discard (writeRecord x directory
      ⟨d.libname, d.version, tags, d.known, d.fixed⟩)
    return 0, ?_, fun x ↦ ?_⟩
  · intro s
    rw [CommandLine.runMetadata, perform_bind, perform_ofExcept, htags]
    rfl
  · exact (Within.map _ (within_writeRecord leavesTreeOpen_sameEnvironment _ _)).bind fun _ ↦
      .pure _

private theorem loadsFirst_runBuildCommand (source build destination : Path)
    (d : CommandLine.Description) (skipCompile : Bool) (cc : Option String) (jobs : Option Int)
    (verbose : Bool) :
    LoadsFirst around (CommandLine.Command.loads?.givenOverrides [("cc", cc.map .text),
        ("build_jobs", jobs.map .int), CommandLine.debugOverride verbose])
      (CommandLine.runBuildCommand source build destination d skipCompile cc jobs verbose) := by
  refine ⟨_, fun _ ↦ rfl, fun x ↦ ?_⟩
  refine (Within.ofExcept _ _).bind fun tags ↦ ?_
  refine (within_runBuild leavesTreeOpen_sameEnvironment allowsListings_sameEnvironment
    allowsBuilds_sameEnvironment _).bind fun result ↦ ?_
  split
  · exact .pure _
  · exact .pure _

/-- A command that loads settings loads them first. -/
theorem loadsFirst_command (around : Surroundings) {c : CommandLine.Command}
    (h : c.loads? = some overrides) : LoadsFirst around overrides c.run := by
  cases c with
  | install source output destination verbose =>
      cases h
      exact loadsFirst_runInstall source output destination verbose
  | probe directory tags nm marker verbose =>
      cases h
      exact loadsFirst_runProbe directory tags nm marker verbose
  | metadata destination d =>
      rw [CommandLine.Command.loads?] at h
      split at h
      · next hboth =>
          cases h
          obtain ⟨hsome, hok⟩ := hboth
          obtain ⟨directory, rfl⟩ := Option.isSome_iff_exists.mp hsome
          cases htags : CommandLine.tagsOfWords d.tags with
          | error e =>
              rw [htags] at hok
              cases hok
          | ok tags => exact loadsFirst_runMetadata htags directory
      · cases h
  | build source output destination d skipCompile cc jobs verbose =>
      cases h
      exact loadsFirst_runBuildCommand source output destination d skipCompile cc jobs verbose
  | rng => cases h

/-- A command that loads no settings runs no tool. -/
theorem within_command {c : CommandLine.Command} (h : c.loads? = none) :
    Within (.sameEnvironment none) c.run := by
  cases c with
  | install => cases h
  | probe => cases h
  | metadata destination d =>
      rw [CommandLine.Command.loads?] at h
      split at h
      · cases h
      · next hnot =>
          show Within _ (CommandLine.runMetadata destination d)
          unfold CommandLine.runMetadata
          cases htags : CommandLine.tagsOfWords d.tags with
          | error e => exact fun _ s ↦ Frame.refl _ s
          | ok tags =>
              cases destination with
              | none => exact (within_write _).bind fun _ ↦ .pure _
              | some directory =>
                  rw [htags] at hnot
                  exact absurd ⟨rfl, rfl⟩ hnot
  | build => cases h
  | rng seed count =>
      refine Within.bind (.forIn ?_ _ _) fun _ ↦ .pure _
      exact fun _ _ ↦ (within_write _).bind fun _ ↦ .pure _

namespace Call

/-- A call that loads settings loads them first. -/
theorem loadsFirst_run (around : Surroundings) {c : Call}
    (h : c.loads? around.integers = some overrides) : LoadsFirst around overrides c.run := by
  cases c with
  | load =>
      cases h
      have hload : LoadsFirst around overrides (Settings.load overrides) :=
        ⟨pure, fun _ ↦ by rw [bind_pure], fun x ↦ .pure x⟩
      exact hload.map _
  | operate given o =>
      cases given with
      | some x => cases h
      | none =>
          cases h
          exact ⟨o.run, fun _ ↦ rfl, fun x ↦ within_operation o⟩
  | loadRecord => cases h
  | saveReport => cases h
  | command words =>
      obtain ⟨command, hcommand, hloads⟩ := Option.bind_eq_some_iff.mp h
      obtain ⟨rest, hrun, hrest⟩ := loadsFirst_command around hloads
      refine LoadsFirst.map _ ⟨rest, fun s ↦ ?_, hrest⟩
      rw [CommandLine.perform_run]
      cases hread : CommandLine.Command.read around.integers words with
      | error e =>
          rw [hread] at hcommand
          cases hcommand
      | ok c =>
          rw [hread] at hcommand
          cases hcommand
          exact hrun s

/-- A call that loads settings is given none. -/
theorem given?_of_loads {integers : String → Checked Int} {c : Call}
    (h : c.loads? integers = some overrides) : c.given? = none := by
  cases c with
  | operate given o =>
      cases given with
      | some x => cases h
      | none => rfl
  | _ => rfl

/-- A call that loads no settings keeps to the environment, with the settings that it is given. -/
theorem holds_run (around : Surroundings) {c : Call} (h : c.loads? around.integers = none)
    (s : Session) :
    (Frame.sameEnvironment (c.given?.map (·.cc))).Holds s (perform c.run around s).2 := by
  cases c with
  | load => cases h
  | operate given o =>
      cases given with
      | some x => exact within_operation o around s
      | none => cases h
  | loadRecord path =>
      refine Within.map _ (Within.bind ?_ fun text ↦ .ofExcept _ _) around s
      refine Within.bind ?_ fun bytes ↦ .decoded _
      refine (Within.checkPath _).bind fun _ ↦ ?_
      exact .onFiles leavesTreeOpen_sameEnvironment ((Attempt.KeepsHere.readFile path).named _)
  | saveReport result directory =>
      exact Within.map _ (within_saveReport leavesTreeOpen_sameEnvironment _ _) around s
  | command words =>
      show Frame.Holds _ s (perform ((fun _ ↦ ()) <$> CommandLine.run words) around s).2
      rw [perform_map, CommandLine.perform_run]
      cases hread : CommandLine.Command.read around.integers words with
      | error e => exact Frame.refl _ s
      | ok command =>
          rw [loads?, hread] at h
          exact within_command h around s

end Call

end

/-! ### Processes -/

/-- What happens in a process: the environment, the files or the host's libraries change from
outside, or the library is called in the surroundings of that time. -/
inductive ProcessEvent where
  | environment (e : Environment)
  | files (w : Workspace)
  | host (h : Entropy.Host)
  | call (around : Surroundings) (c : Call)

/-- Something that happened in a process, between two sessions: what came of the load that it made,
if it made one. -/
structure ProcessStep where
  before : Session
  event : ProcessEvent
  loaded : Option (Except Failure Settings)
  after : Session

namespace ProcessEvent

/-- The environment is changed from outside. -/
def SetsEnvironment : ProcessEvent → Prop
  | .environment _ => True
  | _ => False

/-- The overrides of the settings that are loaded, if any are. -/
def loads? : ProcessEvent → Option Entries
  | .call around c => c.loads? around.integers
  | _ => none

/-- What happens in a session, on a machine with a number of processors. -/
def step (processors : Option Int) (event : ProcessEvent) (s : Session) : ProcessStep :=
  match event with
  | .environment e => ⟨s, event, none, { s with environment := e }⟩
  | .files w => ⟨s, event, none, { s with files := w }⟩
  | .host h => ⟨s, event, none, { s with host := h }⟩
  | .call around c =>
    let around := { around with processors }
    ⟨s, event, (c.loads? around.integers).map fun overrides ↦
      (perform (Settings.load overrides) around s).1, (perform c.run around s).2⟩

end ProcessEvent

/-- What happens in a process one after the other. -/
def processSteps (processors : Option Int) : List ProcessEvent → Session → List ProcessStep
  | [], _ => []
  | event :: rest, s =>
    let step := event.step processors s
    step :: processSteps processors rest step.after

namespace ProcessStep

/-- The settings that a call worked with: those that it was given or has loaded. -/
def settings? (step : ProcessStep) : Option Settings :=
  match step.event with
  | .call _ c => c.given?.or (step.loaded.bind Except.toOption)
  | _ => none

/-- The tools that were run. -/
def runs (step : ProcessStep) : List Invocation := step.after.calls.drop step.before.calls.length

/-- A step reads its settings from the environment that it leaves, and hands this environment to
the build tool with nothing replaced but the compiler. -/
structure FollowsEnvironment (processors : Option Int) (step : ProcessStep) : Prop where
  loaded : ∀ overrides, step.event.loads? = some overrides →
    step.loaded = some (Settings.ofEnvironment processors step.after.environment overrides)
  runs : ∀ run ∈ step.runs, ∀ e, run.environment = some e →
    ∃ x, step.settings? = some x ∧ e = step.after.environment.set "CC" x.cc

end ProcessStep

section
variable {processors : Option Int} {s : Session} {event : ProcessEvent}

/-- What happens is recorded with the session that it found. -/
theorem ProcessEvent.before_step (event : ProcessEvent) (processors : Option Int) (s : Session) :
    (event.step processors s).before = s := by
  cases event <;> rfl

/-- What is left when a step has loaded its settings: no more than the environment differs from what
the step found, and what the step does from here on keeps to the environment. -/
private structure Settles (processors : Option Int) (step : ProcessStep) (t : Session) : Prop where
  calls : t.calls = step.before.calls
  adopted : t.adopted = true
  loaded : ∀ overrides, step.event.loads? = some overrides →
    step.loaded = some (Settings.ofEnvironment processors t.environment overrides)
  kept : step.before.adopted = true → ¬ step.event.SetsEnvironment →
    t.environment = step.before.environment
  frame : (Frame.sameEnvironment (step.settings?.map (·.cc))).Holds t step.after

section Loads

variable {around : Surroundings} {c : Call} {overrides : Entries} {t : Session}

private theorem loaded_of_loads (processors : Option Int) (around : Surroundings) (s : Session)
    (hloads : c.loads? around.integers = some overrides) :
    ((ProcessEvent.call around c).step processors s).loaded =
      some (perform (Settings.load overrides) { around with processors } s).1 := by
  show (c.loads? around.integers).map _ = _
  rw [hloads]
  rfl

private theorem settles_of_failed_load {e : Failure}
    (hloads : c.loads? around.integers = some overrides)
    (hs : s.adopted = true)
    (hload : perform (Settings.load overrides) { around with processors } s = (.error e, t)) :
    Settles processors ((ProcessEvent.call around c).step processors s) s := by
  obtain ⟨rest, hrun, _⟩ := Call.loadsFirst_run { around with processors } hloads
  have hcall := hrun s
  have hread := Settings.perform_load_of_adopted hs overrides { around with processors }
  rw [perform_bind, hload] at hcall
  rw [hload] at hread
  obtain ⟨he, rfl⟩ := Prod.mk.inj hread
  refine ⟨rfl, hs, ?_, fun _ _ ↦ rfl, ?_⟩
  · intro o ho
    cases hloads.symm.trans ho
    rw [loaded_of_loads _ around t hloads, hload, he]
  · show Frame.Holds _ t (perform c.run { around with processors } t).2
    rw [hcall]
    exact Frame.refl _ t

private theorem settles_of_load {x : Settings} (hloads : c.loads? around.integers = some overrides)
    (hload : perform (Settings.load overrides) { around with processors } s = (.ok x, t)) :
    Settles processors ((ProcessEvent.call around c).step processors s) t := by
  obtain ⟨rest, hrun, hrest⟩ := Call.loadsFirst_run { around with processors } hloads
  have hcall := hrun s
  rw [perform_bind, hload] at hcall
  obtain ⟨ht, hx⟩ := Settings.adopted_of_load hload
  have hloaded := loaded_of_loads processors around s hloads
  rw [hload] at hloaded
  refine ⟨by rw [ht]; rfl, by rw [ht], ?_, ?_, ?_⟩
  · intro o ho
    cases hloads.symm.trans ho
    rw [hloaded, hx]
  · rintro (hadopted : s.adopted = true) -
    have hread := Settings.perform_load_of_adopted hadopted overrides { around with processors }
    rw [hload] at hread
    exact congrArg Session.environment (Prod.mk.inj hread).2
  · have hsettings : ((ProcessEvent.call around c).step processors s).settings? = some x := by
      rw [ProcessStep.settings?, hloaded]
      show c.given?.or _ = _
      rw [Call.given?_of_loads hloads]
      rfl
    rw [hsettings]
    show Frame.Holds _ t (perform c.run { around with processors } s).2
    rw [hcall]
    exact hrest x { around with processors } t

private theorem exists_settles_of_loads (hloads : c.loads? around.integers = some overrides)
    (h : s.adopted = true ∨
      ∃ x, ((ProcessEvent.call around c).step processors s).loaded = some (.ok x)) :
    ∃ t, Settles processors ((ProcessEvent.call around c).step processors s) t := by
  rcases hload : perform (Settings.load overrides) { around with processors } s with ⟨e | x, t⟩
  · -- A load that fails after another one completed has only read the environment.
    have hadopted : s.adopted = true := by
      obtain h | ⟨x, hx⟩ := h
      · exact h
      · rw [loaded_of_loads _ around s hloads, hload] at hx
        cases hx
    exact ⟨s, settles_of_failed_load hloads hadopted hload⟩
  · exact ⟨t, settles_of_load hloads hload⟩

end Loads

/-- Once a load has completed, and in a step that completes one, every step settles. -/
private theorem exists_settles (processors : Option Int) (event : ProcessEvent)
    (h : s.adopted = true ∨ ∃ x, (event.step processors s).loaded = some (.ok x)) :
    ∃ t, Settles processors (event.step processors s) t := by
  cases event with
  | environment e =>
      obtain h | ⟨x, hx⟩ := h
      · exact ⟨{ s with environment := e }, rfl, h, nofun, fun _ hnot ↦ absurd trivial hnot,
          Frame.refl _ _⟩
      · cases hx
  | files w =>
      obtain h | ⟨x, hx⟩ := h
      · exact ⟨{ s with files := w }, rfl, h, nofun, fun _ _ ↦ rfl, Frame.refl _ _⟩
      · cases hx
  | host host =>
      obtain h | ⟨x, hx⟩ := h
      · exact ⟨{ s with host }, rfl, h, nofun, fun _ _ ↦ rfl, Frame.refl _ _⟩
      · cases hx
  | call around c =>
      cases hloads : c.loads? around.integers with
      | some overrides => exact exists_settles_of_loads hloads h
      | none =>
          have hnone : ((ProcessEvent.call around c).step processors s).loaded = none := by
            show (c.loads? around.integers).map _ = _
            rw [hloads]
            rfl
          have hadopted : s.adopted = true := by
            obtain h | ⟨x, hx⟩ := h
            · exact h
            · rw [hnone] at hx
              cases hx
          refine ⟨s, rfl, hadopted, ?_, fun _ _ ↦ rfl, ?_⟩
          · intro o ho
            cases hloads.symm.trans ho
          · have hsettings :
                ((ProcessEvent.call around c).step processors s).settings? = c.given? := by
              rw [ProcessStep.settings?, hnone]
              exact Option.or_none
            rw [hsettings]
            exact Call.holds_run { around with processors } hloads s

/-- A step that settles follows the environment. -/
private theorem Settles.followsEnvironment {step : ProcessStep} {t : Session}
    (h : Settles processors step t) : step.FollowsEnvironment processors := by
  obtain ⟨henv, _, runs, hruns, hall⟩ := h.frame
  refine ⟨?_, ?_⟩
  · rw [henv]
    exact h.loaded
  · intro run hrun e he
    rw [ProcessStep.runs, hruns, h.calls, List.drop_left] at hrun
    obtain ⟨name, hname, rfl⟩ := hall run hrun e he
    obtain ⟨x, hx, rfl⟩ := Option.map_eq_some_iff.mp hname
    exact ⟨x, hx, by rw [henv]⟩

/-- Once files of variables have been adopted, they stay so. -/
private theorem Settles.adopted_after {step : ProcessStep} {t : Session}
    (h : Settles processors step t) : step.after.adopted = true :=
  h.frame.2.1.trans h.adopted

/-- Once files of variables have been adopted, only changes from outside change the environment. -/
private theorem Settles.environment_after {step : ProcessStep} {t : Session}
    (h : Settles processors step t) (hadopted : step.before.adopted = true)
    (hevent : ¬ step.event.SetsEnvironment) :
    step.after.environment = step.before.environment :=
  h.frame.1.trans (h.kept hadopted hevent)

/-! ### Runs of a process -/

variable {events : List ProcessEvent} {earlier later : List ProcessStep} {step : ProcessStep}

/-- What follows a step happens in the session that it leaves. -/
private theorem exists_of_processSteps
    (h : processSteps processors events s = earlier ++ step :: later) :
    ∃ (u : Session) (event : ProcessEvent) (rest : List ProcessEvent),
      step = event.step processors u ∧ later = processSteps processors rest step.after := by
  induction earlier generalizing events s with
  | nil =>
      cases events with
      | nil => cases h
      | cons event rest =>
          obtain ⟨rfl, rfl⟩ := List.cons.inj h
          exact ⟨s, event, rest, rfl, rfl⟩
  | cons _ earlier ih =>
      cases events with
      | nil => cases h
      | cons event rest => exact ih (List.cons.inj h).2

/-- Once files of variables have been adopted, every step finds them adopted and settles. -/
private theorem settles_of_mem (hs : s.adopted = true)
    (h : step ∈ processSteps processors events s) :
    step.before.adopted = true ∧ ∃ t, Settles processors step t := by
  induction events generalizing s with
  | nil => cases h
  | cons event rest ih =>
      obtain ⟨t, ht⟩ := exists_settles processors event (.inl hs)
      rcases List.mem_cons.mp h with rfl | h
      · exact ⟨by rw [ProcessEvent.before_step]; exact hs, t, ht⟩
      · exact ih ht.adopted_after h

/-- Without changes from outside, a run leaves the environment as it is. -/
private theorem environment_of_processSteps (hs : s.adopted = true)
    (h : processSteps processors events s = earlier ++ step :: later)
    (hkeeps : ∀ kept ∈ earlier ++ [step], ¬ kept.event.SetsEnvironment) :
    step.after.environment = s.environment := by
  induction earlier generalizing events s with
  | nil =>
      cases events with
      | nil => cases h
      | cons event rest =>
          obtain ⟨rfl, -⟩ := List.cons.inj h
          have hbefore := event.before_step processors s
          obtain ⟨t, ht⟩ := exists_settles processors event (.inl hs)
          rw [ht.environment_after (hbefore.symm ▸ hs) (hkeeps _ List.mem_cons_self), hbefore]
  | cons first earlier ih =>
      cases events with
      | nil => cases h
      | cons event rest =>
          obtain ⟨rfl, hrest⟩ := List.cons.inj h
          have hbefore := event.before_step processors s
          obtain ⟨t, ht⟩ := exists_settles processors event (.inl hs)
          rw [ih ht.adopted_after hrest fun kept hkept ↦ hkeeps kept (List.mem_cons_of_mem _ hkept),
            ht.environment_after (hbefore.symm ▸ hs) (hkeeps _ List.mem_cons_self), hbefore]

end

/-- From the first load that completes on, in every run of a process: settings are loaded from the
environment as it is, by whichever call, and the build tool gets this environment with nothing
replaced but the compiler; no call changes the environment; and as long as it is not changed from
outside, loads with the same overrides give the same, and every variable keeps its value for loads
and, unless it names the compiler, for the build tool. -/
theorem loads_follow_environment (processors : Option Int) (events : List ProcessEvent)
    (s : Session) {earlier later : List ProcessStep} {first : ProcessStep} {x : Settings}
    (hsteps : processSteps processors events s = earlier ++ first :: later)
    (hfirst : first.loaded = some (.ok x)) :
    (∀ step ∈ first :: later, step.FollowsEnvironment processors) ∧
    (∀ step ∈ later, ¬ step.event.SetsEnvironment →
      step.after.environment = step.before.environment) ∧
    ∀ l₁ a l₂ b l₃, first :: later = l₁ ++ a :: (l₂ ++ b :: l₃) →
      (∀ step ∈ l₂ ++ [b], ¬ step.event.SetsEnvironment) →
      (∀ overrides, a.event.loads? = some overrides → b.event.loads? = some overrides →
        a.loaded = b.loaded) ∧
      ∀ name value, a.after.environment.get? name = some value →
        b.after.environment.get? name = some value ∧
        ∀ run ∈ b.runs, ∀ e, run.environment = some e → name ≠ "CC" → e.get? name = some value := by
  obtain ⟨u, event, rest, rfl, rfl⟩ := exists_of_processSteps hsteps
  obtain ⟨t, ht⟩ := exists_settles _ _ (.inr ⟨x, hfirst⟩)
  have hlater (step) (hstep : step ∈ processSteps processors rest
      (event.step processors u).after) := settles_of_mem ht.adopted_after hstep
  have hall (step) (hstep : step ∈ event.step processors u ::
      processSteps processors rest (event.step processors u).after) :
      ∃ t, Settles processors step t := by
    rcases List.mem_cons.mp hstep with rfl | hstep
    · exact ⟨t, ht⟩
    · exact (hlater step hstep).2
  refine ⟨?_, ?_, ?_⟩
  · intro step hstep
    obtain ⟨t, ht⟩ := hall step hstep
    exact ht.followsEnvironment
  · intro step hstep hevent
    obtain ⟨hadopted, t, ht⟩ := hlater step hstep
    exact ht.environment_after hadopted hevent
  · intro l₁ a l₂ b l₃ hsplit hkeeps
    obtain ⟨ta, hta⟩ := hall a (by rw [hsplit]; simp)
    obtain ⟨tb, htb⟩ := hall b (by rw [hsplit]; simp)
    rw [hsplit, ← List.append_assoc] at hsteps
    obtain ⟨_, _, rest', _, hrest⟩ := exists_of_processSteps hsteps
    have henv := environment_of_processSteps hta.adopted_after hrest.symm hkeeps
    refine ⟨?_, ?_⟩
    · intro overrides ha hb
      rw [hta.followsEnvironment.loaded overrides ha, htb.followsEnvironment.loaded overrides hb,
        henv]
    · intro name value hvalue
      rw [henv]
      refine ⟨hvalue, ?_⟩
      intro run hrun e he hname
      obtain ⟨y, _, rfl⟩ := htb.followsEnvironment.runs run hrun e he
      rw [Environment.get?_set_of_ne _ _ hname, henv]
      exact hvalue

/-- A session in a directory with a source and with a file of variables that sets the compiler and a
variable of its own. -/
def compilerSession : Session :=
  { Settings.sampleSession with
    files := ((⟨.empty, []⟩ : Workspace).plant (.ofString ".env")
      (.file (Utf8.encode "CC=gcc\nCFLAGS=-g\n"))).plant (.ofString "src/a.c") (.file [])
    environment := ⟨[]⟩ }

/-- Settings are loaded. -/
def loading : ProcessEvent := .call Settings.sampleSurroundings (.load [])

/-- A library is compiled with settings that the call loads. -/
def compiling : ProcessEvent :=
  .call Settings.sampleSurroundings
    (.operate none (.compile (.ofString "src") (.ofString "build") .plain))

/-- The compiler that a file of variables names is in the environment after the first load, but not
in what the build tool gets. -/
theorem compiler_of_file_replaced :
    (processSteps none [loading, compiling] compilerSession).map (fun step ↦
      (step.loaded.any (·.toOption.isSome), step.before.environment.get? "CC",
        step.after.environment.get? "CC",
        step.runs.map fun run ↦ run.environment.bind (·.get? "CC"))) =
      [(true, none, some "gcc", []), (true, some "gcc", some "gcc", [some "clang"])] := by
  decide +kernel

/-- What the first load takes from a file is visible to the load of the compilation that follows,
and to its build tool. -/
theorem loads_follow_environment_sample : ∃ first second x,
    processSteps none [loading, compiling] compilerSession = [] ++ first :: [second] ∧
    first.loaded = some (.ok x) ∧ second.FollowsEnvironment none ∧ first.loaded = second.loaded ∧
    ∃ run ∈ second.runs, ∃ e, run.environment = some e ∧ e.get? "CFLAGS" = some "-g" := by
  let first := loading.step none compilerSession
  let second := compiling.step none first.after
  have hloaded : (perform (Settings.load []) { Settings.sampleSurroundings with processors := none }
      compilerSession).1.toOption.any (fun _ ↦ true) = true := by
    decide +kernel
  have hvalue : first.after.environment.get? "CFLAGS" = some "-g" := by decide +kernel
  have hruns : second.runs.any (·.environment.isSome) = true := by decide +kernel
  obtain ⟨x, t, hload, _⟩ := exists_of_any_toOption hloaded
  have hfirst : first.loaded = some (.ok x) :=
    congrArg (some ∘ Prod.fst) hload
  obtain ⟨hfollows, _, hpair⟩ :=
    @loads_follow_environment none [loading, compiling] compilerSession [] _ _ _ rfl hfirst
  have hkeeps : ∀ step ∈ [] ++ [second], ¬ step.event.SetsEnvironment := by
    intro step hstep
    rw [List.mem_singleton.mp hstep]
    exact id
  obtain ⟨hequal, hkept⟩ := hpair [] first [] second [] rfl hkeeps
  obtain ⟨run, hrun, hsome⟩ := List.any_eq_true.mp hruns
  obtain ⟨e, he⟩ := Option.isSome_iff_exists.mp hsome
  exact ⟨first, second, x, rfl, hfirst, hfollows second (.tail _ (.head _)), hequal [] rfl rfl, run,
    hrun, e, he, (hkept "CFLAGS" "-g" hvalue).2 run hrun e he (by decide)⟩

end Vendoring
