import Vendoring.Proofs.Build.Compiling
import Vendoring.Proofs.Settings.Overriding

/-!
# Builds in environments that differ

A build hands its environment on to the build tool and looks at it for nothing else. So in sessions
that differ in some variables, and with a build tool that does not look at these, two runs of a
build end alike and leave sessions that again differ in these variables at most.
-/

namespace Vendoring.Build

open Vendoring.Text Vendoring.Files Vendoring.Tool Vendoring.Settings Vendoring.Provenance
open Vendoring.Action

section
variable {α β : Type} {names : List String} {around : Surroundings}

/-- An action ends alike in all sessions that differ at most in some variables. -/
abbrev Overlooks (names : List String) (around : Surroundings) (a : Action α) : Prop :=
  Paired around around (Session.AgreeBut names) (Same (Session.AgreeBut names))
    (Session.AgreeBut names) a a

/-- A build tool does the same in environments that differ at most in some variables. -/
def BuilderOverlooks (names : List String) (tools : Toolbox) : Prop :=
  ∀ n run run' files, Invocation.AgreeBut names run run' →
    tools.build n run files = tools.build n run' files

/-! ### Basic actions -/

/-- An action that neither looks at the environment and the tools run nor changes them overlooks all
variables. -/
theorem Overlooks.of_apart {a : Action α} (ha : ∀ s environment calls,
      perform a around { s with environment, calls } =
        ((perform a around s).1, { (perform a around s).2 with environment, calls }) ∧
      (perform a around s).2.environment = s.environment ∧
      (perform a around s).2.calls = s.calls) : Overlooks names around a := by
  rintro s _ ⟨e', calls, rfl, he, hcalls⟩
  obtain ⟨hsame, henvironment, hruns⟩ := ha s e' calls
  rw [hsame]
  rw [← henvironment] at he
  rw [← hruns] at hcalls
  generalize perform a around s = p at he hcalls ⊢
  obtain ⟨x | x, u⟩ := p
  · exact .error ⟨e', calls, rfl, he, hcalls⟩
  · exact .ok ⟨rfl, e', calls, rfl, he, hcalls⟩

/-- Showing a text overlooks all variables. -/
theorem overlooks_say (text : String) : Overlooks names around (say text) := by
  refine .of_apart fun s e' calls ↦ ?_
  rw [perform_say, perform_say]
  cases Markup.render text with
  | ok shown => exact ⟨rfl, rfl, rfl⟩
  | error e => exact ⟨rfl, rfl, rfl⟩

/-- Showing a line about a part of the program overlooks all variables. -/
theorem overlooks_debug (enabled : Bool) (part text : String) :
    Overlooks names around (Action.debug enabled part text) := by
  refine .of_apart fun s e' calls ↦ ?_
  cases enabled with
  | true => exact ⟨rfl, rfl, rfl⟩
  | false => exact ⟨rfl, rfl, rfl⟩

/-- Reading the clock overlooks all variables. -/
theorem overlooks_readClock : Overlooks names around readClock :=
  .of_apart fun _ _ _ ↦ ⟨rfl, rfl, rfl⟩

/-- Working on the files overlooks all variables. -/
theorem overlooks_onFiles (a : Attempt FileError α) : Overlooks names around (onFiles a) := by
  refine .of_apart fun s e' calls ↦ ?_
  rw [perform_onFiles, perform_onFiles]
  exact ⟨rfl, rfl, rfl⟩

/-- Working on the files with a failure of one's own overlooks all variables. -/
theorem overlooks_onFilesElse (failure : FileError → Failure) (a : Attempt FileError α) :
    Overlooks names around (onFilesElse failure a) := by
  refine .of_apart fun s e' calls ↦ ?_
  rw [perform_onFilesElse, perform_onFilesElse]
  exact ⟨rfl, rfl, rfl⟩

/-- Looking a path up overlooks all variables. -/
theorem overlooks_lookUp (p : Path) : Overlooks names around (lookUp p) := by
  refine .of_apart fun s e' calls ↦ ?_
  rw [perform_lookUp, perform_lookUp]
  exact ⟨rfl, rfl, rfl⟩

/-- Making directories overlooks all variables. -/
theorem overlooks_makeDirectories (p : Path) : Overlooks names around (makeDirectories p) :=
  (Paired.checkPath p).bindSame fun _ ↦ overlooks_onFiles _

/-- Writing a text to a file overlooks all variables. -/
theorem overlooks_writeText (p : Path) (text : String) :
    Overlooks names around (writeText p text) :=
  (Paired.checkPath p).bindSame fun _ ↦ overlooks_onFiles _

/-- Failing overlooks all variables. -/
theorem overlooks_throw (e : Failure) : Overlooks names around (throw e : Action α) :=
  .throw e fun _ _ hst ↦ hst

/-- Looking at other parts of the session than the environment and the tools run overlooks all
variables. -/
theorem overlooks_get {f : Session → Action α}
    (hf : ∀ s environment calls, f { s with environment, calls } = f s)
    (h : ∀ s, Overlooks names around (f s)) : Overlooks names around (MonadState.get >>= f) := by
  refine Paired.getBind ?_
  rintro s _ ⟨e', calls, rfl, _⟩
  rw [hf s e' calls]
  exact h s

private theorem agreeBut_append {calls calls' : List Invocation} {run run' : Invocation}
    (hcalls : List.Forall₂ (Invocation.AgreeBut names) calls calls')
    (hrun : run.AgreeBut names run') :
    List.Forall₂ (Invocation.AgreeBut names) (calls ++ [run]) (calls' ++ [run']) :=
  List.rel_append hcalls (.cons hrun .nil)

/-- Listing the symbols of an archive overlooks all variables. -/
theorem overlooks_runLister (run : Invocation) (archive : Path) :
    Overlooks names around (runLister run archive) := by
  rintro s _ ⟨e', calls, rfl, he, hcalls⟩
  rw [perform_runLister, perform_runLister]
  exact .ok ⟨rfl, e', _, rfl, he, agreeBut_append hcalls (.refl names run)⟩

/-- Runs of a build tool that differ in variables that it does not look at end alike. -/
theorem overlooks_runBuilder (htools : BuilderOverlooks names around.tools) {run run' : Invocation}
    (hrun : run.AgreeBut names run') :
    Paired around around (Session.AgreeBut names) (Same (Session.AgreeBut names))
      (Session.AgreeBut names) (runBuilder run) (runBuilder run') := by
  rintro s _ ⟨e', calls, rfl, he, hcalls⟩
  rw [perform_runBuilder, perform_runBuilder, outcomeOf, outcomeOf, afterBuilder, afterBuilder]
  dsimp only
  rw [← htools s.builds run run' s.files hrun]
  exact .ok ⟨rfl, e', _, rfl, he, agreeBut_append hcalls hrun⟩

/-! ### Stages -/

variable {settings : Settings}

private theorem overlooks_runStep (htools : BuilderOverlooks names around.tools)
    (words : List String) : Overlooks names around (runStep words settings) := by
  refine (overlooks_debug _ _ _).bindSame fun _ ↦ ?_
  refine Paired.getBind ?_
  rintro s _ ⟨e', _, rfl, he, _⟩
  have hrun : Invocation.AgreeBut names
      ⟨words, settings.compileTimeout, some (s.environment.set "CC" settings.cc)⟩
      ⟨words, settings.compileTimeout, some (e'.set "CC" settings.cc)⟩ :=
    ⟨rfl, rfl, .some (he.set "CC" settings.cc)⟩
  refine (overlooks_runBuilder htools hrun).bindSame fun outcome ↦ ?_
  cases outcome with
  | exited status output errors =>
      refine (Paired.decoded _).bindSame fun _ ↦ ?_
      exact (Paired.decoded _).bindSame fun _ ↦ .pureSame _
  | notStarted fault => exact .pureSame _
  | timedOut => exact .pureSame _
  | refused => exact overlooks_throw _
  | unwaitable wording => exact overlooks_throw _

/-- A compilation overlooks the variables that the build tool does not look at. -/
theorem overlooks_compile (htools : BuilderOverlooks names around.tools) (source build : Path)
    (profile : Instrumentation.Profile) :
    Overlooks names around (compile settings source build profile) := by
  refine (overlooks_lookUp _).bindSame fun found ↦ ?_
  split
  · exact .pureSame _
  refine (overlooks_makeDirectories _).bindSame fun _ ↦ ?_
  refine (overlooks_say _).bindSame fun _ ↦ ?_
  refine (overlooks_runStep htools _).bindSame fun configured ↦ ?_
  split
  · exact .pureSame _
  refine (overlooks_say _).bindSame fun _ ↦ ?_
  refine (Paired.writable _).bindSame fun _ ↦ ?_
  refine (overlooks_runStep htools _).bindSame fun built ↦ ?_
  split
  · exact .pureSame _
  · exact .pureSame _

/-- An install overlooks all variables. -/
theorem overlooks_install (r : InstallRequest) : Overlooks names around (install r) := by
  refine (Paired.refusedAs _ (Paired.checkPath _)).bindSame fun _ ↦ ?_
  refine (overlooks_onFilesElse _ _).bindSame fun _ ↦ ?_
  refine overlooks_get (fun _ _ _ ↦ rfl) fun s ↦ ?_
  refine (Paired.ofExcept _ _).bindSame fun archives ↦ ?_
  refine (Paired.mapM archives fun archive _ ↦ ?_).bindSame fun installed ↦ ?_
  · exact (overlooks_onFilesElse _ _).bindSame fun _ ↦ .pureSame _
  refine (overlooks_say _).bindSame fun _ ↦ ?_
  refine (overlooks_lookUp _).bindSame fun found ↦ ?_
  split
  · refine Paired.bindSame (S := Session.AgreeBut names) (overlooks_throw _) fun _ ↦ ?_
    exact (overlooks_onFilesElse _ _).bindSame fun _ ↦ .pureSame _
  · exact (overlooks_onFilesElse _ _).bindSame fun _ ↦ .pureSame _

private theorem overlooks_scanFrom (p : Probe) (archives : List Path) :
    Overlooks names around (scanFrom settings p archives) := by
  induction archives generalizing p with
  | nil => exact .pureSame p
  | cons archive rest ih =>
      have hlist : Overlooks names around (listSymbols settings archive) := by
        refine (overlooks_runLister _ _).bindSame fun outcome ↦ ?_
        cases outcome with
        | exited status output errors => exact .pureSame _
        | notStarted fault => exact .pureSame _
        | timedOut => exact .pureSame _
        | refused => exact overlooks_throw _
        | unwaitable wording => exact overlooks_throw _
      refine hlist.bindSame fun listed ↦ ?_
      split
      · split
        · exact ih _
        · exact ih _
      · exact (overlooks_debug _ _ _).bindSame fun _ ↦ .pureSame _
      · exact (overlooks_debug _ _ _).bindSame fun _ ↦ ih _

/-- A scan overlooks all variables. -/
theorem overlooks_scan (directory : Path) : Overlooks names around (scan settings directory) :=
  overlooks_get (fun _ _ _ ↦ rfl) fun _ ↦
    (Paired.ofExcept _ _).bindSame fun _ ↦ overlooks_scanFrom _ _

/-- Writing a record overlooks all variables. -/
theorem overlooks_writeRecord (directory : Path) (record : Record) :
    Overlooks names around (writeRecord settings directory record) := by
  refine (overlooks_makeDirectories _).bindSame fun _ ↦ ?_
  refine (overlooks_writeText _ _).bindSame fun _ ↦ ?_
  exact (overlooks_say _).bindSame fun _ ↦ .pureSame _

/-- Telling of a result overlooks all variables. -/
theorem overlooks_reportResult (result : Result) :
    Overlooks names around (reportResult result) := by
  refine Paired.tryCatch (S := Session.AgreeBut names) ?_ fun e ↦ ?_
  · refine Paired.bindSame (S := Session.AgreeBut names)
      (?_ : Overlooks names around (saveReport result _)) fun _ ↦ .pureSame _
    refine (overlooks_makeDirectories _).bindSame fun _ ↦ ?_
    refine Paired.readBind ?_
    refine (overlooks_writeText _ _).bindSame fun _ ↦ ?_
    exact (overlooks_say _).bindSame fun _ ↦ .pureSame _
  · split
    · exact overlooks_say _
    · exact overlooks_throw _

/-- Going on to a stage overlooks the variables that the stage overlooks. -/
theorem overlooks_next {f : α → Action (β × String)} (hf : ∀ x, Overlooks names around (f x))
    (p : Progress α) (name : String) : Overlooks names around (p.next name f) := by
  unfold Progress.next
  split
  · exact .pureSame _
  refine Paired.bindSame (S := Session.AgreeBut names)
    (?_ : Overlooks names around (Progress.runStage name _)) fun _ ↦ .pureSame _
  refine (overlooks_say _).bindSame fun _ ↦ ?_
  refine overlooks_readClock.bindSame fun started ↦ ?_
  refine (Paired.outcome (hf _)).bindSame fun outcome ↦ ?_
  refine overlooks_readClock.bindSame fun ended ↦ ?_
  split
  · exact .pureSame _
  · exact (overlooks_say _).bindSame fun _ ↦ .pureSame _

/-- A build overlooks the variables that the build tool does not look at. -/
theorem overlooks_runBuild (htools : BuilderOverlooks names around.tools) (r : Request) :
    Overlooks names around (runBuild settings r) := by
  have hcompile : Overlooks names around (compileStage settings r) := by
    unfold compileStage
    split
    · exact .pureSame _
    refine (overlooks_compile htools _ _ _).bindSame fun compiled ↦ ?_
    split
    · exact overlooks_throw _
    · exact .pureSame _
  refine (overlooks_next (fun _ ↦ hcompile) _ _).bindSame fun _ ↦ ?_
  refine (overlooks_next (fun _ ↦ ?_) _ _).bindSame fun _ ↦ ?_
  · exact (overlooks_install _).bindSame fun _ ↦ .pureSame _
  refine (overlooks_next (fun _ ↦ ?_) _ _).bindSame fun _ ↦ ?_
  · exact (overlooks_scan _).bindSame fun _ ↦ .pureSame _
  refine (overlooks_next (fun _ ↦ ?_) _ _).bindSame fun _ ↦ ?_
  · exact (overlooks_writeRecord _ _).bindSame fun _ ↦ .pureSame _
  exact (overlooks_reportResult _).bindSame fun _ ↦ .pureSame _

end
end Vendoring.Build
