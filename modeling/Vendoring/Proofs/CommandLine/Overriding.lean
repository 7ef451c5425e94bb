import Vendoring.Proofs.Build.Environments
import Vendoring.Proofs.CommandLine.Emitting

/-!
# Options that override variables

An option of a command overrides the field of a variable, and the variable makes no difference then,
neither to the settings nor to what the command does with them. The variable for the number of jobs
is the exception: it is read before it is overridden, so a fault in it is told even where the option
for the number of jobs is given.
-/

namespace Vendoring.CommandLine

open Vendoring.Text Vendoring.Data Vendoring.Files Vendoring.Tool Vendoring.Settings
open Vendoring.Instrumentation Vendoring.Build Vendoring.Provenance
open Vendoring.Action

variable {names : List String} {around : Surroundings}

/-! ### Commands with their settings -/

private theorem overlooks_writeLine (text : String) : Overlooks names around (writeLine text) := by
  refine (Paired.ofExcept _ _).bindSame fun shown ↦ ?_
  exact Overlooks.of_apart fun _ _ _ ↦ ⟨rfl, rfl, rfl⟩

section
variable {overrides : Entries} {s t : Session}

private theorem alikeBut_load_bind {α : Type} {rest : Settings → Action α}
    (h : AlikeBut (overriddenVariables overrides) around adoptEnvFiles s t)
    (hfault : foundFault? around s = foundFault? around t)
    (hrest : ∀ x, Overlooks (overriddenVariables overrides) around (rest x)) :
    AlikeBut (overriddenVariables overrides) around (load overrides >>= rest) s t := by
  have hload : Paired around around (fun u v ↦ u = s ∧ v = t)
      (Same (Session.AgreeBut (overriddenVariables overrides)))
      (Session.AgreeBut (overriddenVariables overrides)) (load overrides) (load overrides) := by
    rintro _ _ ⟨rfl, rfl⟩
    exact alikeBut_load h hfault
  exact hload.bindSame hrest s t ⟨rfl, rfl⟩

/-- A command that loads settings ends alike in two sessions when the variables that they differ in
are overridden, the build tool does not look at them, and the loads find the same fault, or none, in
the number of jobs. -/
theorem alikeBut_run {c : Command} (hloads : c.loads? = some overrides)
    (htools : BuilderOverlooks (overriddenVariables overrides) around.tools)
    (h : AlikeBut (overriddenVariables overrides) around adoptEnvFiles s t)
    (hfault : foundFault? around s = foundFault? around t) :
    AlikeBut (overriddenVariables overrides) around c.run s t := by
  cases c with
  | install source output destination verbose =>
      cases hloads
      refine alikeBut_load_bind h hfault fun x ↦ ?_
      refine (overlooks_install _).outcome.bindSame fun outcome ↦ ?_
      split
      · exact (overlooks_writeLine _).bindSame fun _ ↦ .pureSame _
      · exact (overlooks_writeLine _).bindSame fun _ ↦ .pureSame _
      · exact overlooks_throw _
  | probe directory tags nm marker verbose =>
      cases hloads
      refine alikeBut_load_bind h hfault fun x ↦ ?_
      refine (Paired.ofExcept _ _).bindSame fun requested ↦ ?_
      refine (overlooks_scan _).bindSame fun probe ↦ ?_
      refine (overlooks_writeLine _).bindSame fun _ ↦ ?_
      refine (Paired.forIn _ _ fun path _ _ ↦ ?_).bindSame fun _ ↦ ?_
      · exact (overlooks_writeLine _).bindSame fun _ ↦ .pureSame _
      cases probe.toolAvailable with
      | true => exact (overlooks_writeLine _).bindSame fun _ ↦ .pureSame _
      | false =>
          refine (overlooks_writeLine _).bindSame fun _ ↦ ?_
          exact (overlooks_writeLine _).bindSame fun _ ↦ .pureSame _
  | metadata destination d =>
      dsimp only [Command.loads?] at hloads
      split at hloads
      · next hloading =>
          cases hloads
          obtain ⟨directory, rfl⟩ := Option.isSome_iff_exists.mp hloading.1
          obtain ⟨tags, htags⟩ : ∃ tags, tagsOfWords d.tags = .ok tags := by
            cases htags : tagsOfWords d.tags with
            | ok tags => exact ⟨tags, rfl⟩
            | error e =>
                rw [htags] at hloading
                cases hloading.2
          unfold AlikeBut
          show EndsAlike _ _ (perform (runMetadata (some directory) d) around s)
            (perform (runMetadata (some directory) d) around t)
          rw [perform_runMetadata htags, perform_runMetadata htags]
          refine alikeBut_load_bind h hfault fun x ↦ ?_
          exact (overlooks_writeRecord _ _).bindSame fun _ ↦ .pureSame _
      · cases hloads
  | build source output destination d skipCompile cc jobs verbose =>
      cases hloads
      refine alikeBut_load_bind h hfault fun x ↦ ?_
      refine (Paired.ofExcept _ _).bindSame fun tags ↦ ?_
      exact (overlooks_runBuild htools _).bindSame fun _ ↦ .pureSame _
  | rng seed count => cases hloads

end

/-- The sample session with other values for two variables that its files of variables set. -/
def changedSession : Session :=
  { Settings.sampleSession with
    environment := (Settings.sampleSession.environment.set "VENDORKIT_CC" "tcc").set
      "VENDORKIT_JOBS" "16" }

/-- A build that overrides both variables. -/
def overridingBuild : Command :=
  .build (.ofString "src") (.ofString "build") (.ofString "out") ⟨"lib", "1.0", [], [], []⟩ false
    (some "icc") (some 2) false

/-- A session without files and with an environment. -/
def bareSession (environment : Environment) : Session :=
  { Settings.sampleSession with files := ⟨.empty, []⟩, environment }

/-- The words for a build with a number of jobs. -/
def jobsWords : List String :=
  ["build", "src", "build", "out", "--libname", "lib", "--version", "1.0", "--jobs", "4"]

end Vendoring.CommandLine
