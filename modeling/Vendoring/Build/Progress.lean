import Vendoring.Build.Result
import Vendoring.Session.Action

/-!
# Progress of a build

A build goes through stages in a row. Its progress is the stages so far and, while all went well,
what the last one hands on. The next stage runs on what is handed on; once a stage has failed, every
later one is skipped. A failure of a stage becomes its detail and does not stop the action.
-/

namespace Vendoring.Build

open Vendoring.Data

/-- The stages so far, and what the last one hands on unless one has failed. -/
structure Progress (α : Type) where
  stages : List Stage
  carried : Option α

namespace Progress

variable {α β : Type}

/-- No stage has been run. -/
def start (a : α) : Progress α := ⟨[], some a⟩

/-- A stage that took the time between two readings of the clock. -/
def timed (name : String) (started ended : Decimal) : Except Failure (β × String) → Stage
  | .ok (_, detail) => ⟨name, .ok, detail, (ended.sub started).thousandfold⟩
  | .error e => ⟨name, .failed, e.message, (ended.sub started).thousandfold⟩

/-- Run a stage; the action gives what is handed on and the stage's detail. -/
def runStage (name : String) (a : Action (β × String)) : Action (Stage × Option β) := do
  Action.say ("[bold]Stage: " ++ name ++ "[/]")
  let started ← Action.readClock
  let outcome ← Action.outcome a
  let ended ← Action.readClock
  let stage := timed name started ended outcome
  match outcome with
  | .ok (b, _) => return (stage, some b)
  | .error _ =>
    Action.say ("[red]" ++ name ++ " failed: " ++ stage.detail ++ "[/]")
    return (stage, none)

/-- Go on to the next stage. -/
def next (p : Progress α) (name : String) (f : α → Action (β × String)) :
    Action (Progress β) := do
  match p.carried with
  | none => return ⟨p.stages ++ [.skipped name], none⟩
  | some a =>
    let (stage, carried) ← runStage name (f a)
    return ⟨p.stages ++ [stage], carried⟩

end Progress
end Vendoring.Build
