import Vendoring.Tool.Invocation

/-!
# Failed tool runs

Why the symbols of an archive could not be listed, and why a library could not be compiled.
-/

namespace Vendoring.Tool

open Vendoring.Text

/-- Why listing the symbols of an archive failed. -/
inductive ScanFault where
  | notStarted (tool : String) (fault : LaunchFault)
  | timedOut (words : List String) (timeout : Option Int)
  | failed (words : List String) (status : Int)
  deriving DecidableEq, Repr

/-- The wording of a scan's fault. -/
def ScanFault.message : ScanFault → String
  | .notStarted tool fault => fault.message tool
  | .timedOut words timeout =>
    shownCommand words ++ " timed out after " ++ timeoutText timeout ++ " seconds"
  | .failed words status => shownCommand words ++ " " ++ endText status

/-- Why a step of compiling failed. -/
inductive StepFault where
  | notStarted (tool : String) (fault : LaunchFault)
  /-- The tool of the given name ran out of time. -/
  | timedOut (name : String)
  /-- The tool exited with a status other than zero. -/
  | exited (status : Int) (output errors : String)
  deriving DecidableEq, Repr

/-- The wording of a step's fault: what the tool wrote, its errors first, or else its status. -/
def StepFault.message : StepFault → String
  | .notStarted tool fault => fault.message tool
  | .timedOut name => name ++ " timed out"
  | .exited status output errors =>
    if errors ≠ "" then errors
    else if output ≠ "" then output
    else "exit status " ++ intText status

/-- Why a library could not be compiled. -/
inductive CompileError where
  | noSource (directory : String)
  | configure (fault : StepFault)
  | build (fault : StepFault)
  deriving DecidableEq, Repr

/-- The wording of a compile error. -/
def CompileError.message : CompileError → String
  | .noSource directory => "Source directory not found: " ++ directory
  | .configure fault => "configure failed: " ++ fault.message
  | .build fault => "build failed: " ++ fault.message

/-- A compile error always has a wording. -/
theorem CompileError.message_ne_empty (e : CompileError) : e.message ≠ "" := by
  intro h
  cases e <;> exact absurd (String.append_eq_empty_iff.1 h).1 (by decide)

end Vendoring.Tool
