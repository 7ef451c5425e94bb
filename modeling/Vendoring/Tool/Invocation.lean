import Vendoring.Settings.Environment
import Vendoring.Text.Quoted
import Vendoring.Text.Integer

/-!
# Running tools

A tool is run by the words of a command line. It may fail to start, run out of time, or exit with a
status; a negative status means that a signal ended it. A run is not even tried when a word holds a
null byte, and it is given up when its time limit is too large a number. What a run gives is a
function of the run, so a toolbox is two functions: one for listing the symbols of an archive, one
for building.
-/

namespace Vendoring.Tool

open Vendoring.Settings Vendoring.Text

/-- Why a tool does not start. -/
inductive LaunchFault where
  | notFound
  | notPermitted
  | notExecutable
  /-- Any other refusal of the system, in its wording. -/
  | other (wording : String)
  deriving DecidableEq, Repr

namespace LaunchFault

/-- The wording of a refusal by its number and text. -/
def numbered (number : Nat) (text tool : String) : String :=
  "[Errno " ++ toString number ++ "] " ++ text ++ ": " ++ quoted tool

/-- The diagnostic for a tool that does not start. -/
def message (fault : LaunchFault) (tool : String) : String :=
  match fault with
  | notFound => numbered 2 "No such file or directory" tool
  | notPermitted => numbered 13 "Permission denied" tool
  | notExecutable => numbered 8 "Exec format error" tool
  | other wording => wording

end LaunchFault

/-- What became of a run. -/
inductive Outcome where
  /-- The tool exited with a status and what it wrote on its two outputs. -/
  | exited (status : Int) (output errors : List UInt8)
  | notStarted (fault : LaunchFault)
  | timedOut
  /-- A word of the command line holds a null byte. -/
  | refused
  /-- The time that the tool may take cannot be waited for, in the host's wording. -/
  | unwaitable (wording : String)
  deriving DecidableEq, Repr

/-- A run of a tool: the words of its command line, how many seconds it may take, and its
environment if that differs from the caller's. -/
structure Invocation where
  words : List String
  timeout : Option Int
  environment : Option Environment
  deriving DecidableEq, Repr

/-- The tool that a run starts. -/
def Invocation.tool (i : Invocation) : String := i.words.headD ""

/-- A command line as diagnostics show it. -/
def shownCommand (words : List String) : String := "Command '" ++ quotedList words ++ "'"

/-- The names of the signals that have one. -/
def signalNames : List (Nat × String) :=
  [(1, "SIGHUP"), (2, "SIGINT"), (3, "SIGQUIT"), (4, "SIGILL"), (5, "SIGTRAP"), (6, "SIGABRT"),
    (7, "SIGBUS"), (8, "SIGFPE"), (9, "SIGKILL"), (10, "SIGUSR1"), (11, "SIGSEGV"),
    (12, "SIGUSR2"), (13, "SIGPIPE"), (14, "SIGALRM"), (15, "SIGTERM"), (16, "SIGSTKFLT"),
    (17, "SIGCHLD"), (18, "SIGCONT"), (19, "SIGSTOP"), (20, "SIGTSTP"), (21, "SIGTTIN"),
    (22, "SIGTTOU"), (23, "SIGURG"), (24, "SIGXCPU"), (25, "SIGXFSZ"), (26, "SIGVTALRM"),
    (27, "SIGPROF"), (28, "SIGWINCH"), (29, "SIGIO"), (30, "SIGPWR"), (31, "SIGSYS"),
    (34, "SIGRTMIN"), (64, "SIGRTMAX")]

/-- How a run ended that did not exit with zero. -/
def endText (status : Int) : String :=
  if status < 0 then
    match signalNames.lookup status.natAbs with
    | some name => "died with <Signals." ++ name ++ ": " ++ toString status.natAbs ++ ">."
    | none => "died with unknown signal " ++ toString status.natAbs ++ "."
  else "returned non-zero exit status " ++ intText status ++ "."

/-- A number of seconds that may be unlimited, as diagnostics show it. -/
def timeoutText (timeout : Option Int) : String := (timeout.map intText).getD "None"

end Vendoring.Tool
