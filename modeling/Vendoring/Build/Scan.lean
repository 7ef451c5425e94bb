import Vendoring.Build.Archives
import Vendoring.Build.Probe
import Vendoring.Settings.Load

/-!
# Scanning archives

Every archive of a directory is listed by the symbol tool, and the marker counts as present if its
bytes occur anywhere in what the tool wrote. A listing that fails is recorded and the scan goes on;
it ends early only when the tool is not there at all. A scan detects: what was asked for has no
influence on it.
-/

namespace Vendoring.Build

open Vendoring.Text Vendoring.Files Vendoring.Tool

/-- Whether a list occurs contiguously in another. -/
def isInfixOf {α : Type} [BEq α] (part : List α) : List α → Bool
  | [] => part.isEmpty
  | a :: rest => part.isPrefixOf (a :: rest) || isInfixOf part rest

/-- List the symbols of an archive. -/
def listSymbols (settings : Settings) (archive : Path) :
    Action (Except ScanFault (List UInt8)) := do
  let run : Invocation := ⟨[settings.nmTool, archive.text], settings.probeTimeout, none⟩
  match ← Action.runLister run archive with
  | .exited status output _ =>
    return if status = 0 then .ok output else .error (.failed run.words status)
  | .notStarted fault => return .error (.notStarted run.tool fault)
  | .timedOut => return .error (.timedOut run.words run.timeout)
  | .refused => throw .nullByte
  | .unwaitable wording => throw (.integer (.outOfRange wording))

/-- Scan archives one after the other. -/
def scanFrom (settings : Settings) (p : Probe) : List Path → Action Probe
  | [] => return p
  | archive :: rest => do
    let p := { p with archivesScanned := p.archivesScanned ++ [archive.text] }
    match ← listSymbols settings archive with
    | .ok listing =>
      if isInfixOf (Utf8.encode p.marker) listing then
        scanFrom settings { p with archivesMatched := p.archivesMatched ++ [archive.text] } rest
      else scanFrom settings p rest
    | .error (.notStarted _ .notFound) =>
      let note := settings.nmTool ++ " not found"
      Action.debug settings.debug "prober" (note ++ "; marker treated as absent")
      return { p with toolAvailable := false, errors := p.errors ++ [note] }
    | .error fault =>
      Action.debug settings.debug "prober"
        ("scan of " ++ archive.text ++ " failed: " ++ fault.message)
      scanFrom settings
        { p with errors := p.errors ++ [archive.name ++ ": " ++ fault.message] } rest

/-- Scan the archives of a directory for the marker. -/
def scan (settings : Settings) (directory : Path) : Action Probe := do
  let archives ← Action.ofExcept .file (listArchives (← get).files directory)
  scanFrom settings (.start settings.claimerMarker) archives

/-- A list occurs in another exactly when it stands between two parts of it. -/
theorem isInfixOf_iff {α : Type} [BEq α] [LawfulBEq α] {part l : List α} :
    isInfixOf part l = true ↔ part <:+: l := by
  induction l with
  | nil => simp [isInfixOf, List.isEmpty_iff]
  | cons a rest ih =>
    rw [isInfixOf, Bool.or_eq_true, List.isPrefixOf_iff_prefix, ih, List.infix_cons_iff]

end Vendoring.Build
