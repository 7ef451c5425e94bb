import Vendoring.Proofs.Build.Probing
import Vendoring.Proofs.Build.Runs
import Vendoring.Proofs.CommandLine.Writing
import Vendoring.Proofs.Settings.Processes

/-!
# What probing a directory shows

The command that probes a directory writes a report of what the scan of it found. A scan that lost
the symbol tool on the way keeps what it had found before, so the report can say that the claimer is
treated as absent and name it among the tags: it does just when an archive before the first that the
tool is not there for carries the marker.
-/

namespace Vendoring.CommandLine

open Vendoring.Text Vendoring.Files Vendoring.Tool Vendoring.Instrumentation Vendoring.Build
open Vendoring.Action

/-! ### The report of a probe -/

/-- The line that tells that the symbol tool is not there. -/
def unavailableLine (settings : Settings) : String :=
  "  [yellow]" ++ settings.nmTool ++ " unavailable; claimer treated as absent[/]"

/-- The line that names the tags carried. -/
def instrumentationLine (tags : TagSet) : String :=
  "Instrumentation: " ++ if tags.names.isEmpty then "(none)" else ", ".intercalate tags.names

/-- The lines that report a probe and the tags carried. -/
def probeReport (settings : Settings) (probe : Probe) (tags : TagSet) : List String :=
  ["Archives scanned: " ++ toString probe.archivesScanned.length] ++
    (probe.archivesMatched.map (fun path ↦ "  [green]" ++ probe.marker ++ "[/] in " ++ path) ++
      ((if probe.toolAvailable then [] else [unavailableLine settings]) ++
        [instrumentationLine tags]))

private theorem ne_unavailableLine {settings : Settings} {start : String} (rest : String)
    (h : (start ++ rest).toList.take 4 ≠ [' ', ' ', '[', 'y']) :
    start ++ rest ≠ unavailableLine settings := by
  intro heq
  rw [heq] at h
  exact h (by simp [unavailableLine, String.toList_append])

/-- A report tells that the symbol tool is not there when the probe says so. -/
theorem unavailableLine_mem_iff {settings : Settings} {probe : Probe} {tags : TagSet} :
    unavailableLine settings ∈ probeReport settings probe tags ↔ probe.toolAvailable = false := by
  have hscanned (n : String) : "Archives scanned: " ++ n ≠ unavailableLine settings :=
    ne_unavailableLine n (by simp [String.toList_append])
  have hmatched (path : String) :
      "  [green]" ++ probe.marker ++ "[/] in " ++ path ≠ unavailableLine settings :=
    ne_unavailableLine path (by simp [String.toList_append])
  have htags : instrumentationLine tags ≠ unavailableLine settings :=
    ne_unavailableLine _ (by simp [String.toList_append])
  unfold probeReport
  cases probe.toolAvailable <;> simp [Ne.symm (hscanned _), hmatched, htags.symm]

/-- Once the settings are loaded, the tags looked up and the directory scanned, the command that
probes a directory writes the report. -/
theorem perform_runProbe {directory : Path} {tags : List String} {nm marker : Option String}
    {debug : Bool} {around : Surroundings} {s loaded scanned : Session} {settings : Settings}
    {requested : TagSet} {probe : Probe}
    (hload : perform (settingsWith [("nm_tool", nm.map .text), ("claimer_marker", marker.map .text),
      debugOverride debug]) around s = (.ok settings, loaded))
    (htags : tagsOfWords tags = .ok requested)
    (hscan : perform (scan settings directory) around loaded = (.ok probe, scanned)) :
    perform (runProbe directory tags nm marker debug) around s =
      let report := probeReport settings probe (carriedTags (.ofTags requested) probe)
      ((showLines around.shown report).1.map fun _ ↦ 0,
        { scanned with output := scanned.output ++ (showLines around.shown report).2 }) := by
  have htags' : perform (ofExcept .usage (tagsOfWords tags)) around loaded =
      (.ok requested, loaded) := perform_ofExcept_eq_ok.mpr ⟨htags, rfl⟩
  unfold runProbe
  rw [perform_bind, hload]
  dsimp only
  rw [perform_bind, htags']
  dsimp only
  rw [perform_bind, hscan]
  suffices hwrites : Writes
      (probeReport settings probe (carriedTags (.ofTags requested) probe)) 0 _ from
    hwrites around scanned
  refine .bind (.writeLine _) (.bind (.forIn _ _) ?_)
  cases probe.toolAvailable with
  | true => exact .giving (.writeLine _) 0
  | false => exact .bind (.writeLine _) (.giving (.writeLine _) 0)

/-- The command that probes a directory loads its settings, looks up the tags, scans the directory
and writes the report. -/
theorem reported_of_runProbe {directory : Path} {tags : List String} {nm marker : Option String}
    {debug : Bool} {around : Surroundings} {s t : Session} {code : Nat}
    (h : perform (runProbe directory tags nm marker debug) around s = (.ok code, t)) :
    ∃ settings loaded requested probe scanned shown,
      perform (settingsWith [("nm_tool", nm.map .text), ("claimer_marker", marker.map .text),
        debugOverride debug]) around s = (.ok settings, loaded) ∧
      tagsOfWords tags = .ok requested ∧
      perform (scan settings directory) around loaded = (.ok probe, scanned) ∧
      (probeReport settings probe (carriedTags (.ofTags requested) probe)).mapM around.shown =
        .ok shown ∧
      t = { scanned with output := scanned.output ++ linesText shown } := by
  have hrun := h
  unfold runProbe at h
  obtain ⟨settings, loaded, hload, h1⟩ := perform_bind_eq_ok.mp h
  obtain ⟨requested, _, hrequest, h2⟩ := perform_bind_eq_ok.mp h1
  obtain ⟨hrequested, rfl⟩ := perform_ofExcept_eq_ok.mp hrequest
  obtain ⟨probe, scanned, hscan, _⟩ := perform_bind_eq_ok.mp h2
  rw [perform_runProbe hload hrequested hscan] at hrun
  obtain ⟨hgiven, rfl⟩ := Prod.mk.inj hrun
  obtain ⟨shown, hshown, htext⟩ := showLines_eq_ok (fst_showLines_eq_ok hgiven)
  exact ⟨settings, _, requested, probe, scanned, shown, hload, hrequested, hscan, hshown,
    by rw [htext]⟩

/-! ### Losing the symbol tool -/

/-- The command that probes a directory has reported a probe, with the tags of some words as the
requested ones. The line that tells that the symbol tool is not there comes together with the
claimer among the tags just when an archive before the first without the tool carries the marker. -/
structure Reports (around : Surroundings) (s : Session) (directory : Path) (tags : List String)
    (settings : Settings) (requested : TagSet) (probe : Probe) (t : Session) : Prop where
  words : tagsOfWords tags = .ok requested
  finds : probe.FindsIn settings around s.files (archivesIn s.files directory)
  written : ∃ shown,
    (probeReport settings probe (carriedTags (.ofTags requested) probe)).mapM around.shown =
      .ok shown ∧ t.output = s.output ++ linesText shown
  unavailable_with_claimer_iff :
    (unavailableLine settings ∈
        probeReport settings probe (carriedTags (.ofTags requested) probe) ∧
      .claimer ∈ carriedTags (.ofTags requested) probe) ↔
    (∃ archive ∈ archivesIn s.files directory,
        listed settings around s.files archive = .notStarted .notFound) ∧
      ∃ archive ∈ reached settings around s.files (archivesIn s.files directory),
        carriesMarker settings around s.files archive = true

/-- A scan that gives a probe finds whether the symbol tool is there for all archives, and the
marker in those before the first that it is not there for; and the command that probes a directory
reports such a probe. So a tool that is lost on the way takes nothing back: the marker that was
found before is still present, and the claimer still carried. -/
theorem loss_of_tool_reported (directory : Path) (around : Surroundings) (s : Session) :
    (∀ settings probe t, perform (scan settings directory) around s = (.ok probe, t) →
      probe.FindsIn settings around s.files (archivesIn s.files directory)) ∧
    ∀ tags nm marker debug code t,
      perform (Command.probe directory tags nm marker debug).run around s = (.ok code, t) →
      ∃ settings loaded requested probe,
        perform (settingsWith [("nm_tool", nm.map .text), ("claimer_marker", marker.map .text),
          debugOverride debug]) around s = (.ok settings, loaded) ∧
        Reports around s directory tags settings requested probe t := by
  refine ⟨fun settings probe t h ↦ (findsIn_of_scan h).1, ?_⟩
  intro tags nm marker debug code t h
  obtain ⟨settings, loaded, requested, probe, scanned, shown, hload, hrequested, hscan, hshown,
    rfl⟩ := reported_of_runProbe h
  obtain ⟨hfinds, calls, console, rfl⟩ := findsIn_of_scan hscan
  have hloaded := (Settings.adopted_of_load hload).1
  have hfiles : loaded.files = s.files := by rw [hloaded]
  have houtput : loaded.output = s.output := by rw [hloaded]
  rw [hfiles] at hfinds
  refine ⟨settings, loaded, requested, probe, hload, hrequested, hfinds, ⟨shown, hshown, ?_⟩, ?_⟩
  · rw [← houtput]
  · rw [unavailableLine_mem_iff, hfinds.toolAvailable_eq_false_iff, hfinds.claimer_mem_iff]

/-- Surroundings in which the symbol tool is there for every archive but an empty one. -/
def losingSurroundings : Surroundings :=
  { sampleSurroundings with
    tools := { sampleSurroundings.tools with
      listSymbols := fun _ content ↦
        if content = some [] then .notStarted .notFound
        else .exited 0 (content.getD []) [] } }

/-- A session with two archives in a directory, the marker in the first and nothing in the
second. -/
def losingSession : Session :=
  sampleSession (((⟨.empty, []⟩ : Workspace).plant (.ofString "lib/1.a")
    (.file (Utf8.encode "mark"))).plant (.ofString "lib/2.a") (.file []))

/-- What a scan of the sample session finds. -/
def losingProbe : Probe := ⟨"mark", ["lib/1.a", "lib/2.a"], ["lib/1.a"], false, ["nm not found"]⟩

private theorem losing_scan :
    ∃ t, perform (scan sampleSettings (.ofString "lib")) losingSurroundings losingSession =
      (.ok losingProbe, t) := by
  apply exists_of_toOption
  simp only [scan, listArchives, archivesIn, Workspace.names, Tree.names_eq_insertionSort]
  decide +kernel

/-- A command that scans the sample session. -/
def losingCommand : Command := .probe (.ofString "lib") [] none (some "mark") false

private theorem losing_command :
    ∃ t, perform losingCommand.run losingSurroundings losingSession = (.ok 0, t) ∧
      t.output = "Archives scanned: 2\n  mark in lib/1.a\n" ++
        "  nm unavailable; claimer treated as absent\nInstrumentation: claimer\n" := by
  have hrun : ((perform losingCommand.run losingSurroundings losingSession).1.toOption,
      (perform losingCommand.run losingSurroundings losingSession).2.output) =
      (some 0, "Archives scanned: 2\n  mark in lib/1.a\n" ++
        "  nm unavailable; claimer treated as absent\nInstrumentation: claimer\n") := by
    simp only [losingCommand, Command.run, runProbe, scan, listArchives, archivesIn,
      Workspace.names, Tree.names_eq_insertionSort]
    decide +kernel
  obtain ⟨hgiven, houtput⟩ := Prod.mk.inj hrun
  obtain ⟨t, h⟩ := exists_of_toOption hgiven
  rw [h] at houtput
  exact ⟨t, h, houtput⟩

/-- The sample session is scanned, and the probe is reported. -/
theorem losing_loss_of_tool_reported :
    (∃ t, perform (scan sampleSettings (.ofString "lib")) losingSurroundings losingSession =
        (.ok losingProbe, t) ∧
      losingProbe.FindsIn sampleSettings losingSurroundings losingSession.files
        (archivesIn losingSession.files (.ofString "lib"))) ∧
    ∃ t, perform losingCommand.run losingSurroundings losingSession = (.ok 0, t) ∧
      ∃ settings requested probe, Reports losingSurroundings losingSession (.ofString "lib") []
        settings requested probe t := by
  obtain ⟨t, hscan⟩ := losing_scan
  obtain ⟨u, hcommand, _⟩ := losing_command
  obtain ⟨hfinds, hreported⟩ :=
    loss_of_tool_reported (.ofString "lib") losingSurroundings losingSession
  obtain ⟨settings, _, requested, probe, _, hreports⟩ := hreported _ _ _ _ _ _ hcommand
  exact ⟨⟨t, hscan, hfinds _ _ _ hscan⟩, u, hcommand, settings, requested, probe, hreports⟩

/-- A tool that is lost after the first archive is told to be unavailable, with the claimer treated
as absent, and yet the marker is present and the claimer named among the tags. -/
theorem losing_names_claimer :
    (∃ t, perform (scan sampleSettings (.ofString "lib")) losingSurroundings losingSession =
        (.ok losingProbe, t)) ∧
      losingProbe.toolAvailable = false ∧ losingProbe.claimerPresent = true ∧
      .claimer ∈ carriedTags .plain losingProbe ∧
      ∃ t, perform losingCommand.run losingSurroundings losingSession = (.ok 0, t) ∧
        t.output = "Archives scanned: 2\n  mark in lib/1.a\n" ++
          "  nm unavailable; claimer treated as absent\nInstrumentation: claimer\n" :=
  ⟨losing_scan, rfl, rfl, by decide, losing_command⟩

end Vendoring.CommandLine
