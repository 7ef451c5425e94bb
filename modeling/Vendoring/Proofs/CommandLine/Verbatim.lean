import Vendoring.Proofs.CommandLine.Probing
import Vendoring.Proofs.Text.Digits
import Vendoring.Proofs.Text.Parts

/-!
# Reports as they are meant

The command that probes a directory puts the marker, the paths of the archives and the name of the
symbol tool into the markup of its report as they are. So it writes the report as it is meant if the
console takes every such text that is reported as it stands; and it does not if one of them holds a
tag, which is left out or has the command end with an error.
-/

namespace Vendoring.CommandLine

open Vendoring.Text Vendoring.Files Vendoring.Tool Vendoring.Instrumentation Vendoring.Build
open Vendoring.Action

/-! ### The report that is meant -/

section Report

variable (settings : Settings) (around : Surroundings) (w : Workspace) (directory : Path)
  (requested : TagSet)

/-- The archives of a directory that are scanned. -/
def scannedArchives : List Path := scannedIn settings around w (archivesIn w directory)

/-- The scanned archives of a directory that carry the marker. -/
def markedArchives : List Path :=
  (scannedArchives settings around w directory).filter (carriesMarker settings around w)

/-- Whether the symbol tool is not there for an archive of a directory. -/
def missesTool : Bool := (missingAt? settings around w (archivesIn w directory)).isSome

/-- The tags in the end: the requested ones, with the claimer when an archive carries the marker and
only then. -/
def finalTags : List Tag := Tag.all.filter fun t ↦
  if t = .claimer then markedArchives settings around w directory ≠ [] else t ∈ requested

/-- The lines of the report: how many archives are scanned, each that carries the marker, whether
the symbol tool is not there, and the tags in the end. -/
def reportLines : List Markup.Line :=
  [.bare ("Archives scanned: " ++ toString (scannedArchives settings around w directory).length)] ++
    ((markedArchives settings around w directory).map (fun archive ↦
        .styled "  " .green settings.claimerMarker (" in " ++ archive.text)) ++
      ((if missesTool settings around w directory then
          [.styled "  " .yellow (settings.nmTool ++ " unavailable; claimer treated as absent") ""]
        else []) ++
        [.bare ("Instrumentation: " ++
          if (finalTags settings around w directory requested).isEmpty then "(none)"
          else ", ".intercalate ((finalTags settings around w directory requested).map Tag.name))]))

/-- The markup of the report, line by line. -/
def reportMarkup : List String :=
  (reportLines settings around w directory requested).map Markup.Line.markup

/-- The report as it is meant. -/
def reportText : String :=
  linesText ((reportLines settings around w directory requested).map Markup.Line.verbatim)

/-- The texts that are put into the markup of the report. -/
def splicedTexts : List String :=
  (markedArchives settings around w directory).flatMap
      (fun archive ↦ [settings.claimerMarker, archive.text]) ++
    if missesTool settings around w directory then [settings.nmTool] else []

end Report

section Report

variable {settings : Settings} {around : Surroundings} {w : Workspace} {directory : Path}
  {requested : TagSet} {probe : Probe}

/-- The tags in the end are those that are carried. -/
theorem tags_carriedTags
    (hmatched : probe.archivesMatched =
      (markedArchives settings around w directory).map Path.text) :
    (carriedTags (.ofTags requested) probe).tags =
      finalTags settings around w directory requested := by
  rw [(carriedTags (.ofTags requested) probe).canonical]
  refine List.filter_congr fun t _ ↦ ?_
  show decide (t ∈ carriedTags (.ofTags requested) probe) = _
  by_cases ht : t = .claimer
  · subst ht
    rw [if_pos rfl]
    simp [claimer_mem_carriedTags, Probe.claimerPresent, hmatched]
  · rw [if_neg ht]
    simp [mem_carriedTags_of_ne ht]

/-- The report of a probe that accounts for the archives of a directory is the report that is
meant, as markup. -/
theorem probeReport_eq
    (h : probe.AccountsFor settings around w (archivesIn w directory)) :
    probeReport settings probe (carriedTags (.ofTags requested) probe) =
      reportMarkup settings around w directory requested := by
  have hmatched : probe.archivesMatched =
      (markedArchives settings around w directory).map Path.text := h.matched
  have hscanned : probe.archivesScanned.length =
      (scannedArchives settings around w directory).length := by
    rw [h.scanned, List.length_map]
    rfl
  have havailable : probe.toolAvailable = !missesTool settings around w directory := by
    have hiff := h.available
    unfold missesTool
    cases hmissing : missingAt? settings around w (archivesIn w directory) with
    | none => simpa [hmissing] using hiff
    | some k => simpa [hmissing] using hiff
  have hgreen (path : String) : "  [green]" ++ settings.claimerMarker ++ "[/] in " ++ path =
      (Markup.Line.styled "  " .green settings.claimerMarker (" in " ++ path)).markup :=
    String.toList_injective (by simp [Markup.Line.markup, Markup.Style.green, String.toList_append])
  have hyellow : unavailableLine settings = (Markup.Line.styled "  " .yellow
      (settings.nmTool ++ " unavailable; claimer treated as absent") "").markup :=
    String.toList_injective (by
      simp [unavailableLine, Markup.Line.markup, Markup.Style.yellow, String.toList_append])
  have hnames : (carriedTags (.ofTags requested) probe).names =
      (finalTags settings around w directory requested).map Tag.name :=
    congrArg (List.map Tag.name) (tags_carriedTags hmatched)
  unfold probeReport reportMarkup reportLines instrumentationLine
  rw [hnames, hmatched, hscanned, havailable, h.marker, hyellow]
  cases missesTool settings around w directory with
  | true => simp [hgreen, Markup.Line.markup, Function.comp_def]
  | false => simp [hgreen, Markup.Line.markup, Function.comp_def]

private theorem isOrdinary_toString (number : Nat) : Markup.IsOrdinary (toString number) := by
  intro c hc
  cases hdigit : c.isDigit with
  | false => exact absurd hc (notMem_toString hdigit number)
  | true => exact Markup.isOrdinary_of_isDigit hdigit

private theorem isOrdinary_names (tags : List Tag) : Markup.IsOrdinary
    (if tags.isEmpty then "(none)" else ", ".intercalate (tags.map Tag.name)) := by
  have hseparator : Markup.IsOrdinary ", " := by decide
  have hname (t : Tag) : Markup.IsOrdinary t.name := by cases t <;> decide
  split
  · decide
  · intro c hc
    rw [String.toList_intercalate] at hc
    rcases mem_or_mem_of_mem_intercalate hc with hc | ⟨name, hmem, hc⟩
    · exact hseparator c hc
    · rw [List.map_map] at hmem
      obtain ⟨t, _, rfl⟩ := List.mem_map.mp hmem
      exact hname t c hc

/-- A text in a line of the report is taken as it stands, or is one of the texts that are put into
the report, with ordinary text around it. -/
theorem stands_or_spliced {l : Markup.Line} {text : String}
    (hl : l ∈ reportLines settings around w directory requested) (htext : text ∈ l.texts) :
    Markup.AsItStands text ∨ ∃ lead spliced rest, Markup.IsOrdinary lead ∧
      spliced ∈ splicedTexts settings around w directory ∧ Markup.IsOrdinary rest ∧
      text = lead ++ spliced ++ rest := by
  have hscanned : Markup.AsItStands "Archives scanned: " :=
    .of_count (by decide) (by decide) (by decide) (by decide)
  have htags : Markup.AsItStands "Instrumentation: " :=
    .of_count (by decide) (by decide) (by decide) (by decide)
  have hblank : Markup.AsItStands "  " := Markup.IsOrdinary.asItStands (by decide)
  have hempty : Markup.IsOrdinary "" := by decide
  unfold reportLines at hl
  simp only [List.mem_append, List.mem_singleton, List.mem_map] at hl
  rcases hl with rfl | ⟨archive, harchive, rfl⟩ | hmissing | rfl
  · rw [List.mem_singleton.mp htext]
    exact .inl (hscanned.append_ordinary (isOrdinary_toString _))
  · have hspliced {text : String} (h : text ∈ [settings.claimerMarker, archive.text]) :
        text ∈ splicedTexts settings around w directory :=
      List.mem_append_left _ (List.mem_flatMap.mpr ⟨archive, harchive, h⟩)
    simp only [Markup.Line.texts, List.mem_cons, List.not_mem_nil, or_false] at htext
    rcases htext with rfl | rfl | rfl
    · exact .inl hblank
    · exact .inr ⟨"", _, "", hempty, hspliced List.mem_cons_self, hempty, by simp⟩
    · refine .inr ⟨" in ", archive.text, "", by decide, hspliced ?_, hempty, by simp⟩
      exact List.mem_cons_of_mem _ List.mem_cons_self
  · split at hmissing
    · next hmissed =>
        rw [List.mem_singleton.mp hmissing] at htext
        simp only [Markup.Line.texts, List.mem_cons, List.not_mem_nil, or_false] at htext
        rcases htext with rfl | rfl | rfl
        · exact .inl hblank
        · refine .inr ⟨"", settings.nmTool, " unavailable; claimer treated as absent", hempty, ?_,
            by decide, by simp⟩
          refine List.mem_append_right _ ?_
          rw [if_pos hmissed]
          exact List.mem_cons_self
        · exact .inl hempty.asItStands
    · cases hmissing
  · rw [List.mem_singleton.mp htext]
    exact .inl (htags.append_ordinary (isOrdinary_names _))

/-- When no line of the report holds a tag in its texts, none of the texts that are put into it
does. -/
theorem not_holdsTag_of_isPlain
    (h : ∀ l ∈ reportLines settings around w directory requested, l.IsPlain) :
    ∀ text ∈ splicedTexts settings around w directory, ¬ Markup.HoldsTag text.toList := by
  unfold reportLines at h
  obtain ⟨hmarked, h⟩ := List.forall_mem_append.mp (List.forall_mem_append.mp h).2
  obtain ⟨hmissing, _⟩ := List.forall_mem_append.mp h
  intro text htext
  rcases List.mem_append.mp htext with htext | htext
  · obtain ⟨archive, harchive, htext⟩ := List.mem_flatMap.mp htext
    have hline := hmarked _ (List.mem_map_of_mem harchive)
    rcases List.mem_cons.mp htext with rfl | htext
    · exact hline _ (by simp [Markup.Line.texts])
    · rw [List.mem_singleton.mp htext]
      have hpath := hline (" in " ++ archive.text) (by simp [Markup.Line.texts])
      rwa [String.toList_append, Markup.holdsTag_append_of_notMem (by decide)] at hpath
  · split at htext
    · next hmissed =>
        rw [List.mem_singleton.mp htext]
        rw [if_pos hmissed] at hmissing
        have htool := hmissing _ List.mem_cons_self
          (settings.nmTool ++ " unavailable; claimer treated as absent")
          (by simp [Markup.Line.texts])
        rw [String.toList_append] at htool
        exact fun htag ↦ htool
          ((Markup.holdsTag_append_iff (Markup.seals_of_notMem (by decide))).mpr (.inl htag))
    · cases htext

end Report

/-! ### The report that is written -/

section Written

variable {directory : Path} {tags : List String} {nm marker : Option String} {debug : Bool}
  {around : Surroundings} {s loaded scanned : Session} {settings : Settings} {requested : TagSet}
  {probe : Probe}

/-- A command gives zero and writes a text. -/
def WritesText (around : Surroundings) (s : Session) (c : Command) (text : String) : Prop :=
  ∃ t, perform c.run around s = (.ok 0, t) ∧ t.output = s.output ++ text

/-- The command that probes a directory, where its settings load, its words name tags and the scan
gives a probe, writes the lines of the report as far as the console shows them. -/
theorem perform_probe
    (hload : perform (settingsWith [("nm_tool", nm.map .text), ("claimer_marker", marker.map .text),
      debugOverride debug]) around s = (.ok settings, loaded))
    (htags : tagsOfWords tags = .ok requested)
    (hscan : perform (scan settings directory) around loaded = (.ok probe, scanned)) :
    perform (Command.probe directory tags nm marker debug).run around s =
      (let written := showLines around.shown
        (reportMarkup settings around s.files directory requested)
      (written.1.map fun _ ↦ 0, { scanned with output := s.output ++ written.2 })) := by
  have hloaded := (Settings.adopted_of_load hload).1
  have hfiles : loaded.files = s.files := by rw [hloaded]
  have haccounts := accountsFor_of_scan hscan
  rw [hfiles] at haccounts
  obtain ⟨_, _, _, rfl⟩ := findsIn_of_scan hscan
  show perform (runProbe directory tags nm marker debug) around s = _
  rw [perform_runProbe hload htags hscan, probeReport_eq haccounts, hloaded]

/-- The command that probes a directory, where its settings load, its words name tags and the scan
gives a probe, writes the lines of the report as the console shows them, and ends with an error at
the first whose markup is refused, or else with zero. It writes the report as it is meant and gives
zero if the texts that are put into the report are all taken as they stand; but if one of them holds
a tag and there is no line break in them, it does not. -/
theorem writes_report (laws : Markup.ShowsLines around.shown)
    (hload : perform (settingsWith [("nm_tool", nm.map .text), ("claimer_marker", marker.map .text),
      debugOverride debug]) around s = (.ok settings, loaded))
    (htags : tagsOfWords tags = .ok requested)
    (hscan : perform (scan settings directory) around loaded = (.ok probe, scanned)) :
    perform (Command.probe directory tags nm marker debug).run around s =
      (let written := showLines around.shown
        (reportMarkup settings around s.files directory requested)
      (written.1.map fun _ ↦ 0, { scanned with output := s.output ++ written.2 })) ∧
    ((∀ text ∈ splicedTexts settings around s.files directory, Markup.AsItStands text) →
      WritesText around s (.probe directory tags nm marker debug)
        (reportText settings around s.files directory requested)) ∧
    ((∃ text ∈ splicedTexts settings around s.files directory, Markup.HoldsTag text.toList) →
      (∀ text ∈ splicedTexts settings around s.files directory, '\n' ∉ text.toList) →
      ¬ WritesText around s (.probe directory tags nm marker debug)
        (reportText settings around s.files directory requested)) := by
  have hrun := perform_probe hload htags hscan
  refine ⟨hrun, fun hstands ↦ ?_, fun ⟨text, htext, htag⟩ hunbroken hwrites ↦ ?_⟩
  · have hshown : showLines around.shown
        (reportMarkup settings around s.files directory requested) =
          (.ok (), reportText settings around s.files directory requested) := by
      refine showLines_eq_verbatim laws fun l hl text htext ↦ ?_
      obtain h | ⟨lead, spliced, rest, hlead, hmem, hrest, rfl⟩ := stands_or_spliced hl htext
      · exact h
      · exact ((hstands spliced hmem).ordinary_append hlead).append_ordinary hrest
    unfold WritesText
    rw [hrun, hshown]
    exact ⟨_, rfl, rfl⟩
  · obtain ⟨t, hgiven, houtput⟩ := hwrites
    rw [hrun] at hgiven
    obtain ⟨hcode, rfl⟩ := Prod.mk.inj hgiven
    have hshown : showLines around.shown
        (reportMarkup settings around s.files directory requested) =
          (.ok (), reportText settings around s.files directory requested) :=
      Prod.ext (fst_showLines_eq_ok hcode) ((String.append_right_inj _).mp houtput)
    have hbreaks : ∀ l ∈ reportLines settings around s.files directory requested,
        ∀ text ∈ l.texts, '\n' ∉ text.toList := by
      intro l hl text htext
      obtain h | ⟨lead, spliced, rest, hlead, hmem, hrest, rfl⟩ := stands_or_spliced hl htext
      · exact h.lineBreak_notMem
      · rw [String.toList_append, String.toList_append, List.mem_append, List.mem_append]
        exact not_or.mpr ⟨not_or.mpr ⟨hlead.notMem (by decide), hunbroken spliced hmem⟩,
          hrest.notMem (by decide)⟩
    exact not_holdsTag_of_isPlain (isPlain_of_showLines_eq laws hbreaks hshown) text htext htag

end Written

/-- A session with an archive that carries the marker, whose name is given. -/
def archiveSession (name : String) : Session :=
  sampleSession ((⟨.empty, []⟩ : Workspace).plant (.ofString ("lib/" ++ name))
    (.file (Utf8.encode "mark")))

/-- Load settings with a marker of one's own. -/
def loadMarker : Action Settings :=
  settingsWith [("nm_tool", none), ("claimer_marker", some (.text "mark")), debugOverride false]

/-- The settings that are loaded then. -/
def markerSettings : Settings := { sampleSettings with archiveSubdirs := ["crypto", "ssl"] }

/-- A command that looks for that marker. -/
def archiveCommand (tags : List String) : Command :=
  .probe (.ofString "lib") tags none (some "mark") false

/-- What a scan finds that finds the marker in an archive. -/
def archiveProbe (name : String) : Probe := ⟨"mark", ["lib/" ++ name], ["lib/" ++ name], true, []⟩

private theorem archive_scanned {name : String} (h : name = "a[0].a" ∨ name = "a[x].a") :
    ∃ loaded scanned,
      perform loadMarker sampleSurroundings (archiveSession name) = (.ok markerSettings, loaded) ∧
      perform (scan markerSettings (.ofString "lib")) sampleSurroundings loaded =
        (.ok (archiveProbe name), scanned) := by
  have hrun : (perform (do
      let settings ← loadMarker
      let probe ← scan settings (.ofString "lib")
      return (settings, probe)) sampleSurroundings (archiveSession name)).1.toOption =
        some (markerSettings, archiveProbe name) := by
    simp only [scan, listArchives, archivesIn, Workspace.names, Tree.names_eq_insertionSort]
    rcases h with rfl | rfl
    · decide +kernel
    · decide +kernel
  obtain ⟨_, hgiven⟩ := exists_of_toOption hrun
  obtain ⟨settings, loaded, hload, hrest⟩ := perform_bind_eq_ok.mp hgiven
  obtain ⟨probe, scanned, hscan, hpair⟩ := perform_bind_eq_ok.mp hrest
  cases hpair
  exact ⟨loaded, _, hload, hscan⟩

/-- The report on an archive whose name has brackets that make no tag is written as it is meant, on
a console that knows nothing but tags. -/
theorem archive_writes_report :
    Markup.ShowsLines sampleSurroundings.shown ∧
    ∃ loaded scanned,
      perform loadMarker sampleSurroundings (archiveSession "a[0].a") =
        (.ok markerSettings, loaded) ∧
      tagsOfWords ["asan"] = .ok (.ofList [.asan]) ∧
      perform (scan markerSettings (.ofString "lib")) sampleSurroundings loaded =
        (.ok (archiveProbe "a[0].a"), scanned) ∧
      WritesText sampleSurroundings (archiveSession "a[0].a") (archiveCommand ["asan"])
        ("Archives scanned: 1\n  mark in lib/a[0].a\n" ++
          "Instrumentation: asan, claimer\n") := by
  have laws : Markup.ShowsLines sampleSurroundings.shown := Markup.showsLines_render
  obtain ⟨loaded, scanned, hload, hscan⟩ := archive_scanned (.inl rfl)
  have htags : tagsOfWords ["asan"] = .ok (.ofList [.asan]) := by decide
  have hspliced : splicedTexts markerSettings sampleSurroundings
      (archiveSession "a[0].a").files (.ofString "lib") = ["mark", "lib/a[0].a"] := by
    simp only [splicedTexts, missesTool, markedArchives, scannedArchives, archivesIn,
      Workspace.names, Tree.names_eq_insertionSort]
    decide +kernel
  have hstands : ∀ text ∈ ["mark", "lib/a[0].a"], Markup.AsItStands text := by
    rw [List.forall_mem_cons, List.forall_mem_singleton]
    constructor
    · exact .of_count (by decide) (by decide) (by decide) (by decide)
    · exact .of_count (by decide) (by decide) (by decide) (by decide)
  have htext : reportText markerSettings sampleSurroundings (archiveSession "a[0].a").files
      (.ofString "lib") (.ofList [.asan]) =
        "Archives scanned: 1\n  mark in lib/a[0].a\n" ++ "Instrumentation: asan, claimer\n" := by
    simp only [reportText, reportLines, finalTags, missesTool, markedArchives, scannedArchives,
      archivesIn, Workspace.names, Tree.names_eq_insertionSort]
    decide +kernel
  obtain ⟨_, hwrites, _⟩ := @writes_report (.ofString "lib") ["asan"] none (some "mark") false
    _ _ _ _ _ _ _ laws hload htags hscan
  rw [hspliced, htext] at hwrites
  exact ⟨laws, loaded, scanned, hload, htags, hscan, hwrites hstands⟩

/-- The report on an archive whose name has a tag is written without it. -/
theorem archive_loses_tag :
    ∃ loaded scanned,
      perform loadMarker sampleSurroundings (archiveSession "a[x].a") =
        (.ok markerSettings, loaded) ∧
      perform (scan markerSettings (.ofString "lib")) sampleSurroundings loaded =
        (.ok (archiveProbe "a[x].a"), scanned) ∧
      (∃ t, perform (archiveCommand []).run sampleSurroundings (archiveSession "a[x].a") =
          (.ok 0, t) ∧
        t.output = "Archives scanned: 1\n  mark in lib/a.a\nInstrumentation: claimer\n") ∧
      reportText markerSettings sampleSurroundings (archiveSession "a[x].a").files
          (.ofString "lib") .empty =
        "Archives scanned: 1\n  mark in lib/a[x].a\nInstrumentation: claimer\n" := by
  obtain ⟨loaded, scanned, hload, hscan⟩ := archive_scanned (.inr rfl)
  refine ⟨loaded, scanned, hload, hscan, ?_, ?_⟩
  · have hrun : ((perform (archiveCommand []).run sampleSurroundings
          (archiveSession "a[x].a")).1.toOption,
        (perform (archiveCommand []).run sampleSurroundings (archiveSession "a[x].a")).2.output) =
        (some 0, "Archives scanned: 1\n  mark in lib/a.a\nInstrumentation: claimer\n") := by
      simp only [archiveCommand, Command.run, runProbe, scan, listArchives, archivesIn,
        Workspace.names, Tree.names_eq_insertionSort]
      decide +kernel
    obtain ⟨hgiven, houtput⟩ := Prod.mk.inj hrun
    obtain ⟨t, h⟩ := exists_of_toOption hgiven
    rw [h] at houtput
    exact ⟨t, h, houtput⟩
  · simp only [reportText, reportLines, finalTags, missesTool, markedArchives, scannedArchives,
      archivesIn, Workspace.names, Tree.names_eq_insertionSort]
    decide +kernel

end Vendoring.CommandLine
