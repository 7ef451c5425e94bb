import Mathlib.Data.List.Forall2
import Vendoring.Proofs.Build.Runs
import Vendoring.Proofs.Files.Repeating
import Vendoring.Proofs.Provenance.Storage

/-!
# Writing records

The text that is written for a record has one line for each key and no control character but the
line feeds that end these lines, so reading it as text changes nothing in it. Writing a record
touches no other file, and writing it once more leaves the files as they are.
-/

namespace Vendoring.Provenance

open Vendoring.Text Vendoring.Files
open Vendoring.Action

namespace Record

/-- The keys of a record's document, in order. -/
def keys : List String :=
  ["libname", "version", "instrumentation", "known_vulnerabilities", "fixed_vulnerabilities"]

/-- The document of a record is its lines, each ended by a line feed. -/
theorem toList_render_eq_lines (r : Record) :
    r.render.toList = r.lines.flatMap fun line ↦ line.toList ++ ['\n'] := by
  rw [toList_render]
  simp [lines, assignments, textAssignment, arrayAssignment, Toml.Assignment.line]

/-- A line of a document gives the value of a key, without a control character. -/
def IsLineOf (key line : String) : Prop :=
  ∃ value, line = key ++ " = " ++ value ∧ ∀ c ∈ line.toList, IsPrinted c

private theorem isLineOf_append {key value : String} (hkey : key ∈ keys)
    (hvalue : ∀ c ∈ value.toList, IsPrinted c) : IsLineOf key (key ++ " = " ++ value) := by
  have hstart : ∀ key ∈ keys, (key ++ " = ").toList.all (fun c ↦ decide (IsPrinted c)) = true := by
    decide
  refine ⟨value, rfl, ?_⟩
  intro c hc
  rw [String.toList_append] at hc
  rcases List.mem_append.mp hc with hc | hc
  · exact isPrinted_of_all (hstart key hkey) hc
  · exact hvalue c hc

/-- The lines of a document are those of its keys. -/
theorem forall₂_isLineOf_lines (r : Record) : List.Forall₂ IsLineOf keys r.lines := by
  have htext (s : String) : ∀ c ∈ (basicString s).toList, IsPrinted c :=
    fun _ ↦ isPrinted_of_mem_basicString
  have hlist (items : List String) : ∀ c ∈ (stringArray items).toList, IsPrinted c :=
    fun _ ↦ isPrinted_of_mem_stringArray
  refine .cons ?_ (.cons ?_ (.cons ?_ (.cons ?_ (.cons ?_ .nil))))
  · exact isLineOf_append (by decide) (htext r.libname)
  · exact isLineOf_append (by decide) (htext r.version)
  · exact isLineOf_append (by decide) (hlist r.instrumentation.names)
  · exact isLineOf_append (by decide) (hlist r.knownVulnerabilities)
  · exact isLineOf_append (by decide) (hlist r.fixedVulnerabilities)

private theorem count_newline_flatMap {keys lines : List String}
    (h : List.Forall₂ IsLineOf keys lines) :
    (lines.flatMap fun line ↦ line.toList ++ ['\n']).count '\n' = lines.length := by
  induction h with
  | nil => rfl
  | @cons _ line _ lines hline _ ih =>
      obtain ⟨_, _, hprinted⟩ := hline
      have hnone : line.toList.count '\n' = 0 := by
        apply List.count_eq_zero.mpr
        intro hmem
        exact absurd (hprinted _ hmem) (by decide)
      rw [List.flatMap_cons, List.count_append, List.count_append, hnone, ih]
      simp [Nat.add_comm]

/-- A document holds as many line feeds as it has lines. -/
theorem count_newline_render (r : Record) : r.render.toList.count '\n' = 5 := by
  rw [toList_render_eq_lines, count_newline_flatMap r.forall₂_isLineOf_lines]
  rfl

end Record

variable {settings : Settings} {directory path : Path} {r : Record} {around : Surroundings}
  {s s' : Session}

/-- A record is written in three steps: the directory is made, the document is put where its path
leads, and a line is shown. System calls take both paths. -/
theorem writeRecord_eq_ok_iff :
    perform (writeRecord settings directory r) around s = (.ok path, s') ↔
      Failure.ofPath? directory = none ∧ Failure.ofPath? path = none ∧
      path = directory.below settings.metadataFilename ∧
      ∃ v files shown, Attempt.perform (Workspace.makeDirectories directory) s.files =
          (.ok (), v) ∧
        Attempt.perform (Workspace.writeFile path (Utf8.encode r.render)) v = (.ok (), files) ∧
        Markup.render ("  [dim]Vendor metadata written: " ++ path.text ++ "[/]") = .ok shown ∧
        s' = { s with files, console := s.console ++ splitLines shown } := by
  constructor
  · intro h
    obtain ⟨_, s₁, hfirst, hrest⟩ := perform_bind_eq_ok.mp h
    obtain ⟨_, s₂, hsecond, hlast⟩ := perform_bind_eq_ok.mp hrest
    obtain ⟨_, s₃, hsaid, hdone⟩ := perform_bind_eq_ok.mp hlast
    obtain ⟨htaken, v, hmade, rfl⟩ := perform_makeDirectories_eq_ok.mp hfirst
    obtain ⟨htaken', files, hwritten, rfl⟩ := perform_writeText_eq_ok.mp hsecond
    cases hdone
    rw [perform_say] at hsaid
    split at hsaid
    · next shown hshown =>
        cases hsaid
        exact ⟨htaken, htaken', rfl, v, files, shown, hmade, hwritten, hshown, rfl⟩
    · cases hsaid
  · rintro ⟨htaken, htaken', rfl, v, files, shown, hmade, hwritten, hshown, rfl⟩
    unfold writeRecord
    refine perform_bind_eq_ok.mpr
      ⟨(), _, perform_makeDirectories_eq_ok.mpr ⟨htaken, v, hmade, rfl⟩, ?_⟩
    refine perform_bind_eq_ok.mpr
      ⟨(), _, perform_writeText_eq_ok.mpr ⟨htaken', files, hwritten, rfl⟩, ?_⟩
    rw [perform_bind, perform_say, hshown]
    rfl

/-- Writing a record changes one file, the one that its path leads to. -/
theorem files_writeRecord
    (h : perform (writeRecord settings directory r) around s = (.ok path, s')) :
    ∃ l, s'.files.resolve path = .ok l ∧
      s'.files.tree.find? l = some (.file (Utf8.encode r.render)) ∧
      ∀ m, m ≠ l → ∀ bytes, s'.files.tree.find? m = some (.file bytes) ↔
        s.files.tree.find? m = some (.file bytes) := by
  obtain ⟨_, _, _, v, files, _, hmade, hwritten, _, rfl⟩ := writeRecord_eq_ok_iff.mp h
  obtain ⟨l, hlead, hfree, hput⟩ := Workspace.writeFile_eq_ok_iff.mp hwritten
  have hway := Workspace.MakesWay.makeDirectories directory s.files
  rw [hmade] at hway
  dsimp only
  rw [hput]
  refine ⟨l, (Workspace.KeepsDirectories.put _ hfree).resolve hlead, ?_, ?_⟩
  · exact Tree.find?_put_self v.tree (Workspace.ne_nil_of_find?_ne hfree) _
  · intro m hm bytes
    dsimp only
    rw [Tree.find?_put_of_ne v.tree hm]
    rcases hway.place m with hsame | ⟨hnone, hdirectory, _⟩
    · rw [hsame]
    · rw [hnone, hdirectory]
      exact ⟨nofun, nofun⟩

/-- A record that was written is written again without a difference to the files. -/
theorem perform_writeRecord_again
    (h : perform (writeRecord settings directory r) around s = (.ok path, s')) :
    ∃ console, perform (writeRecord settings directory r) around s' =
      (.ok path, { s' with console }) := by
  obtain ⟨htaken, htaken', hpath, v, files, shown, hmade, hwritten, hshown, rfl⟩ :=
    writeRecord_eq_ok_iff.mp h
  have hkeeps : Workspace.KeepsDirectories v files := by
    obtain ⟨l, _, hfree, rfl⟩ := Workspace.writeFile_eq_ok_iff.mp hwritten
    exact .put _ hfree
  have hthere := hkeeps.isDirectory (Workspace.isDirectory_of_makeDirectories hmade)
  exact ⟨_, writeRecord_eq_ok_iff.mpr ⟨htaken, htaken', hpath, files, files, shown,
    Workspace.perform_makeDirectories_of_isDirectory hthere,
    Workspace.perform_writeFile_again hwritten, hshown, rfl⟩⟩

/-- A record that was written stands in the file of the path given, and no other file has changed.
The text written is a line for each key of the record, with a line feed at its end and no other
control character, so five line feeds in all. Reading it with its line endings unified gives the
text itself, and loading it the record. To write the record once more leaves the files as they
are. -/
theorem writeRecord_survives (settings : Settings) (directory path : Path) (r : Record)
    (around : Surroundings) (s s' : Session)
    (h : perform (writeRecord settings directory r) around s = (.ok path, s')) :
    (∃ l, s'.files.resolve path = .ok l ∧
      s'.files.tree.find? l = some (.file (Utf8.encode r.render)) ∧
      ∀ m, m ≠ l → ∀ bytes, s'.files.tree.find? m = some (.file bytes) ↔
        s.files.tree.find? m = some (.file bytes)) ∧
    r.render.toList = r.lines.flatMap (fun line ↦ line.toList ++ ['\n']) ∧
    List.Forall₂ Record.IsLineOf
      ["libname", "version", "instrumentation", "known_vulnerabilities", "fixed_vulnerabilities"]
      r.lines ∧
    r.render.toList.count '\n' = 5 ∧
    (∀ c ∈ r.render.toList, c = '\n' ∨ (0x20 ≤ c.toNat ∧ c.toNat ≠ 0x7F)) ∧
    unifyNewlines r.render.toList = r.render.toList ∧
    perform (readText path) around s' = (.ok r.render, s') ∧
    perform (loadRecord path) around s' = (.ok r, s') ∧
    ∃ console, perform (writeRecord settings directory r) around s' =
      (.ok path, { s' with console }) := by
  obtain ⟨_, htaken, hcontent⟩ := content?_writeRecord h
  exact ⟨files_writeRecord h, r.toList_render_eq_lines, r.forall₂_isLineOf_lines,
    r.count_newline_render, fun _ ↦ Record.isPrinted_of_mem_render,
    unifyNewlines_eq_self r.return_notMem_render,
    perform_readText htaken hcontent r.return_notMem_render,
    perform_loadRecord htaken hcontent,
    perform_writeRecord_again h⟩

/-- A record of texts with quotes, line endings and other control characters. -/
def sampleRecord : Record :=
  ⟨"a\"b\\", "1\r\n2", .ofList [.claimer, .sancov], ["\x00,\r"], ["\x7F\t", ""]⟩

/-- A record whose texts hold control characters is written and loaded again. -/
theorem writeRecord_sample_survives : ∃ s',
    perform (writeRecord Build.sampleSettings (.ofString "out/lib") sampleRecord)
      Build.sampleSurroundings (Build.sampleSession ⟨.empty, []⟩) =
        (.ok (.ofString "out/lib/vendor.toml"), s') ∧
    perform (loadRecord (.ofString "out/lib/vendor.toml")) Build.sampleSurroundings s' =
      (.ok sampleRecord, s') := by
  have hgiven : (perform (writeRecord Build.sampleSettings (.ofString "out/lib") sampleRecord)
      Build.sampleSurroundings (Build.sampleSession ⟨.empty, []⟩)).1.toOption =
        some (.ofString "out/lib/vendor.toml") := by
    decide +kernel
  rcases hrun : perform (writeRecord Build.sampleSettings (.ofString "out/lib") sampleRecord)
    Build.sampleSurroundings (Build.sampleSession ⟨.empty, []⟩) with ⟨e | path, s'⟩
  · rw [hrun] at hgiven
    cases hgiven
  · rw [hrun] at hgiven
    obtain rfl := Option.some.inj hgiven
    obtain ⟨_, _, _, _, _, _, _, hload, _⟩ := writeRecord_survives _ _ _ _ _ _ _ hrun
    exact ⟨s', rfl, hload⟩

end Vendoring.Provenance
