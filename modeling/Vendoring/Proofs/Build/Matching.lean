import Vendoring.Proofs.Build.Probing
import Vendoring.Proofs.Build.Runs
import Vendoring.Proofs.Text.Substrings

/-!
# Markers in listings

A scan looks for the bytes of the marker in the bytes that the symbol tool wrote. Where these are a
text, that is to look for the marker in the text; where they are not, it finds the marker in every
part of them that is. Neither makes a scan fail or has it tell of an error.
-/

namespace Vendoring.Build

open Vendoring.Text Vendoring.Files Vendoring.Tool
open Vendoring.Action

section Account

variable (settings : Settings) (around : Surroundings) (w : Workspace)

/-- A listing that exits with zero has the marker carried when its output holds the marker's
bytes. -/
theorem carriesMarker_iff_of_exited {archive : Path} {output errors : List UInt8}
    (h : listed settings around w archive = .exited 0 output errors) :
    carriesMarker settings around w archive = true ↔
      Utf8.encode settings.claimerMarker <:+: output := by
  rw [carriesMarker_iff]
  constructor
  · rintro ⟨_, _, hlisted, hmarker⟩
    rw [h] at hlisted
    cases hlisted
    exact hmarker
  · exact fun hmarker ↦ ⟨output, errors, h, hmarker⟩

/-- What a scan tells of the archives that could not be listed says nothing of one that could. -/
theorem faultNotes_filter_ne {archive : Path} (h : faultOf? settings around w archive = none)
    (archives : List Path) :
    faultNotes settings around w (archives.filter (· ≠ archive)) =
      faultNotes settings around w archives := by
  induction archives with
  | nil => rfl
  | cons other rest ih =>
      by_cases heq : other = archive
      · subst heq
        rw [List.filter_cons_of_neg (by simp), faultNotes_cons, h, ih]
        rfl
      · rw [List.filter_cons_of_pos (by simpa using heq), faultNotes_cons, faultNotes_cons, ih]

end Account

/-- What a probe tells of an archive whose listing exited with zero: it is matched just when the
marker stands in the text that its output is, and at any rate when the output holds, among whatever
bytes, those of a text that the marker stands in. -/
structure Probe.Reads (probe : Probe) (marker : String) (archive : Path) (output : List UInt8) :
    Prop where
  matched_iff : ∀ text, Utf8.decode output = .ok text →
    (archive.text ∈ probe.archivesMatched ↔ marker.toList <:+: text.toList)
  matched_of_part : ∀ before text after, output = before ++ Utf8.encode text ++ after →
    marker.toList <:+: text.toList → archive.text ∈ probe.archivesMatched

/-- A probe that matches an archive just when its output holds the marker's bytes tells where the
marker stands in texts. -/
theorem Probe.reads_of_matched_iff {probe : Probe} {marker : String} {archive : Path}
    {output : List UInt8}
    (h : archive.text ∈ probe.archivesMatched ↔ Utf8.encode marker <:+: output) :
    probe.Reads marker archive output where
  matched_iff := by
    intro text htext
    rw [h, ← Utf8.decode_eq_ok_iff.mp htext, Utf8.encode_infix_iff]
  matched_of_part := by
    rintro before text after rfl hmarker
    exact h.mpr (Utf8.encode_infix_around hmarker before after)

variable (settings : Settings) (around : Surroundings) (s : Session) (directory archive : Path)

/-- An archive that is told among others is told by its own text. -/
theorem text_mem_map_filter_iff {archives : List Path} (hdistinct : (archives.map Path.text).Nodup)
    (harchive : archive ∈ archives) (p : Path → Bool) :
    archive.text ∈ (archives.filter p).map Path.text ↔ p archive = true := by
  constructor
  · intro h
    obtain ⟨other, hother, htext⟩ := List.mem_map.mp h
    obtain ⟨hmem, hp⟩ := List.mem_filter.mp hother
    rwa [List.inj_on_of_nodup_map hdistinct hmem harchive htext] at hp
  · exact fun hp ↦ List.mem_map_of_mem (List.mem_filter.mpr ⟨harchive, hp⟩)

/-- The search for the marker in the bytes of a listing that exited with zero is a search in text:
an archive is matched just when the marker stands in the listing, if that can be decoded, and
whenever the listing holds, among whatever bytes, a text that the marker stands in. The archive has
no part in the errors that are told. The scan is left without a probe only by the run of another
archive, which cannot be tried or waited for, or by a directory whose path is refused, in which
nothing is listed at all. -/
theorem scan_reads_listing (output errors : List UInt8)
    (hscanned : archive ∈ scannedIn settings around s.files (archivesIn s.files directory))
    (hlisted : listed settings around s.files archive = .exited 0 output errors) :
    (∃ probe t, perform (scan settings directory) around s = (.ok probe, t) ∧
      probe.Reads settings.claimerMarker archive output ∧
      probe.errors = faultNotes settings around s.files
        ((scannedIn settings around s.files (archivesIn s.files directory)).filter
          (· ≠ archive))) ∨
    (∃ other ∈ scannedIn settings around s.files (archivesIn s.files directory), other ≠ archive ∧
      ∃ e t, stopOf? settings around s.files other = some e ∧
        perform (scan settings directory) around s = (.error e, t)) ∨
    (s.files.refuses directory = true ∧
      perform (scan settings directory) around s =
        (.error (.file (.system .nameTooLong directory.text)), s)) := by
  have hdistinct := (nodup_text_archivesIn s.files directory).sublist
    ((scannedIn_sublist settings around s.files (archivesIn s.files directory)).map Path.text)
  cases hrefuses : s.files.refuses directory with
  | true => exact .inr (.inr ⟨rfl, perform_scan_of_refuses hrefuses⟩)
  | false =>
  rw [perform_scan hrefuses]
  generalize archivesIn s.files directory = archives at hscanned hdistinct ⊢
  by_cases hgoes : ∀ other ∈ scannedIn settings around s.files archives,
      stopOf? settings around s.files other = none
  · left
    obtain ⟨console, hgiven⟩ :=
      perform_scanFrom (p := .start settings.claimerMarker) archives rfl hgoes
    refine ⟨_, _, hgiven, ?_, ?_⟩
    · apply Probe.reads_of_matched_iff
      rw [foldl_tell, ← carriesMarker_iff_of_exited settings around s.files hlisted]
      exact text_mem_map_filter_iff archive hdistinct hscanned _
    · have hnone : faultOf? settings around s.files archive = none := by
        unfold faultOf?
        rw [hlisted]
        rfl
      rw [foldl_tell, faultNotes_filter_ne settings around s.files hnone]
      rfl
  · right
    left
    push Not at hgoes
    obtain ⟨before, other, after, e, _, rfl, hbefore, hstops, hstopped⟩ :=
      perform_scanFrom_of_mem_stop (p := .start settings.claimerMarker) archives rfl hgoes
    have hother : other ∈ scannedIn settings around s.files (before ++ other :: after) :=
      mem_scannedIn_append_cons fun first hfirst ↦ (hbefore first hfirst).2
    refine ⟨other, hother, ?_, e, _, hstops, hstopped⟩
    rintro rfl
    rw [stopOf?, hlisted] at hstops
    cases hstops

/-- Bytes that are no text, with a text between them. -/
def garbledListing : List UInt8 := [0xC3, 0xFF] ++ Utf8.encode "0 T été€_v2\n" ++ [0xE2, 0x82]

/-- Settings with a marker of characters of two and of three bytes. -/
def accentedSettings : Settings := { sampleSettings with claimerMarker := "é€" }

/-- A session with one archive, whose listing is garbled. -/
def garbledSession : Session :=
  sampleSession ((⟨.empty, []⟩ : Workspace).plant (.ofString "lib/1.a") (.file garbledListing))

/-- The garbled listing is no text, but it has its archive matched, and no error told. -/
theorem garbled_scan_reads_listing :
    .ofString "lib/1.a" ∈ scannedIn accentedSettings sampleSurroundings garbledSession.files
        (archivesIn garbledSession.files (.ofString "lib")) ∧
      listed accentedSettings sampleSurroundings garbledSession.files (.ofString "lib/1.a") =
        .exited 0 garbledListing [] ∧
      (∀ text, Utf8.decode garbledListing ≠ .ok text) ∧
      ∃ probe t, perform (scan accentedSettings (.ofString "lib")) sampleSurroundings
          garbledSession = (.ok probe, t) ∧
        (Path.ofString "lib/1.a").text ∈ probe.archivesMatched ∧ probe.errors = [] := by
  have hall : scannedIn accentedSettings sampleSurroundings garbledSession.files
      (archivesIn garbledSession.files (.ofString "lib")) = [.ofString "lib/1.a"] := by
    simp only [archivesIn, Workspace.names, Tree.names_eq_insertionSort]
    decide +kernel
  have hlisted : listed accentedSettings sampleSurroundings garbledSession.files
      (.ofString "lib/1.a") = .exited 0 garbledListing [] := by
    decide +kernel
  have hgarbled : (Utf8.decode garbledListing).toOption = none := by decide +kernel
  have hmarker : "é€".toList <:+: "0 T été€_v2\n".toList := by decide +kernel
  have hscanned := List.mem_singleton_self (Path.ofString "lib/1.a")
  rw [← hall] at hscanned
  refine ⟨hscanned, hlisted, ?_, ?_⟩
  · intro text htext
    rw [htext] at hgarbled
    cases hgarbled
  · obtain ⟨probe, t, hgiven, hreads, herrors⟩ | ⟨other, hother, hne, _⟩ | ⟨hrefuses, _⟩ :=
      scan_reads_listing accentedSettings sampleSurroundings garbledSession (.ofString "lib")
        (.ofString "lib/1.a") garbledListing [] hscanned hlisted
    · rw [hall] at herrors
      exact ⟨probe, t, hgiven, hreads.matched_of_part [0xC3, 0xFF] _ [0xE2, 0x82] rfl hmarker,
        herrors⟩
    · rw [hall, List.mem_singleton] at hother
      exact absurd hother hne
    · have hgoes : garbledSession.files.refuses (.ofString "lib") = false := by decide +kernel
      cases hgoes.symm.trans hrefuses

end Vendoring.Build
