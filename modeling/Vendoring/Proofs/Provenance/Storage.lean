import Vendoring.Proofs.Files.Frames
import Vendoring.Proofs.Provenance.RoundTrip
import Vendoring.Proofs.Session.Frames
import Vendoring.Provenance.Storage

/-!
# Records survive in files

A record that was written stands under its name in the directory, and loading the file that holds a
record's document gives the record back and leaves the session as it is.
-/

namespace Vendoring.Provenance

open Vendoring.Text Vendoring.Files
open Vendoring.Action

variable {around : Surroundings} {s t : Session}

/-- A text that was written to a file is the file's content. -/
theorem content?_writeText {p : Path} {text : String}
    (h : perform (writeText p text) around s = (.ok (), t)) :
    t.files.content? p = some (Utf8.encode text) := by
  obtain ⟨_, files, hwritten, rfl⟩ := perform_writeText_eq_ok.mp h
  exact Workspace.content?_writeFile hwritten

/-- A record that was written stands in the directory under the name that the settings give, at a
path that is not refused. -/
theorem content?_writeRecord {settings : Settings} {directory path : Path} {r : Record}
    (h : perform (writeRecord settings directory r) around s = (.ok path, t)) :
    path = directory.below settings.metadataFilename ∧ Failure.ofPath? path = none ∧
      t.files.content? path = some (Utf8.encode r.render) := by
  obtain ⟨_, s₁, hmade, h⟩ := perform_bind_eq_ok.mp h
  obtain ⟨_, s₂, hwritten, h⟩ := perform_bind_eq_ok.mp h
  obtain ⟨_, s₃, hsaid, h⟩ := perform_bind_eq_ok.mp h
  rw [perform_pure] at h
  cases h
  have hfiles : t.files = s₂.files := (Within.say (F := .sameFiles) _).holds hsaid
  refine ⟨rfl, (perform_writeText_eq_ok.mp hwritten).1, ?_⟩
  rw [hfiles]
  exact content?_writeText hwritten

/-- A file with content is read by a path that is not refused, which changes nothing. -/
theorem perform_readBytes {p : Path} {bytes : List UInt8} (hp : Failure.ofPath? p = none)
    (h : s.files.content? p = some bytes) :
    perform (readBytes p) around s = (.ok bytes, s) := by
  obtain ⟨l, hlead, hfile⟩ := Workspace.content?_eq_some.mp h
  rw [readBytes, perform_checkPath_bind, hp]
  dsimp only
  rw [perform_onFiles, Attempt.perform_named, Workspace.perform_readFile, hlead]
  dsimp only
  rw [hfile]
  rfl

/-- A text whose lines end in line feeds alone is read as it was written, which changes nothing. -/
theorem perform_readText {p : Path} {text : String} (hp : Failure.ofPath? p = none)
    (h : s.files.content? p = some (Utf8.encode text)) (hreturn : '\r' ∉ text.toList) :
    perform (readText p) around s = (.ok text, s) := by
  rw [readText, perform_bind, perform_readBytes hp h]
  dsimp only
  rw [perform_decoded, Utf8.decode_encode, Except.map, unified_eq_self hreturn]
  rfl

/-- Loading the document of a record gives the record and changes nothing. -/
theorem perform_loadRecord {path : Path} {r : Record} (hp : Failure.ofPath? path = none)
    (h : s.files.content? path = some (Utf8.encode r.render)) :
    perform (loadRecord path) around s = (.ok r, s) := by
  unfold loadRecord
  rw [perform_bind, perform_readText hp h r.return_notMem_render]
  dsimp only
  rw [perform_ofExcept, Record.parse_render]
  rfl

end Vendoring.Provenance
