import Vendoring.Proofs.Data.Reading
import Vendoring.Provenance.Document

/-!
# Documents that hold a record

A document holds a record just when its name and version are texts and its collections, as far as
they are there, are arrays of texts, those of the instrumentation being names of tags. The record is
then what the document describes, whatever else stands in it. Any other document is refused for
issues that all lie in the fields of a record.
-/

namespace Vendoring.Provenance

open Vendoring.Data Vendoring.Instrumentation

/-- A document has an array of texts at a key, or nothing there and the texts are none. -/
def HasTexts (d : Entries) (key : String) (items : List String) : Prop :=
  (d.get? key).getD (.list []) = .texts items

/-- A document that a record can be read from. -/
structure HoldsRecord (d : Entries) : Prop where
  libname : ∃ s, d.get? "libname" = some (.text s)
  version : ∃ s, d.get? "version" = some (.text s)
  instrumentation : ∃ tags : List Tag, HasTexts d "instrumentation" (tags.map Tag.name)
  knownVulnerabilities : ∃ items, HasTexts d "known_vulnerabilities" items
  fixedVulnerabilities : ∃ items, HasTexts d "fixed_vulnerabilities" items

/-- A document describes a record: it has the record's texts, its lists in their order, and the
names of its tags in any order and any number of times. -/
structure Describes (d : Entries) (r : Record) : Prop where
  libname : d.get? "libname" = some (.text r.libname)
  version : d.get? "version" = some (.text r.version)
  instrumentation : ∃ tags : List Tag, HasTexts d "instrumentation" (tags.map Tag.name) ∧
    ∀ t, t ∈ r.instrumentation ↔ t ∈ tags
  knownVulnerabilities : HasTexts d "known_vulnerabilities" r.knownVulnerabilities
  fixedVulnerabilities : HasTexts d "fixed_vulnerabilities" r.fixedVulnerabilities

/-! ### Reading the fields -/

private theorem text_eq_valid_iff (v : Value) (s : String) :
    Reader.text v = .valid s ↔ v = .text s := by
  cases v <;> simp [Reader.text, Checked.fail]

private theorem tagReader_eq_valid_iff (v : Value) (t : Tag) :
    Record.tagReader v = .valid t ↔ v = .text t.name := by
  cases v with
  | text s =>
      rw [Value.text.injEq, eq_comm (a := s), ← Tag.ofName?_eq_some_iff]
      simp only [Record.tagReader, Reader.choice]
      cases Tag.ofName? s with
      | none => simp [Checked.fail]
      | some u => simp
  | _ => simp [Record.tagReader, Reader.choice, Checked.fail]

/-- A field of texts is read as the texts that the document has there. -/
theorem withDefault_texts_eq_valid_iff {d : Entries} {field : String} {items : List String} :
    d.withDefault field (Reader.items .notTuple Reader.text) [] = .valid items ↔
      HasTexts d field items :=
  Entries.withDefault_items_eq_valid_iff text_eq_valid_iff

/-- A field of tags is read as the tags whose names the document has there. -/
theorem withDefault_tags_eq_valid_iff {d : Entries} {field : String} {tags : List Tag} :
    d.withDefault field (Reader.items .notSet Record.tagReader) [] = .valid tags ↔
      HasTexts d field (tags.map Tag.name) := by
  rw [Entries.withDefault_items_eq_valid_iff tagReader_eq_valid_iff, HasTexts, Value.texts,
    List.map_map]
  rfl

/-- The record that a document describes is read from its entries. -/
theorem ofFields_eq_valid_iff {d : Entries} {r : Record} :
    Record.ofFields d = .valid r ↔ Describes d r := by
  constructor
  · intro h
    obtain ⟨_, fixed, h4, hfixed, rfl⟩ := Checked.seq_eq_valid_iff.mp h
    obtain ⟨_, known, h3, hknown, rfl⟩ := Checked.seq_eq_valid_iff.mp h4
    obtain ⟨_, _, h2, hset, rfl⟩ := Checked.seq_eq_valid_iff.mp h3
    obtain ⟨_, version, h1, hversion, rfl⟩ := Checked.seq_eq_valid_iff.mp h2
    obtain ⟨libname, hlibname, rfl⟩ := Checked.map_eq_valid_iff.mp h1
    obtain ⟨tags, htags, rfl⟩ := Checked.map_eq_valid_iff.mp hset
    obtain ⟨v, hv, htext⟩ := Entries.required_eq_valid_iff.mp hlibname
    obtain ⟨v', hv', htext'⟩ := Entries.required_eq_valid_iff.mp hversion
    rw [text_eq_valid_iff] at htext htext'
    exact {
      libname := hv.trans (congrArg some htext)
      version := hv'.trans (congrArg some htext')
      instrumentation :=
        ⟨tags, withDefault_tags_eq_valid_iff.mp htags, fun _ ↦ TagSet.mem_ofList⟩
      knownVulnerabilities := withDefault_texts_eq_valid_iff.mp hknown
      fixedVulnerabilities := withDefault_texts_eq_valid_iff.mp hfixed }
  · intro h
    obtain ⟨tags, htags, hmem⟩ := h.instrumentation
    have hset : TagSet.ofList tags = r.instrumentation := by
      ext t
      rw [TagSet.mem_ofList, hmem]
    have hlibname := Entries.required_eq_valid_iff.mpr
      ⟨_, h.libname, (text_eq_valid_iff _ _).mpr rfl⟩
    have hversion := Entries.required_eq_valid_iff.mpr
      ⟨_, h.version, (text_eq_valid_iff _ _).mpr rfl⟩
    simp only [Record.ofFields, hlibname, hversion, withDefault_tags_eq_valid_iff.mpr htags,
      withDefault_texts_eq_valid_iff.mpr h.knownVulnerabilities,
      withDefault_texts_eq_valid_iff.mpr h.fixedVulnerabilities]
    show Checked.valid (⟨r.libname, r.version, TagSet.ofList tags, r.knownVulnerabilities,
      r.fixedVulnerabilities⟩ : Record) = .valid r
    rw [hset]

/-- A record can be read from a document exactly when it describes one. -/
theorem exists_describes_iff {d : Entries} : (∃ r, Describes d r) ↔ HoldsRecord d := by
  constructor
  · rintro ⟨r, h⟩
    obtain ⟨tags, htags, _⟩ := h.instrumentation
    exact ⟨⟨_, h.libname⟩, ⟨_, h.version⟩, ⟨tags, htags⟩, ⟨_, h.knownVulnerabilities⟩,
      ⟨_, h.fixedVulnerabilities⟩⟩
  · intro h
    obtain ⟨libname, hlibname⟩ := h.libname
    obtain ⟨version, hversion⟩ := h.version
    obtain ⟨tags, htags⟩ := h.instrumentation
    obtain ⟨known, hknown⟩ := h.knownVulnerabilities
    obtain ⟨fixed, hfixed⟩ := h.fixedVulnerabilities
    exact ⟨⟨libname, version, .ofList tags, known, fixed⟩, hlibname, hversion,
      ⟨tags, htags, fun _ ↦ TagSet.mem_ofList⟩, hknown, hfixed⟩

/-! ### What is told of other documents -/

/-- The names of a record's fields. -/
def fieldNames : List String :=
  ["libname", "version", "instrumentation", "known_vulnerabilities", "fixed_vulnerabilities"]

private theorem tells_text (v : Value) : (Reader.text v).Tells := by
  cases v with
  | text s => exact Checked.tells_valid s
  | _ => exact Checked.tells_fail _

private theorem tells_tagReader (v : Value) : (Record.tagReader v).Tells := by
  cases v with
  | text s =>
      simp only [Record.tagReader, Reader.choice]
      cases Tag.ofName? s with
      | none => exact Checked.tells_fail _
      | some t => exact Checked.tells_valid t
  | _ => exact Checked.tells_fail _

/-- What is told of a document that holds no record lies in the fields of a record. -/
theorem tellsOf_ofFields (d : Entries) : (Record.ofFields d).TellsOf fieldNames := by
  have htexts := Reader.tells_items tells_text .notTuple
  have htags := Reader.tells_items tells_tagReader .notSet
  have hlibname := (Entries.tellsOf_required tells_text d "libname").map Record.mk
  have hversion := hlibname.seq (Entries.tellsOf_required tells_text d "version")
  have hinstrumentation := hversion.seq
    ((Entries.tellsOf_withDefault htags d "instrumentation" []).map TagSet.ofList)
  have hknown := hinstrumentation.seq
    (Entries.tellsOf_withDefault htexts d "known_vulnerabilities" [])
  exact hknown.seq (Entries.tellsOf_withDefault htexts d "fixed_vulnerabilities" [])

/-! ### Reading a document -/

/-- What reading the text of a document gives. -/
structure ReadsFrom (text : String) (d : Entries) : Prop where
  exists_iff : (∃ r, Record.parse text = .ok r) ↔ HoldsRecord d
  eq_ok_iff : ∀ r, Record.parse text = .ok r ↔ Describes d r
  refused : ¬HoldsRecord d → ∃ issues, issues ≠ [] ∧
    Record.parse text = .error (.fields ⟨Record.recordName, issues⟩) ∧
    ∀ issue ∈ issues, ∃ field ∈ fieldNames, issue.path.head? = some (.field field)

private theorem parse_of_valid {text : String} {d : Entries} {r : Record}
    (h : Toml.parse text = .ok d) (hread : Record.ofFields d = .valid r) :
    Record.parse text = .ok r := by
  rw [Record.parse, h]
  dsimp only
  rw [hread]
  rfl

private theorem parse_of_invalid {text : String} {d : Entries} {issues : List Issue}
    (h : Toml.parse text = .ok d) (hread : Record.ofFields d = .invalid issues) :
    Record.parse text = .error (.fields ⟨Record.recordName, issues⟩) := by
  rw [Record.parse, h]
  dsimp only
  rw [hread]
  rfl

/-- From the text of a document a record is read exactly when the document holds one, and then the
record that it describes; all others are refused for issues in the fields of a record. -/
theorem parse_readsFrom {text : String} {d : Entries} (h : Toml.parse text = .ok d) :
    ReadsFrom text d := by
  have heq (r : Record) : Record.parse text = .ok r ↔ Describes d r := by
    rw [← ofFields_eq_valid_iff]
    cases hread : Record.ofFields d with
    | valid r' => rw [parse_of_valid h hread, Except.ok.injEq, Checked.valid.injEq]
    | invalid issues => simp [parse_of_invalid h hread]
  have hexists : (∃ r, Record.parse text = .ok r) ↔ HoldsRecord d := by
    simp only [heq, exists_describes_iff]
  refine ⟨hexists, heq, fun hnone ↦ ?_⟩
  have htells := tellsOf_ofFields d
  cases hread : Record.ofFields d with
  | valid r => exact absurd (exists_describes_iff.mp ⟨r, ofFields_eq_valid_iff.mp hread⟩) hnone
  | invalid issues =>
      rw [hread] at htells
      refine ⟨issues, fun hnil ↦ ?_, parse_of_invalid h hread, htells.lies⟩
      obtain ⟨_, hvalid⟩ := htells.tells hnil
      cases hvalid

/-- A document with its keys in another order than a record's, one key more, and a tag given
twice. -/
def sampleDocument : String :=
  "version = \"1\"\nlibname = \"ssl\"\nextra = 3\n" ++
    "instrumentation = [\"gcov\", \"asan\", \"gcov\"]\n"

/-- The record in the sample document. -/
def sampleDocumentRecord : Record := ⟨"ssl", "1", .ofList [.asan, .gcov], [], []⟩

private theorem parse_sampleDocument : Record.parse sampleDocument = .ok sampleDocumentRecord := by
  have hread : (Record.parse sampleDocument).toOption = some sampleDocumentRecord := by
    decide +kernel
  cases h : Record.parse sampleDocument with
  | error e => simp [h, Except.toOption] at hread
  | ok r => simpa [h, Except.toOption] using hread

/-- The sample document is read, and describes its record. -/
theorem sampleDocument_parse_readsFrom :
    ∃ d, Toml.parse sampleDocument = .ok d ∧ ReadsFrom sampleDocument d ∧
      Describes d sampleDocumentRecord := by
  cases h : Toml.parse sampleDocument with
  | error e =>
      have hread := parse_sampleDocument
      rw [Record.parse, h] at hread
      cases hread
  | ok d =>
      have hreads := parse_readsFrom h
      exact ⟨d, rfl, hreads, (hreads.eq_ok_iff sampleDocumentRecord).mp parse_sampleDocument⟩

end Vendoring.Provenance
