import Vendoring.Proofs.Provenance.Escaping
import Vendoring.Proofs.Provenance.Reading

/-!
# Reading records back

The document of a record is five assignments, so it is read as the table of the record's fields in
their order, and the record is read back from it. A record can therefore be told from its document:
the document shows the set of the tags, and neither the order nor the repetitions in which they were
given.
-/

namespace Vendoring.Provenance.Record

open Vendoring.Text Vendoring.Data Vendoring.Instrumentation

/-- An assignment of a text. -/
def textAssignment (name : String) (h : Toml.IsBareKey name) (s : String) : Toml.Assignment where
  name := name
  text := (basicString s).toList
  value := .text s
  isBareKey := h
  reads := reads_basicString s
  not_isBlank := by
    intro c hc
    rw [toList_basicString, List.head?_cons, Option.mem_some_iff] at hc
    rw [← hc]
    rfl

/-- An assignment of an array of texts. -/
def arrayAssignment (name : String) (h : Toml.IsBareKey name) (items : List String) :
    Toml.Assignment where
  name := name
  text := (stringArray items).toList
  value := .texts items
  isBareKey := h
  reads := reads_stringArray items
  not_isBlank := by
    intro c hc
    rw [toList_stringArray, List.head?_cons, Option.mem_some_iff] at hc
    rw [← hc]
    rfl

/-- The assignments of a record's document. -/
def assignments (r : Record) : List Toml.Assignment :=
  [textAssignment "libname" (by decide) r.libname,
    textAssignment "version" (by decide) r.version,
    arrayAssignment "instrumentation" (by decide) r.instrumentation.names,
    arrayAssignment "known_vulnerabilities" (by decide) r.knownVulnerabilities,
    arrayAssignment "fixed_vulnerabilities" (by decide) r.fixedVulnerabilities]

private theorem toList_intercalate_newline (lines : List String) (h : lines ≠ []) :
    ("\n".intercalate lines ++ "\n").toList = lines.flatMap fun line ↦ line.toList ++ ['\n'] := by
  have hn : "\n".toList = ['\n'] := rfl
  rw [String.toList_append, String.toList_intercalate, hn]
  induction lines with
  | nil => exact absurd rfl h
  | cons line lines ih =>
    cases lines with
    | nil => simp
    | cons next lines =>
      have ih := ih (List.cons_ne_nil _ _)
      rw [List.map_cons] at ih
      rw [List.map_cons, List.map_cons, List.intercalate_cons_cons, List.append_assoc, ih]
      rfl

/-- The document of a record is the lines of its assignments. -/
theorem toList_render (r : Record) :
    r.render.toList = r.assignments.flatMap Toml.Assignment.line := by
  have hlines : r.lines ≠ [] := List.cons_ne_nil _ _
  rw [render, toList_intercalate_newline _ hlines]
  simp [lines, assignments, textAssignment, arrayAssignment, Toml.Assignment.line]

private theorem isPrinted_textAssignment (name : String) (h : Toml.IsBareKey name) (s : String) :
    ∀ c ∈ (textAssignment name h s).text, IsPrinted c := by
  intro c hc
  simp only [textAssignment] at hc
  exact isPrinted_of_mem_basicString hc

private theorem isPrinted_arrayAssignment (name : String) (h : Toml.IsBareKey name)
    (items : List String) : ∀ c ∈ (arrayAssignment name h items).text, IsPrinted c := by
  intro c hc
  simp only [arrayAssignment] at hc
  exact isPrinted_of_mem_stringArray hc

/-- No character of a record's document is a control character, apart from the line feeds at the
ends of its lines. -/
theorem isPrinted_of_mem_render {r : Record} {c : Char} (h : c ∈ r.render.toList) :
    c = '\n' ∨ IsPrinted c := by
  rw [toList_render] at h
  obtain ⟨a, ha, hc⟩ := List.mem_flatMap.1 h
  have hname : ∀ d ∈ a.name.toList, IsPrinted d := by
    intro d hd
    exact isPrinted_of_isBareKeyChar (List.all_eq_true.mp a.isBareKey.2 d hd)
  have htext : ∀ d ∈ a.text, IsPrinted d := by
    simp only [assignments, List.mem_cons, List.not_mem_nil, or_false] at ha
    rcases ha with rfl | rfl | rfl | rfl | rfl
    · exact isPrinted_textAssignment _ _ _
    · exact isPrinted_textAssignment _ _ _
    · exact isPrinted_arrayAssignment _ _ _
    · exact isPrinted_arrayAssignment _ _ _
    · exact isPrinted_arrayAssignment _ _ _
  rw [Toml.Assignment.line, List.mem_append, List.mem_cons, List.mem_cons, List.mem_cons,
    List.mem_append, List.mem_singleton] at hc
  rcases hc with hc | rfl | rfl | rfl | hc | rfl
  · exact .inr (hname c hc)
  · exact .inr (by decide)
  · exact .inr (by decide)
  · exact .inr (by decide)
  · exact .inr (htext c hc)
  · exact .inl rfl

/-- The document of a record holds no carriage return. -/
theorem return_notMem_render (r : Record) : '\r' ∉ r.render.toList := by
  intro h
  rcases isPrinted_of_mem_render h with h | h
  · exact absurd h (by decide)
  · exact absurd h (by decide)

/-- The fields of a record; its tags may be given in any order and repeatedly. -/
def fields (libname version : String) (tags : List Tag) (known fixed : List String) : Entries :=
  [("libname", .text libname), ("version", .text version),
    ("instrumentation", .texts (tags.map Tag.name)), ("known_vulnerabilities", .texts known),
    ("fixed_vulnerabilities", .texts fixed)]

/-- The document of a record is read as the table of its fields. -/
theorem parse_toml_render (r : Record) :
    Toml.parse r.render = .ok (fields r.libname r.version r.instrumentation.tags
      r.knownVulnerabilities r.fixedVulnerabilities) := by
  have hdistinct : (r.assignments.map Toml.Assignment.name).Nodup := by
    show ["libname", "version", "instrumentation", "known_vulnerabilities",
      "fixed_vulnerabilities"].Nodup
    decide
  have hr := return_notMem_render r
  rw [toList_render] at hr
  exact Toml.parse_flatMap_line r.assignments hdistinct hr (toList_render r)

/-- A record is made from its fields, and its instrumentation is the set of the tags given. -/
theorem ofFields_fields (libname version : String) (tags : List Tag) (known fixed : List String) :
    ofFields (fields libname version tags known fixed) =
      .valid ⟨libname, version, .ofList tags, known, fixed⟩ :=
  ofFields_eq_valid_iff.mpr ⟨rfl, rfl, ⟨tags, rfl, fun _ ↦ TagSet.mem_ofList⟩, rfl, rfl⟩

/-- The set made from the tags of a set is the set. -/
theorem ofList_tags (s : TagSet) : TagSet.ofList s.tags = s := by
  ext t
  exact TagSet.mem_ofList

/-- A record is read back from its document. -/
theorem parse_render (r : Record) : parse r.render = .ok r := by
  rw [parse, parse_toml_render]
  simp only [ofFields_fields, ofList_tags]
  rfl

/-- A record is told from its document. -/
theorem render_inj {r r' : Record} : r.render = r'.render ↔ r = r' := by
  constructor
  · intro h
    have hr := parse_render r
    rw [h, parse_render r'] at hr
    exact (Except.ok.inj hr).symm
  · rintro rfl
    rfl

/-- The document of a record, whatever characters its texts hold, is read as exactly the five
fields in their order, with the tags in canonical order, and the record is read back from it. Two
records have the same document exactly when they are equal, in whatever order and however often
their tags were given when the records were made. -/
theorem render_roundTrip (r : Record) :
    Toml.parse r.render = .ok [("libname", .text r.libname), ("version", .text r.version),
        ("instrumentation", .texts ((Tag.all.filter (· ∈ r.instrumentation)).map Tag.name)),
        ("known_vulnerabilities", .texts r.knownVulnerabilities),
        ("fixed_vulnerabilities", .texts r.fixedVulnerabilities)] ∧
      parse r.render = .ok r ∧
      (∀ r' : Record, r.render = r'.render ↔ r = r') ∧
      ∀ (r' : Record) (tags tags' : List Tag), (∀ t, t ∈ tags ↔ t ∈ r.instrumentation) →
        (∀ t, t ∈ tags' ↔ t ∈ r'.instrumentation) →
        ∃ a b : Record,
          ofFields (fields r.libname r.version tags r.knownVulnerabilities
            r.fixedVulnerabilities) = .valid a ∧
          ofFields (fields r'.libname r'.version tags' r'.knownVulnerabilities
            r'.fixedVulnerabilities) = .valid b ∧
          (a.render = b.render ↔ r = r') := by
  have hset (s : TagSet) (tags : List Tag) (h : ∀ t, t ∈ tags ↔ t ∈ s) :
      TagSet.ofList tags = s := by
    ext t
    rw [TagSet.mem_ofList, h]
  refine ⟨?_, parse_render r, fun r' ↦ render_inj, ?_⟩
  · rw [parse_toml_render, fields, r.instrumentation.canonical]
    rfl
  · intro r' tags tags' ht ht'
    refine ⟨r, r', ?_, ?_, render_inj⟩
    · rw [ofFields_fields, hset _ _ ht]
    · rw [ofFields_fields, hset _ _ ht']

end Vendoring.Provenance.Record
