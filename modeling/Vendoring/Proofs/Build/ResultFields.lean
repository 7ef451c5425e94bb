import Vendoring.Build.Report
import Vendoring.Proofs.Files.PathText
import Vendoring.Proofs.Json.Values
import Vendoring.Proofs.Provenance.RoundTrip

/-!
# Results as values

The report of a result is a value that JSON can hold, and the result is read back from its fields
if its paths are in normal form, which is how paths are read. The order in which a report lists the
tags of a set makes no difference to either.
-/

namespace Vendoring.Build

open Vendoring.Data Vendoring.Files Vendoring.Instrumentation Vendoring.Provenance Vendoring.Json

variable {listed : TagSet → List Tag}

/-! ### Values for JSON -/

private theorem isJson_texts (items : List String) : IsJson (.texts items) := by
  refine .list fun v hv ↦ ?_
  obtain ⟨s, _, rfl⟩ := List.mem_map.mp hv
  exact .text s

private theorem isJson_profile (p : Profile) : IsJson p.toValue := by
  have hkeys : Tag.names.Nodup := by decide
  refine .table (by rwa [List.map_map]) fun e he ↦ ?_
  obtain ⟨t, _, rfl⟩ := List.mem_map.mp he
  exact .bool _

private theorem isJson_request (r : Request) : IsJson r.toValue := by
  refine .table (by simp) ?_
  simp only [List.forall_mem_cons, List.not_mem_nil, false_implies, implies_true, and_true]
  exact ⟨.text _, .text _, .text _, .text _, .text _, isJson_profile _, isJson_texts _,
    isJson_texts _, .bool _⟩

private theorem isJson_stage (s : Stage) : IsJson s.toValue := by
  refine .table (by simp) ?_
  simp only [List.forall_mem_cons, List.not_mem_nil, false_implies, implies_true, and_true]
  exact ⟨.text _, .text _, .text _, .decimal _⟩

private theorem isJson_record (m : Record) : IsJson (m.toValue listed) := by
  refine .table (by simp) ?_
  simp only [List.forall_mem_cons, List.not_mem_nil, false_implies, implies_true, and_true]
  exact ⟨.text _, .text _, isJson_texts _, isJson_texts _, isJson_texts _⟩

/-- The fields of a result are values that JSON can hold. -/
theorem isJson_result (r : Result) : IsJson (r.toValue listed) := by
  have hstages : IsJson (.list (r.stages.map Stage.toValue)) := by
    refine .list fun v hv ↦ ?_
    obtain ⟨s, _, rfl⟩ := List.mem_map.mp hv
    exact isJson_stage s
  have hrecord : IsJson ((r.record.map (·.toValue listed)).getD .null) := by
    cases r.record with
    | none => exact .null
    | some m => exact isJson_record m
  have hpath : IsJson (.text? (r.recordPath.map Path.text)) := by
    cases r.recordPath with
    | none => exact .null
    | some p => exact .text _
  refine .table (by simp) ?_
  simp only [List.forall_mem_cons, List.not_mem_nil, false_implies, implies_true, and_true]
  exact ⟨isJson_request _, hstages, hrecord, hpath⟩

/-- So is its report. -/
theorem isJson_report (now : String) (r : Result) : IsJson (report now r listed) := by
  refine .table (by simp) ?_
  simp only [List.forall_mem_cons, List.not_mem_nil, false_implies, implies_true, and_true]
  exact ⟨.bool _, .text _, .text _, .bool _, isJson_texts _, isJson_result r⟩

/-! ### Reading the fields -/

private theorem items_texts (problem : Problem) (items : List String) :
    Reader.items problem Reader.text (.texts items) = .valid items :=
  Reader.items_map problem .text (fun _ ↦ rfl) items

private theorem pathReader_text {p : Path} (hp : p.IsNormal) :
    pathReader (.text p.text) = .valid p :=
  congrArg Checked.valid (Path.ofString_text hp)

private theorem ofFields_stage (s : Stage) :
    Reader.record Stage.recordName Stage.ofFields s.toValue = .valid s := by
  obtain ⟨name, status, detail, duration⟩ := s
  cases status
  · rfl
  · rfl
  · rfl

private theorem ofFields_record (m : Record)
    (hlisted : (listed m.instrumentation).Perm m.instrumentation.tags) :
    Reader.record Record.recordName Record.ofFields (m.toValue listed) = .valid m := by
  have hread := Record.ofFields_fields m.libname m.version (listed m.instrumentation)
    m.knownVulnerabilities m.fixedVulnerabilities
  have hset : TagSet.ofList (listed m.instrumentation) = m.instrumentation := by
    ext tag
    exact TagSet.mem_ofList.trans hlisted.mem_iff
  rw [hset] at hread
  exact hread

/-- The paths of a result are in normal form, as those read from texts are. -/
structure Result.HasNormalPaths (r : Result) : Prop where
  source : r.request.source.IsNormal
  build : r.request.build.IsNormal
  destination : r.request.destination.IsNormal
  record : ∀ p ∈ r.recordPath, p.IsNormal

private theorem ofFields_request {r : Request} (hsource : r.source.IsNormal)
    (hbuild : r.build.IsNormal) (hdestination : r.destination.IsNormal) :
    Reader.record Request.recordName Request.ofFields r.toValue = .valid r := by
  have hpaths := And.intro (pathReader_text hsource)
    (And.intro (pathReader_text hbuild) (pathReader_text hdestination))
  simp only [Reader.record, Request.toValue, Request.ofFields, Entries.required,
    Entries.withDefault, Entries.get?, List.lookup_cons, String.reduceBEq, hpaths, items_texts]
  rfl

/-- A result with paths in normal form is read back from its fields, in whatever order these list
tags. -/
theorem Result.HasNormalPaths.ofFields {r : Result} (hr : r.HasNormalPaths)
    (hlisted : ∀ set : TagSet, (listed set).Perm set.tags) :
    ∃ fields, r.toValue listed = .table fields ∧ Result.ofFields fields = .valid r := by
  refine ⟨_, rfl, ?_⟩
  have hrequest := ofFields_request hr.source hr.build hr.destination
  have hstages := Reader.items_map .notList Stage.toValue ofFields_stage r.stages
  have hrecord : Reader.optional (Reader.record Record.recordName Record.ofFields)
      ((r.record.map (·.toValue listed)).getD .null) = .valid r.record := by
    cases r.record with
    | none => rfl
    | some m => exact congrArg (Checked.map some) (ofFields_record m (hlisted _))
  have hpath : Reader.optional pathReader (.text? (r.recordPath.map Path.text)) =
      .valid r.recordPath := by
    cases hp : r.recordPath with
    | none => rfl
    | some p => exact congrArg (Checked.map some) (pathReader_text (hr.record p hp))
  simp only [Result.ofFields, Entries.required, Entries.withDefault, Entries.get?, List.lookup_cons,
    String.reduceBEq, hrequest, hstages, hrecord, hpath]
  rfl

end Vendoring.Build
