import Vendoring.Data.Validation
import Vendoring.Instrumentation.Tag

/-!
# Instrumentation profiles

A profile says which tags a build is asked to carry. Its flags and its variant name follow the
canonical order of the tags, so they depend on the set alone. Where nothing asks for an order, the
host lists a set in an order of its own.
-/

namespace Vendoring.Instrumentation

open Vendoring.Data

/-- The tags requested for one build. -/
structure Profile where
  sancov : Bool
  asan : Bool
  gcov : Bool
  llvmCov : Bool
  claimer : Bool
  deriving DecidableEq, Repr

namespace Profile

/-- The name of the record in diagnostics. -/
def recordName : String := "InstrumentationProfile"

/-- Whether a profile requests a tag. -/
def requests (p : Profile) : Tag → Bool
  | .sancov => p.sancov
  | .asan => p.asan
  | .gcov => p.gcov
  | .llvmCov => p.llvmCov
  | .claimer => p.claimer

/-- The profile that requests the tags of a set. -/
def ofTags (tags : TagSet) : Profile :=
  let has (t : Tag) : Bool := t ∈ tags
  ⟨has .sancov, has .asan, has .gcov, has .llvmCov, has .claimer⟩

/-- The profile that requests nothing. -/
def plain : Profile := ofTags .empty

instance : Inhabited Profile := ⟨plain⟩

/-- The requested tags. -/
def requestedTags (p : Profile) : TagSet := .ofPred p.requests

/-- The C compiler flags of the requested tags. -/
def compilerFlags (p : Profile) : List String :=
  p.requestedTags.tags.flatMap Tag.compilerFlags

/-- The names of the requested tags joined by dashes, or `plain` when there are none. -/
def variantName (p : Profile) : String :=
  let names := p.requestedTags.names
  if names.isEmpty then "plain" else "-".intercalate names

/-- Read a profile's fields; absent ones are off. -/
def ofFields (entries : Entries) : Checked Profile :=
  let field (t : Tag) := entries.withDefault t.name Reader.flag false
  Profile.mk <$> field .sancov <*> field .asan <*> field .gcov <*> field .llvmCov <*>
    field .claimer

/-- The fields of a profile. -/
def toValue (p : Profile) : Value :=
  .table (Tag.all.map fun t ↦ (t.name, .bool (p.requests t)))

/-- A profile made from a set requests the tags of the set. -/
@[simp]
theorem requests_ofTags (tags : TagSet) (t : Tag) :
    (ofTags tags).requests t = decide (t ∈ tags) := by
  cases t <;> rfl

/-- The tags requested by a profile made from a set are those of the set. -/
@[simp]
theorem requestedTags_ofTags (tags : TagSet) : (ofTags tags).requestedTags = tags := by
  ext t
  simp [requestedTags]

/-- A tag is among the requested ones exactly when the profile requests it. -/
@[simp]
theorem mem_requestedTags {p : Profile} {t : Tag} :
    t ∈ p.requestedTags ↔ p.requests t = true := by
  simp [requestedTags]

end Profile

/-- How a host lists the tags of a set where no order is asked for. The order is the host's, and it
may depend on how the set came about, which is what the profile stands for. -/
structure Listing where
  tags : Profile → TagSet → List Tag
  perm (profile : Profile) (set : TagSet) : (tags profile set).Perm set.tags

/-- The host that lists the tags in canonical order. -/
def Listing.canonical : Listing := ⟨fun _ set ↦ set.tags, fun _ _ ↦ .refl _⟩

end Vendoring.Instrumentation
