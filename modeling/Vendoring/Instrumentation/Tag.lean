import Vendoring.Data.Value

/-!
# Instrumentation tags

The kinds of instrumentation a vendored build may carry. `Tag.all` lists them in the canonical
order, which every rendering follows; `ordered` brings the tags that satisfy a predicate into that
order. A set of tags is represented by its canonical list, so equal sets are equal values.
-/

namespace Vendoring.Instrumentation

open Vendoring.Data

/-- An instrumentation kind. -/
inductive Tag where
  | sancov
  | asan
  | gcov
  | llvmCov
  | claimer
  deriving DecidableEq, Repr

namespace Tag

/-- All tags in canonical order. -/
def all : List Tag := [sancov, asan, gcov, llvmCov, claimer]

/-- The word for a tag. -/
def name : Tag → String
  | sancov => "sancov"
  | asan => "asan"
  | gcov => "gcov"
  | llvmCov => "llvm_cov"
  | claimer => "claimer"

/-- The words for all tags. -/
def names : List String := all.map name

/-- The tag with a name. -/
def ofName? (word : String) : Option Tag := all.find? fun t ↦ t.name = word

/-- Every tag is listed. -/
theorem mem_all (t : Tag) : t ∈ all := by cases t <;> decide

/-- Different tags have different names. -/
theorem name_inj {s t : Tag} : s.name = t.name ↔ s = t := by
  cases s <;> cases t <;> decide

/-- A tag is found by its name. -/
theorem ofName?_name (t : Tag) : ofName? t.name = some t := by cases t <;> rfl

/-- A word names a tag exactly when it is the tag's name. -/
theorem ofName?_eq_some_iff {word : String} {t : Tag} : ofName? word = some t ↔ t.name = word := by
  constructor
  · intro h
    simpa using List.find?_some h
  · rintro rfl
    exact ofName?_name t

/-- The C compiler flags that a tag asks for. The claimer hook is part of the sources and asks for
none. -/
def compilerFlags : Tag → List String
  | sancov => ["-fsanitize-coverage=trace-pc-guard"]
  | asan => ["-fsanitize=address", "-fno-omit-frame-pointer"]
  | gcov => ["-fprofile-arcs", "-ftest-coverage"]
  | llvmCov => ["-fprofile-instr-generate", "-fcoverage-mapping"]
  | claimer => []

end Tag

/-- Why values are not a collection of tags. -/
inductive TagError where
  /-- The first value that is no tag, as diagnostics show it. -/
  | unknown (shown : String)
  /-- The collection itself cannot be iterated over. -/
  | notIterable (typeName : String)
  deriving DecidableEq, Repr

/-- The wording of an error. -/
def TagError.message : TagError → String
  | .unknown shown => shown ++ " is not a valid InstrumentationTag"
  | .notIterable typeName => "'" ++ typeName ++ "' object is not iterable"

/-- A set of tags: which tags belong to it. -/
structure TagSet where
  tags : List Tag
  canonical : tags = Tag.all.filter (· ∈ tags)
  deriving DecidableEq, Repr

namespace TagSet

/-- The tags that satisfy a predicate. -/
def ofPred (p : Tag → Bool) : TagSet :=
  ⟨Tag.all.filter p, by
    refine List.filter_congr fun t ht ↦ ?_
    simp [List.mem_filter, ht]⟩

/-- The tags that occur in a list. -/
def ofList (tags : List Tag) : TagSet := ofPred (· ∈ tags)

instance : Membership Tag TagSet := ⟨fun s t ↦ t ∈ s.tags⟩

instance (t : Tag) (s : TagSet) : Decidable (t ∈ s) := inferInstanceAs (Decidable (t ∈ s.tags))

/-- The empty set. -/
def empty : TagSet := ofList []

/-- Add a tag. -/
def insert (s : TagSet) (t : Tag) : TagSet := ofPred fun u ↦ u = t || u ∈ s.tags

/-- Remove a tag. -/
def erase (s : TagSet) (t : Tag) : TagSet := ofPred fun u ↦ u ≠ t && u ∈ s.tags

/-- The names of the tags in canonical order. -/
def names (s : TagSet) : List String := s.tags.map Tag.name

/-- A set holds the tags that satisfy its predicate. -/
@[simp]
theorem mem_ofPred {p : Tag → Bool} {t : Tag} : t ∈ ofPred p ↔ p t = true := by
  show t ∈ Tag.all.filter p ↔ _
  simp [List.mem_filter, Tag.mem_all]

/-- A set holds the tags of the list it was made from. -/
@[simp]
theorem mem_ofList {tags : List Tag} {t : Tag} : t ∈ ofList tags ↔ t ∈ tags := by
  simp [ofList]

/-- After adding a tag the set holds it and what it held before. -/
@[simp]
theorem mem_insert {s : TagSet} {t u : Tag} : u ∈ s.insert t ↔ u = t ∨ u ∈ s := by
  show u ∈ ofPred _ ↔ u = t ∨ u ∈ s.tags
  simp

/-- After removing a tag the set holds what it held before, except for that tag. -/
@[simp]
theorem mem_erase {s : TagSet} {t u : Tag} : u ∈ s.erase t ↔ u ≠ t ∧ u ∈ s := by
  show u ∈ ofPred _ ↔ u ≠ t ∧ u ∈ s.tags
  simp

/-- Sets with the same tags are equal. -/
@[ext]
theorem ext {s t : TagSet} (h : ∀ u, u ∈ s ↔ u ∈ t) : s = t := by
  obtain ⟨ss, hs⟩ := s
  obtain ⟨ts, ht⟩ := t
  have h : ∀ u, u ∈ ss ↔ u ∈ ts := h
  have : ss = ts := by
    rw [hs, ht]
    exact List.filter_congr fun u _ ↦ by simp [h u]
  subst this
  rfl

end TagSet

/-- The tags that values name, or an error for the first value that names none. -/
def readTags : List Value → Except TagError (List Tag)
  | [] => .ok []
  | v :: rest =>
    match v with
    | .text s => match Tag.ofName? s with
      | some t => (t :: ·) <$> readTags rest
      | none => .error (.unknown v.shown)
    | _ => .error (.unknown v.shown)

/-- The set of the tags that iteration over a value yields. -/
def tagsOf (v : Value) : Except TagError TagSet :=
  match v.iterate? with
  | none => .error (.notIterable v.typeName)
  | some items => TagSet.ofList <$> readTags items

end Vendoring.Instrumentation
