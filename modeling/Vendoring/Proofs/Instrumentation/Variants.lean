import Vendoring.Instrumentation.Profile
import Vendoring.Proofs.Text.Parts

/-!
# Names of variants

The name of a variant is cut at its dashes into the names of its tags, so that profiles have the
same variant only if they request the same tags. The words of texts with a dash between them are
those of each text in turn.
-/

namespace Vendoring.Instrumentation

open Vendoring.Text

/-! ### Words -/

/-- The words of a text: what stands between its dashes. -/
def words (s : String) : List (List Char) := s.toList.splitOn '-'

/-- How many dashes a text holds. -/
def dashes (s : String) : Nat := s.toList.count '-'

/-- Texts with the same words are the same. -/
theorem words_inj {s t : String} : words s = words t ↔ s = t := by
  constructor
  · intro h
    apply String.toList_inj.mp
    calc s.toList
      _ = ['-'].intercalate (words s) := (List.intercalate_splitOn '-').symm
      _ = ['-'].intercalate (words t) := by rw [h]
      _ = t.toList := List.intercalate_splitOn '-'
  · rintro rfl
    rfl

/-- Two texts around a dash have the words of both. -/
theorem words_append_dash (s t : String) : words (s ++ "-" ++ t) = words s ++ words t := by
  have hchars : (s ++ "-" ++ t).toList = s.toList ++ '-' :: t.toList := by
    simp [String.toList_append]
  unfold words
  rw [hchars, List.splitOn_append_cons_self]

/-- A text has one word more than it has dashes. -/
theorem length_words (s : String) : (words s).length = dashes s + 1 := by
  unfold words dashes
  induction s.toList with
  | nil => rfl
  | cons c cs ih =>
      rw [List.splitOn_cons_eq_if_modifyHead, List.count_cons]
      by_cases hc : (c == '-') = true
      · rw [if_pos hc, if_pos hc, List.length_cons, ih]
      · rw [if_neg hc, if_neg hc, List.length_modifyHead, ih, Nat.add_zero]

/-! ### Variants -/

/-- No tag's name holds a dash. -/
theorem Tag.dash_notMem_name (t : Tag) : '-' ∉ t.name.toList := by cases t <;> decide

/-- No tag's name holds a slash. -/
theorem Tag.slash_notMem_name (t : Tag) : '/' ∉ t.name.toList := by cases t <;> decide

namespace Profile

/-- The words of a variant are the names of its tags, if it has any. -/
theorem words_variantName (p : Profile) :
    words p.variantName = if p.requestedTags.tags = [] then ["plain".toList]
      else p.requestedTags.tags.map fun t ↦ t.name.toList := by
  unfold variantName TagSet.names words
  dsimp only
  by_cases hnone : p.requestedTags.tags = []
  · rw [if_pos hnone, if_pos (by simpa using hnone)]
    exact List.splitOn_eq_singleton (by decide)
  · rw [if_neg hnone, if_neg (by simpa using hnone), String.toList_intercalate, List.map_map]
    refine List.splitOn_intercalate '-' ?_ (by simpa using hnone)
    intro name hname
    obtain ⟨t, _, rfl⟩ := List.mem_map.mp hname
    exact t.dash_notMem_name

/-- The words of a variant tell which tags are requested. -/
theorem name_mem_words_variantName {p : Profile} {t : Tag} :
    t.name.toList ∈ words p.variantName ↔ t ∈ p.requestedTags := by
  have hname (s : Tag) : s.name.toList = t.name.toList ↔ s = t := by
    rw [String.toList_inj, Tag.name_inj]
  show _ ↔ t ∈ p.requestedTags.tags
  rw [words_variantName]
  split
  · next hnone =>
      have hplain : t.name.toList ∉ ["plain".toList] := by cases t <;> decide
      rw [hnone]
      exact iff_of_false hplain List.not_mem_nil
  · simp [hname]

/-- Profiles have the same variant exactly when they request the same tags. -/
theorem variantName_inj {p p' : Profile} :
    p.variantName = p'.variantName ↔ p.requestedTags = p'.requestedTags := by
  constructor
  · intro h
    ext t
    rw [← name_mem_words_variantName, h, name_mem_words_variantName]
  · intro h
    unfold variantName
    rw [h]

/-- The name of a variant holds no slash. -/
theorem slash_notMem_variantName (p : Profile) : '/' ∉ p.variantName.toList := by
  unfold variantName
  dsimp only
  split
  · decide
  · rw [String.toList_intercalate]
    intro hslash
    rcases mem_or_mem_of_mem_intercalate hslash with hdash | ⟨name, hname, hslash⟩
    · exact absurd hdash (by decide)
    · rw [TagSet.names, List.map_map] at hname
      obtain ⟨t, _, rfl⟩ := List.mem_map.mp hname
      exact t.slash_notMem_name hslash

end Profile
end Vendoring.Instrumentation
