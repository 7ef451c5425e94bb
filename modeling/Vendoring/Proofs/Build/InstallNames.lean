import Mathlib.Data.List.Basic
import Vendoring.Build.InstallDirectory
import Vendoring.Proofs.Files.PathText
import Vendoring.Proofs.Instrumentation.Variants

/-!
# Names of install directories

The name of an install directory puts a library, a version and a variant in a row with dashes
between them, and these may hold dashes themselves. So a name tells the words in the row, but not
where the library ends and where the variant begins: directories are the same exactly when their
words are. The three can be told apart as soon as it is known how many dashes the library and the
version hold.
-/

namespace Vendoring.Build

open Vendoring.Files Vendoring.Instrumentation

variable {libname libname' version version' : String}

/-- The words of an install directory's name are those of the library, of the version and of the
variant. -/
theorem words_installName (libname version : String) (p : Profile) :
    words (installName libname version p) =
      words libname ++ words version ++ words p.variantName := by
  unfold installName
  rw [words_append_dash, words_append_dash]

/-- The name of an install directory is one part of a path if the library and the version hold no
slash. -/
theorem isPart_installName (hlibname : '/' ∉ libname.toList) (hversion : '/' ∉ version.toList)
    (p : Profile) : IsPart (installName libname version p) := by
  have hdash : '-' ∈ (installName libname version p).toList := by
    simp [installName, String.toList_append]
  constructor
  case ne_empty =>
    intro h
    rw [h] at hdash
    cases hdash
  case ne_dot =>
    intro h
    rw [h] at hdash
    revert hdash
    decide
  case slash_notMem =>
    simp [installName, String.toList_append, hlibname, hversion, p.slash_notMem_variantName]

/-- Install directories below one root are the same exactly when the words of their names are. -/
theorem installDirectory_eq_iff_words (root : Path)
    (hlibname : '/' ∉ libname.toList) (hversion : '/' ∉ version.toList)
    (hlibname' : '/' ∉ libname'.toList) (hversion' : '/' ∉ version'.toList) (p p' : Profile) :
    installDirectory root libname version p = installDirectory root libname' version' p' ↔
      words libname ++ words version ++ words p.variantName =
        words libname' ++ words version' ++ words p'.variantName := by
  unfold installDirectory
  rw [Path.below_of_isPart root (isPart_installName hlibname hversion p),
    Path.below_of_isPart root (isPart_installName hlibname' hversion' p'), Path.entry_inj,
    ← words_inj, words_installName, words_installName]

/-- Whether the last word of a text is the name of a tag. -/
def EndsInTag (s : String) : Prop := ∃ t : Tag, (words s).getLast? = some t.name.toList

/-- A variant of more than one word has tags' names for words. -/
theorem exists_name_eq_of_mem_words {p : Profile} {word : List Char}
    (hword : word ∈ words p.variantName) (hlength : 1 < (words p.variantName).length) :
    ∃ t : Tag, t.name.toList = word := by
  rw [Profile.words_variantName] at hword hlength
  split at hword
  · next hnone =>
      rw [if_pos hnone] at hlength
      exact absurd hlength (Nat.lt_irrefl 1)
  · obtain ⟨t, _, ht⟩ := List.mem_map.mp hword
    exact ⟨t, ht⟩

/-- A variant at the end of a row of words is not longer than another one there, before which the
last word is no tag's name. -/
theorem length_words_variantName_le {p p' : Profile} {front front' : List (List Char)}
    (h : front ++ words p.variantName = front' ++ words p'.variantName)
    (hlast : ∀ t : Tag, front.getLast? ≠ some t.name.toList) :
    (words p'.variantName).length ≤ (words p.variantName).length := by
  by_contra hlonger
  have hpos : 0 < (words p.variantName).length := by
    rw [length_words]
    exact Nat.succ_pos _
  obtain ⟨more, _, hwords⟩ | ⟨more, rfl, hwords⟩ := List.append_eq_append_iff.mp h
  · rw [hwords, List.length_append] at hlonger
    omega
  · have hne : more ≠ [] := by
      rintro rfl
      rw [hwords, List.nil_append] at hlonger
      exact hlonger (Nat.le_refl _)
    -- The longer variant begins with words of the other front, so the last of these names a tag.
    have hmem : more.getLast hne ∈ words p'.variantName := by
      rw [hwords]
      exact List.mem_append_left _ (List.getLast_mem hne)
    obtain ⟨t, ht⟩ := exists_name_eq_of_mem_words hmem (by omega)
    refine hlast t ?_
    rw [List.getLast?_append_of_ne_nil _ hne, List.getLast?_eq_some_getLast hne, ht]

/-- Words in a row can be told apart when the libraries hold equally many dashes and so do the
versions. -/
theorem words_append_inj (hlibrary : dashes libname = dashes libname')
    (hversion : dashes version = dashes version') {p p' : Profile} :
    words libname ++ words version ++ words p.variantName =
        words libname' ++ words version' ++ words p'.variantName ↔
      libname = libname' ∧ version = version' ∧ p.requestedTags = p'.requestedTags := by
  have hlibrary : (words libname).length = (words libname').length := by
    rw [length_words, length_words, hlibrary]
  have hversion : (words version).length = (words version').length := by
    rw [length_words, length_words, hversion]
  constructor
  · intro h
    obtain ⟨hfront, hvariant⟩ := List.append_inj h (by
      rw [List.length_append, List.length_append, hlibrary, hversion])
    obtain ⟨hlibname, hversion⟩ := List.append_inj hfront hlibrary
    exact ⟨words_inj.mp hlibname, words_inj.mp hversion,
      Profile.variantName_inj.mp (words_inj.mp hvariant)⟩
  · rintro ⟨rfl, rfl, htags⟩
    rw [Profile.variantName_inj.mpr htags]

/-- Where neither version ends in a tag's name, rows of words that are the same hold equally many
words before the variant. -/
theorem dashes_add_eq {p p' : Profile} (hversion : ¬ EndsInTag version)
    (hversion' : ¬ EndsInTag version')
    (h : words libname ++ words version ++ words p.variantName =
      words libname' ++ words version' ++ words p'.variantName) :
    dashes libname + dashes version = dashes libname' + dashes version' := by
  have hlast {libname version : String} (hversion : ¬ EndsInTag version) (t : Tag) :
      (words libname ++ words version).getLast? ≠ some t.name.toList := by
    have hne : words version ≠ [] := List.splitOn_ne_nil '-' _
    rw [List.getLast?_append_of_ne_nil _ hne]
    exact fun ht ↦ hversion ⟨t, ht⟩
  have hle := length_words_variantName_le h (hlast hversion)
  have hle' := length_words_variantName_le h.symm (hlast hversion')
  have hlength := congrArg List.length h
  simp only [List.length_append, length_words] at hle hle' hlength
  omega

/-- Install directories below one root are the same exactly when the library, the version and the
variant, cut at their dashes, give the same words in a row. Each library version and variant has a
directory of its own among those whose libraries hold equally many dashes and whose versions do; and
where neither version ends in a tag's name, one of these is enough. -/
theorem installDirectory_isolates (root : Path) (libname version libname' version' : String)
    (hlibname : '/' ∉ libname.toList) (hversion : '/' ∉ version.toList)
    (hlibname' : '/' ∉ libname'.toList) (hversion' : '/' ∉ version'.toList) (p p' : Profile) :
    (installDirectory root libname version p = installDirectory root libname' version' p' ↔
      words libname ++ words version ++ words p.variantName =
        words libname' ++ words version' ++ words p'.variantName) ∧
    (dashes libname = dashes libname' → dashes version = dashes version' →
      (installDirectory root libname version p = installDirectory root libname' version' p' ↔
        libname = libname' ∧ version = version' ∧ p.requestedTags = p'.requestedTags)) ∧
    (¬ EndsInTag version → ¬ EndsInTag version' →
      dashes libname = dashes libname' ∨ dashes version = dashes version' →
      (installDirectory root libname version p = installDirectory root libname' version' p' ↔
        libname = libname' ∧ version = version' ∧ p.requestedTags = p'.requestedTags)) := by
  have hwords := installDirectory_eq_iff_words root hlibname hversion hlibname' hversion' p p'
  refine ⟨hwords, ?_, ?_⟩
  · intro hlibrary hversion
    rw [hwords, words_append_inj hlibrary hversion]
  · intro hends hends' hone
    rw [hwords]
    constructor
    · intro h
      have hsum := dashes_add_eq hends hends' h
      exact (words_append_inj (by omega) (by omega)).mp h
    · rintro ⟨rfl, rfl, htags⟩
      rw [Profile.variantName_inj.mpr htags]

/-- Two libraries of one version, of which one name is the beginning of the other, have directories
of their own, and so have two variants of one of them. -/
theorem zlib_installDirectory_isolates :
    installDirectory (.ofString "opt") "zlib" "2.1" .plain ≠
        installDirectory (.ofString "opt") "zlib-ng" "2.1" .plain ∧
      installDirectory (.ofString "opt") "zlib-ng" "2.1" .plain ≠
        installDirectory (.ofString "opt") "zlib-ng" "2.1" (.ofTags (.ofList [.asan])) := by
  have hends : ¬ EndsInTag "2.1" := by
    rintro ⟨t, ht⟩
    revert ht
    cases t <;> decide
  obtain ⟨_, _, hlibraries⟩ := installDirectory_isolates (.ofString "opt") "zlib" "2.1" "zlib-ng"
    "2.1" (by decide) (by decide) (by decide) (by decide) .plain .plain
  obtain ⟨_, hvariants, _⟩ := installDirectory_isolates (.ofString "opt") "zlib-ng" "2.1" "zlib-ng"
    "2.1" (by decide) (by decide) (by decide) (by decide) .plain (.ofTags (.ofList [.asan]))
  constructor
  · intro h
    have hsame := ((hlibraries hends hends (.inr rfl)).mp h).1
    revert hsame
    decide
  · intro h
    have hsame := ((hvariants rfl rfl).mp h).2.2
    revert hsame
    decide

/-- A version that begins as a longer library's name ends shares that library's directory, and a
version that ends in a tag's name shares that of a variant that has the tag. -/
theorem dashed_names_share_directory :
    installDirectory (.ofString "opt") "zlib" "ng-2.1" .plain =
        installDirectory (.ofString "opt") "zlib-ng" "2.1" .plain ∧
      installDirectory (.ofString "opt") "zlib" "1.3-asan" (.ofTags (.ofList [.gcov])) =
        installDirectory (.ofString "opt") "zlib" "1.3" (.ofTags (.ofList [.asan, .gcov])) ∧
      "zlib" ≠ "zlib-ng" ∧ "1.3-asan" ≠ "1.3" ∧
      (Profile.ofTags (.ofList [.gcov])).requestedTags ≠
        (Profile.ofTags (.ofList [.asan, .gcov])).requestedTags := by
  decide +kernel

end Vendoring.Build
