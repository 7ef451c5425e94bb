import Mathlib.Data.List.TakeWhile
import Vendoring.Files.Copy
import Vendoring.Proofs.Text.Parts

/-!
# Paths as text

A part of a path is not empty, not a single dot, and holds no slash. The text of a path of such
parts is read back as the path, and so is the text of an entry found by listing a directory.
-/

namespace Vendoring.Files

open Vendoring.Text

/-- What a path read from text may hold as a part: it is not empty, not a single dot, and holds no
slash. -/
structure IsPart (part : String) : Prop where
  ne_empty : part ≠ ""
  ne_dot : part ≠ "."
  slash_notMem : '/' ∉ part.toList

namespace Path

/-- A path in the normal form that reading it from text gives. -/
def IsNormal (p : Path) : Prop := ∀ part ∈ p.parts, IsPart part

/-- A path read from text is in normal form. -/
theorem isNormal_ofString (s : String) : (ofString s).IsNormal := by
  intro part hpart
  have hslash := slash_notMem_parts_ofString hpart
  obtain ⟨cs, hm, rfl⟩ := List.mem_map.mp hpart
  have hkept := of_decide_eq_true (List.mem_filter.mp hm).2
  refine ⟨?_, ?_, hslash⟩
  · intro h
    exact hkept.1 (by simpa using congrArg String.toList h)
  · intro h
    exact hkept.2 (by simpa using congrArg String.toList h)

/-- An entry of a path in normal form is in normal form. -/
theorem IsNormal.entry {p : Path} (hp : p.IsNormal) {name : String} (hname : IsPart name) :
    (p.entry name).IsNormal := by
  intro part hpart
  rcases List.mem_append.mp hpart with h | h
  · exact hp part h
  · rw [List.mem_singleton.mp h]
    exact hname

/-- A path below one in normal form is in normal form. -/
theorem IsNormal.below {p : Path} (hp : p.IsNormal) (s : String) : (p.below s).IsNormal := by
  have hs := isNormal_ofString s
  unfold Path.below join
  split
  · intro part hpart
    rcases List.mem_append.mp hpart with h | h
    · exact hp part h
    · exact hs part h
  · exact hs

/-- The name of a path in normal form is a part, unless there is none. -/
theorem IsNormal.isPart_name {p : Path} (hp : p.IsNormal) (hname : p.name ≠ "") :
    IsPart p.name := by
  unfold name at hname ⊢
  cases hlast : p.parts.getLast? with
  | none =>
      rw [hlast] at hname
      exact absurd rfl hname
  | some part => exact hp part (List.mem_of_getLast? hlast)

/-! ### The parts of a text -/

/-- The parts of two texts around a slash are those of both. -/
theorem partsOf_append_slash (cs rest : List Char) :
    partsOf (cs ++ '/' :: rest) = partsOf cs ++ partsOf rest := by
  unfold partsOf
  rw [splitOn_append_cons, List.filter_append, List.map_append]

/-- A part is its own only part. -/
theorem partsOf_of_isPart {part : String} (h : IsPart part) : partsOf part.toList = [part] := by
  have hempty : part.toList ≠ [] := fun hnil ↦ h.ne_empty (String.toList_eq_nil_iff.mp hnil)
  have hdot : part.toList ≠ ['.'] := fun hdot ↦ h.ne_dot (String.toList_inj.mp hdot)
  unfold partsOf
  rw [splitOn_of_notMem h.slash_notMem]
  simp [hempty, hdot]

/-- The parts of parts joined by slashes are the parts. -/
theorem partsOf_intercalate {parts : List String} (h : ∀ part ∈ parts, IsPart part) :
    partsOf (['/'].intercalate (parts.map String.toList)) = parts := by
  induction parts with
  | nil => rfl
  | cons part parts ih =>
      have hpart := partsOf_of_isPart (h part List.mem_cons_self)
      cases parts with
      | nil => rw [List.map_singleton, List.intercalate_singleton, hpart]
      | cons next parts =>
          have hrest := ih fun p hp ↦ h p (List.mem_cons_of_mem _ hp)
          rw [List.map_cons, List.map_cons, List.intercalate_cons_cons, List.append_assoc,
            List.singleton_append, partsOf_append_slash, hpart, ← List.map_cons, hrest]
          rfl

/-! ### Leading slashes -/

/-- A text that starts with a part has no leading slash. -/
theorem takeWhile_slash_part {part : String} (h : IsPart part) (rest : List Char) :
    (part.toList ++ rest).takeWhile (· == '/') = [] := by
  cases hcs : part.toList with
  | nil => exact absurd (String.toList_eq_nil_iff.mp hcs) h.ne_empty
  | cons c cs =>
      have hc : c ≠ '/' := fun hc ↦ h.slash_notMem (hcs ▸ hc ▸ List.mem_cons_self)
      simp [hc]

private theorem takeWhile_slash_intercalate {parts : List String}
    (h : ∀ part ∈ parts, IsPart part) :
    (['/'].intercalate (parts.map String.toList)).takeWhile (· == '/') = [] := by
  cases parts with
  | nil => rfl
  | cons part parts =>
      have hpart := takeWhile_slash_part (h part List.mem_cons_self)
      cases parts with
      | nil => simpa using hpart []
      | cons next parts =>
          rw [List.map_cons, List.map_cons, List.intercalate_cons_cons, List.append_assoc]
          exact hpart _

/-- What follows a text that does not end with a slash does not change its leading slashes. -/
theorem takeWhile_slash_append {cs : List Char} (hne : cs ≠ []) (h : cs.getLast hne ≠ '/')
    (rest : List Char) :
    (cs ++ rest).takeWhile (· == '/') = cs.takeWhile (· == '/') := by
  rw [List.takeWhile_append, if_neg]
  intro hall
  have hself := (List.takeWhile_sublist (· == '/')).eq_of_length hall
  have hlast := List.takeWhile_eq_self_iff.mp hself _ (List.getLast_mem hne)
  exact h (by simpa using hlast)

/-! ### Reading a path's text back -/

/-- The text of a path in normal form is read back as the path. -/
theorem ofString_text {p : Path} (hp : p.IsNormal) : ofString p.text = p := by
  obtain ⟨anchor, parts⟩ := p
  have hparts := partsOf_intercalate hp
  have hslash := takeWhile_slash_intercalate hp
  have hchars : (anchor.text ++ "/".intercalate parts).toList =
      anchor.text.toList ++ ['/'].intercalate (parts.map String.toList) := by
    rw [String.toList_append, String.toList_intercalate]
    rfl
  generalize ['/'].intercalate (parts.map String.toList) = joined at hparts hslash hchars
  unfold text
  dsimp only
  split
  · next hempty =>
      -- Only the current directory has no text of its own.
      have hnil : anchor.text.toList ++ joined = [] := by
        rw [← hchars, String.isEmpty_iff.mp hempty]
        rfl
      obtain ⟨hanchor, rfl⟩ := List.append_eq_nil_iff.mp hnil
      cases anchor with
      | relative =>
          cases hparts
          rfl
      | root => cases hanchor
      | doubleRoot => cases hanchor
  · unfold ofString
    dsimp only
    rw [hchars]
    cases anchor with
    | relative =>
        show Path.mk (anchorOf (joined.takeWhile (· == '/')).length) (partsOf joined) = _
        rw [hslash, hparts]
        rfl
    | root =>
        show Path.mk (anchorOf ((joined.takeWhile (· == '/')).length + 1))
          (partsOf ([] ++ '/' :: joined)) = _
        rw [partsOf_append_slash, hslash, hparts]
        rfl
    | doubleRoot =>
        show Path.mk (anchorOf ((joined.takeWhile (· == '/')).length + 1 + 1))
          (partsOf ([] ++ '/' :: ([] ++ '/' :: joined))) = _
        rw [partsOf_append_slash, partsOf_append_slash, hslash, hparts]
        rfl

/-! ### Texts of entries -/

private theorem exists_intercalate_concat (parts : List (List Char)) :
    ∃ above, ∀ name, ['/'].intercalate (parts ++ [name]) = above ++ name := by
  induction parts with
  | nil => exact ⟨[], fun name ↦ List.intercalate_singleton⟩
  | cons part parts ih =>
      obtain ⟨above, habove⟩ := ih
      refine ⟨part ++ ['/'] ++ above, fun name ↦ ?_⟩
      rw [List.append_assoc, ← habove name]
      cases parts with
      | nil => exact List.intercalate_cons_cons
      | cons next rest => exact List.intercalate_cons_cons

/-- Entries of one directory with different names have different texts. -/
theorem text_entry_inj {p : Path} {a b : String} (ha : a ≠ "") (hb : b ≠ "") :
    (p.entry a).text = (p.entry b).text ↔ a = b := by
  refine ⟨fun h ↦ ?_, fun h ↦ h ▸ rfl⟩
  obtain ⟨above, habove⟩ := exists_intercalate_concat (p.parts.map String.toList)
  have hchars : ∀ name, (p.anchor.text ++ "/".intercalate (p.parts ++ [name])).toList =
      (p.anchor.text.toList ++ above) ++ name.toList := by
    intro name
    rw [String.toList_append, String.toList_intercalate, List.map_append, List.append_assoc,
      ← habove]
    rfl
  have htext : ∀ name, name ≠ "" → (p.entry name).text.toList =
      (p.anchor.text.toList ++ above) ++ name.toList := by
    intro name hname
    rw [← hchars name]
    unfold text entry
    dsimp only
    rw [if_neg]
    intro hempty
    have hnil := hchars name
    rw [String.isEmpty_iff.mp hempty] at hnil
    exact hname (String.toList_eq_nil_iff.mp (List.append_eq_nil_iff.mp hnil.symm).2)
  have hlists := congrArg String.toList h
  rw [htext a ha, htext b hb] at hlists
  exact String.toList_inj.mp (List.append_cancel_left hlists)

private theorem mem_intercalate_slash {c : Char} (hc : c ≠ '/') (parts : List (List Char)) :
    c ∈ ['/'].intercalate parts ↔ ∃ part ∈ parts, c ∈ part := by
  induction parts with
  | nil => simp
  | cons part parts ih =>
      cases parts with
      | nil => simp [List.intercalate_singleton]
      | cons next rest =>
          rw [List.intercalate_cons_cons, List.mem_append, ih]
          simp [hc]

/-- The text of a path has the characters of its parts, slashes and dots aside. -/
theorem mem_text_iff {p : Path} {c : Char} (hslash : c ≠ '/') (hdot : c ≠ '.') :
    c ∈ p.text.toList ↔ ∃ part ∈ p.parts, c ∈ part.toList := by
  have hanchor : c ∉ p.anchor.text.toList := by
    cases p.anchor with
    | relative => simp [Anchor.text]
    | root => simp [Anchor.text, hslash]
    | doubleRoot => simp [Anchor.text, hslash]
  have hchars : c ∈ (p.anchor.text ++ "/".intercalate p.parts).toList ↔
      ∃ part ∈ p.parts, c ∈ part.toList := by
    rw [String.toList_append, List.mem_append, String.toList_intercalate]
    show c ∈ p.anchor.text.toList ∨ c ∈ ['/'].intercalate (p.parts.map String.toList) ↔ _
    rw [mem_intercalate_slash hslash]
    simp [hanchor]
  unfold text
  dsimp only
  split
  · next hempty =>
      rw [← hchars, String.isEmpty_iff.mp hempty]
      simp [hdot]
  · exact hchars

/-- A path holds a null character exactly when one of its parts does. -/
theorem holdsNull_iff {p : Path} :
    p.holdsNull = true ↔ ∃ part ∈ p.parts, '\x00' ∈ part.toList := by
  rw [holdsNull, List.contains_iff_mem]
  exact mem_text_iff (by decide) (by decide)

/-- An entry named without a null character holds one exactly when its directory does. -/
theorem holdsNull_entry {p : Path} {name : String} (hname : '\x00' ∉ name.toList) :
    (p.entry name).holdsNull = p.holdsNull := by
  rw [Bool.eq_iff_iff, holdsNull_iff, holdsNull_iff]
  simp [entry, or_and_right, exists_or, hname]

/-- A part is read as the path of that part alone. -/
theorem ofString_of_isPart {part : String} (h : IsPart part) :
    ofString part = ⟨.relative, [part]⟩ := by
  have hslash := takeWhile_slash_part h []
  rw [List.append_nil] at hslash
  unfold ofString
  dsimp only
  rw [hslash, partsOf_of_isPart h]
  rfl

/-- What a part names below a path is an entry of the path. -/
theorem below_of_isPart (p : Path) {part : String} (h : IsPart part) :
    p.below part = p.entry part := by
  unfold below join
  rw [ofString_of_isPart h]
  rfl

/-- The text of an entry found by listing a directory is read as the entry. -/
theorem ofString_entryText {directory name : String} (hdirectory : directory ≠ "")
    (hname : IsPart name) :
    ofString (Reference.entryText directory name) = (ofString directory).entry name := by
  have hnameParts := partsOf_of_isPart hname
  have hnameSlash := takeWhile_slash_part hname []
  have hends : directory.endsWith "/" = true ↔ ['/'] <:+ directory.toList := by
    show directory.toSlice.endsWith "/" = true ↔ "/".toList <:+ directory.toList
    rw [String.Slice.endsWith_string_iff, String.copy_toSlice]
  have hne : directory.toList ≠ [] := fun h ↦ hdirectory (String.toList_eq_nil_iff.mp h)
  unfold Reference.entryText ofString Path.entry
  dsimp only
  split
  · next h =>
      obtain ⟨cs, hcs⟩ := hends.mp h
      have hslash : (directory.toList ++ name.toList).takeWhile (· == '/') =
          directory.toList.takeWhile (· == '/') := by
        rw [List.append_nil] at hnameSlash
        rw [List.takeWhile_append, hnameSlash, List.append_nil]
        split
        · next hall => exact ((List.takeWhile_sublist _).eq_of_length hall).symm
        · rfl
      have hempty : partsOf [] = [] := rfl
      rw [String.toList_append, hslash, ← hcs, List.append_assoc, List.singleton_append,
        partsOf_append_slash, partsOf_append_slash, hnameParts, hempty, List.append_nil]
  · next h =>
      have hlast : directory.toList.getLast hne ≠ '/' := by
        intro hslash
        apply h
        rw [hends]
        refine ⟨directory.toList.dropLast, ?_⟩
        rw [← hslash, List.dropLast_concat_getLast]
      have hchars : (directory ++ "/" ++ name).toList = directory.toList ++ '/' :: name.toList := by
        simp [String.toList_append]
      rw [hchars, takeWhile_slash_append hne hlast, partsOf_append_slash, hnameParts]

/-- The path of an entry found by listing a directory is the entry of its path. -/
theorem path_listed {directory name : String} (hdirectory : directory ≠ "") (hname : IsPart name) :
    (Reference.listed directory name).path = (ofString directory).entry name :=
  ofString_entryText hdirectory hname

end Path
end Vendoring.Files
