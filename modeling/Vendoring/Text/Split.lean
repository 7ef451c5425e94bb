/-!
# Parts of a text

`splitOn` cuts a text at every occurrence of a separator; joining the parts by the separator gives
the text back. A text file may end its lines by a line feed, a carriage return or both. Reading one
makes every ending a single line feed; reading a document that has been loaded as text joins only
the pairs.
-/

namespace Vendoring.Text

/-- Make every line ending a line feed: a carriage return, alone or before a line feed, becomes
one. -/
def unifyNewlines : List Char → List Char
  | [] => []
  | '\r' :: '\n' :: rest => '\n' :: unifyNewlines rest
  | '\r' :: rest => '\n' :: unifyNewlines rest
  | c :: rest => c :: unifyNewlines rest

/-- A text with its line endings unified. -/
def unified (s : String) : String := String.ofList (unifyNewlines s.toList)

/-- Replace each carriage return and line feed pair by the line feed. -/
def joinNewlinePairs : List Char → List Char
  | [] => []
  | '\r' :: '\n' :: rest => '\n' :: joinNewlinePairs rest
  | c :: rest => c :: joinNewlinePairs rest

/-- The parts of a text between occurrences of a separator. -/
def splitOn (sep : Char) : List Char → List (List Char)
  | [] => [[]]
  | c :: rest =>
    if c = sep then [] :: splitOn sep rest
    else match splitOn sep rest with
      | [] => [[c]]
      | part :: parts => (c :: part) :: parts

/-- The lines of a text; the text after the last line feed is a line too. -/
def splitLines (s : String) : List String :=
  (splitOn '\n' s.toList).map String.ofList

/-- There is always a first part. -/
theorem splitOn_ne_nil (sep : Char) (cs : List Char) : splitOn sep cs ≠ [] := by
  cases cs with
  | nil => simp [splitOn]
  | cons c rest =>
    unfold splitOn
    split
    · simp
    · split <;> simp

/-- The parts joined by the separator are the text. -/
theorem intercalate_splitOn (sep : Char) (cs : List Char) :
    [sep].intercalate (splitOn sep cs) = cs := by
  induction cs with
  | nil => rfl
  | cons c rest ih =>
    unfold splitOn
    have hne := splitOn_ne_nil sep rest
    split
    · next h =>
      cases hs : splitOn sep rest with
      | nil => exact absurd hs hne
      | cons part parts =>
        rw [hs] at ih
        simp [List.intercalate, List.intersperse, h] at ih ⊢
        exact ih
    · cases hs : splitOn sep rest with
      | nil => exact absurd hs hne
      | cons part parts =>
        rw [hs] at ih
        cases parts <;> simp [List.intercalate, List.intersperse] at ih ⊢ <;> exact ih

/-- No part holds the separator. -/
theorem sep_notMem_splitOn {sep : Char} {cs part : List Char} (h : part ∈ splitOn sep cs) :
    sep ∉ part := by
  induction cs generalizing part with
  | nil => simp_all [splitOn]
  | cons c rest ih =>
    unfold splitOn at h
    split at h
    · rcases List.mem_cons.1 h with rfl | h
      · simp
      · exact ih h
    · next hc =>
      cases hs : splitOn sep rest with
      | nil => exact absurd hs (splitOn_ne_nil sep rest)
      | cons first parts =>
        rw [hs] at h ih
        rcases List.mem_cons.1 h with rfl | h
        · intro hm
          rcases List.mem_cons.1 hm with rfl | hm
          · exact hc rfl
          · exact ih List.mem_cons_self hm
        · exact ih (List.mem_cons_of_mem _ h)

/-- A text without carriage returns has uniform line endings already. -/
theorem unifyNewlines_eq_self {cs : List Char} (h : '\r' ∉ cs) : unifyNewlines cs = cs := by
  fun_induction unifyNewlines cs with
  | case1 => rfl
  | case2 rest ih => simp at h
  | case3 rest _ ih => simp at h
  | case4 c rest _ _ ih =>
    rw [ih (fun hm ↦ h (List.mem_cons_of_mem _ hm))]

/-- A text without carriage returns is unified already. -/
theorem unified_eq_self {s : String} (h : '\r' ∉ s.toList) : unified s = s := by
  rw [unified, unifyNewlines_eq_self h, String.ofList_toList]

/-- A text without carriage returns has no pair to join. -/
theorem joinNewlinePairs_eq_self {cs : List Char} (h : '\r' ∉ cs) : joinNewlinePairs cs = cs := by
  fun_induction joinNewlinePairs cs with
  | case1 => rfl
  | case2 rest ih => simp at h
  | case3 c rest _ ih =>
    rw [ih (fun hm ↦ h (List.mem_cons_of_mem _ hm))]

end Vendoring.Text
