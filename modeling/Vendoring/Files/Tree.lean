/-!
# File trees

A tree maps places to files and directories. A place is the list of the names from it up to the
root, the innermost first, so that the place of a directory is the tail of the place of each of its
entries. `find?` is the view of a tree: each operation is described by what it does to `find?`, and
the names in a directory depend on the view alone.
-/

namespace Vendoring.Files

/-- The names from a place up to the root, innermost first. -/
abbrev Location := List String

/-- What is at a place. -/
inductive Entry where
  | file (content : List UInt8)
  | directory
  deriving DecidableEq, Repr

/-- Whether an entry is a directory. -/
def Entry.isDirectory : Entry → Bool
  | directory => true
  | file _ => false

/-- The entries of a file system by place. -/
structure Tree where
  entries : List (Location × Entry)
  deriving DecidableEq, Repr

namespace Tree

/-- The tree in which only the root exists. -/
def empty : Tree := ⟨[]⟩

/-- What is at a place; the root is always a directory. -/
def find? (t : Tree) (l : Location) : Option Entry :=
  match l with
  | [] => some .directory
  | l => t.entries.lookup l

/-- Put an entry at a place, replacing what is there. -/
def put (t : Tree) (l : Location) (e : Entry) : Tree :=
  ⟨(l, e) :: t.entries.filter fun x ↦ x.1 ≠ l⟩

/-- Remove a place and everything below it. -/
def remove (t : Tree) (l : Location) : Tree :=
  ⟨t.entries.filter fun x ↦ !l.isSuffixOf x.1⟩

/-- The name that a place has in a directory, if it is one of its entries. -/
def nameIn? (directory : Location) : Location → Option String
  | [] => none
  | name :: above => if above = directory then some name else none

/-- The names of a directory's entries in code point order. -/
def names (t : Tree) (directory : Location) : List String :=
  (t.entries.filterMap fun x ↦ nameIn? directory x.1).eraseDups.mergeSort fun a b ↦ a ≤ b

/-- The greatest number of names in a place of the tree. -/
def depth (t : Tree) : Nat := t.entries.foldl (fun d x ↦ max d x.1.length) 0

/-- The places where a tree has an entry that differs from that of an older tree, in the order of
their entries. -/
def changesSince (old new : Tree) : List (Location × Entry) :=
  new.entries.filter fun x ↦ old.find? x.1 ≠ some x.2

/-- The root is a directory. -/
@[simp]
theorem find?_nil (t : Tree) : t.find? [] = some .directory := rfl

/-- What was put at a place is there. -/
@[simp]
theorem find?_put_self (t : Tree) {l : Location} (hl : l ≠ []) (e : Entry) :
    (t.put l e).find? l = some e := by
  cases l with
  | nil => exact absurd rfl hl
  | cons n l => simp [find?, put]

private theorem lookup_filter_ne (entries : List (Location × Entry)) {l m : Location}
    (h : m ≠ l) : (entries.filter fun x ↦ x.1 ≠ l).lookup m = entries.lookup m := by
  induction entries with
  | nil => rfl
  | cons x rest ih =>
    obtain ⟨k, e⟩ := x
    by_cases hk : k = l
    · subst hk
      have hm : (m == k) = false := by simpa using h
      simpa [List.lookup_cons, hm] using ih
    · simp only [ne_eq, hk, not_false_eq_true, decide_true, List.filter_cons_of_pos,
        List.lookup_cons]
      split
      · rfl
      · simpa using ih

/-- Putting an entry at a place leaves the other places as they are. -/
theorem find?_put_of_ne (t : Tree) {l m : Location} (h : m ≠ l) (e : Entry) :
    (t.put l e).find? m = t.find? m := by
  cases m with
  | nil => rfl
  | cons n m =>
    have hm : ((n :: m) == l) = false := by simpa using h
    simp only [find?, put, List.lookup_cons, hm]
    exact lookup_filter_ne t.entries h

/-- Putting an entry at a place changes the view there and nowhere else. -/
theorem find?_put (t : Tree) {l : Location} (hl : l ≠ []) (m : Location) (e : Entry) :
    (t.put l e).find? m = if m = l then some e else t.find? m := by
  split
  · next h => rw [h, find?_put_self t hl]
  · next h => exact find?_put_of_ne t h e

private theorem mem_of_lookup {entries : List (Location × Entry)} {l : Location} {e : Entry}
    (h : entries.lookup l = some e) : (l, e) ∈ entries := by
  induction entries with
  | nil => simp at h
  | cons x rest ih =>
    obtain ⟨k, v⟩ := x
    rw [List.lookup_cons] at h
    split at h
    · next hk =>
      have hk : l = k := by simpa using hk
      cases h
      simp [hk]
    · exact List.mem_cons_of_mem _ (ih h)

private theorem lookup_of_mem {entries : List (Location × Entry)} {l : Location} {e : Entry}
    (h : (l, e) ∈ entries) : ∃ e', entries.lookup l = some e' := by
  induction entries with
  | nil => simp at h
  | cons x rest ih =>
    obtain ⟨k, v⟩ := x
    rw [List.lookup_cons]
    split
    · exact ⟨v, rfl⟩
    · next hk =>
      have hk : l ≠ k := by simpa using hk
      rcases List.mem_cons.1 h with h | h
      · exact absurd (Prod.mk.inj h).1 hk
      · exact ih h

/-- A directory lists exactly the names at which it has an entry. -/
theorem mem_names {t : Tree} {directory : Location} {name : String} :
    name ∈ t.names directory ↔ ∃ e, t.find? (name :: directory) = some e := by
  simp only [names, List.mem_mergeSort, List.mem_eraseDups, List.mem_filterMap, find?]
  constructor
  · rintro ⟨⟨l, e⟩, hm, hn⟩
    cases l with
    | nil => simp [nameIn?] at hn
    | cons n above =>
      simp only [nameIn?] at hn
      split at hn
      · next h =>
        cases hn
        subst h
        exact lookup_of_mem hm
      · simp at hn
  · rintro ⟨e, h⟩
    exact ⟨(name :: directory, e), mem_of_lookup h, by simp [nameIn?]⟩

end Tree
end Vendoring.Files
