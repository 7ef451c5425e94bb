import Mathlib.Data.List.Sort
import Vendoring.Proofs.Files.Sound

/-!
# Below a directory

Names that are followed from a directory and never lead above it again stay in the part of the tree
below it: where they lead depends on that part alone. The same holds for the names in a directory.
Files are put where a path leads and no directory is, and what is put there keeps the laws of a file
system.
-/

namespace Vendoring.Files

open Attempt

/-! ### Names in a directory -/

private theorem nodup_eraseDups {α : Type} [BEq α] [LawfulBEq α] (l : List α) :
    l.eraseDups.Nodup := by
  induction hn : l.length using Nat.strongRecOn generalizing l with
  | ind n ih =>
      cases l with
      | nil => exact List.nodup_nil
      | cons a l =>
          rw [List.eraseDups_cons, List.nodup_cons]
          constructor
          · simp
          · refine ih _ ?_ _ rfl
            rw [← hn, List.length_cons]
            exact Nat.lt_succ_of_le (List.length_filter_le _ _)

private theorem pairwise_names (t : Tree) (directory : Location) :
    (t.names directory).Pairwise (· ≤ ·) := by
  have h : (t.names directory).Pairwise fun a b ↦ decide (a ≤ b) = true := by
    refine List.pairwise_mergeSort ?_ ?_ _
    · intro a b c hab hbc
      exact decide_eq_true (String.le_trans (of_decide_eq_true hab) (of_decide_eq_true hbc))
    · intro a b
      simpa using String.le_total a b
  exact h.imp of_decide_eq_true

/-- The names in a directory are in code point order, each of them once. -/
theorem Tree.pairwise_lt_names (t : Tree) (directory : Location) :
    (t.names directory).Pairwise (· < ·) := by
  have hnodup : (t.names directory).Nodup :=
    (List.mergeSort_perm _ _).nodup_iff.mpr (nodup_eraseDups _)
  refine ((pairwise_names t directory).and hnodup).imp fun ⟨hle, hne⟩ ↦ ?_
  exact String.not_le.mp fun hge ↦ hne (String.le_antisymm hle hge)

/-- The names in a directory that have a property depend on what is there by such names alone. -/
theorem Tree.filter_names_congr {t t' : Tree} {directory : Location} {keep : String → Bool}
    (h : ∀ name, keep name = true → t.find? (name :: directory) = t'.find? (name :: directory)) :
    (t.names directory).filter keep = (t'.names directory).filter keep := by
  have hmem : ∀ name, name ∈ (t.names directory).filter keep ↔
      name ∈ (t'.names directory).filter keep := by
    intro name
    rw [List.mem_filter, List.mem_filter, mem_names, mem_names]
    exact and_congr_left fun hname ↦ by rw [h name hname]
  have hnodup : ∀ t : Tree, ((t.names directory).filter keep).Nodup := fun t ↦
    ((List.mergeSort_perm _ _).nodup_iff.mpr (nodup_eraseDups _)).filter _
  have hsorted : ∀ t : Tree, ((t.names directory).filter keep).Pairwise (· ≤ ·) := fun t ↦
    (pairwise_names t directory).filter _
  exact ((List.perm_ext_iff_of_nodup (hnodup t) (hnodup t')).mpr hmem).eq_of_pairwise
    (fun _ _ _ _ ↦ String.le_antisymm) (hsorted t) (hsorted t')

/-- The names in a directory can be sorted by insertion as well, which evaluates. -/
theorem Tree.names_eq_insertionSort (t : Tree) (directory : Location) :
    t.names directory = (t.entries.filterMap fun x ↦
      nameIn? directory x.1).eraseDups.insertionSort (· ≤ ·) :=
  List.mergeSort_eq_insertionSort (· ≤ ·) _

/-- The names in a directory depend on what is there alone. -/
theorem Tree.names_congr {t t' : Tree} {directory : Location}
    (h : ∀ name, t.find? (name :: directory) = t'.find? (name :: directory)) :
    t.names directory = t'.names directory := by
  have hall : (t.names directory).filter (fun _ ↦ true) =
      (t'.names directory).filter (fun _ ↦ true) :=
    filter_names_congr fun name _ ↦ h name
  rwa [List.filter_true, List.filter_true] at hall

private theorem le_foldl_max (entries : List (Location × Entry)) (d : Nat) :
    d ≤ entries.foldl (fun d x ↦ max d x.1.length) d := by
  induction entries generalizing d with
  | nil => exact Nat.le_refl d
  | cons x entries ih => exact Nat.le_trans (Nat.le_max_left _ _) (ih _)

/-- A place with an entry has at most as many names as the tree is deep. -/
theorem Tree.length_le_depth {t : Tree} {l : Location} {e : Entry} (h : t.find? l = some e) :
    l.length ≤ t.depth := by
  cases l with
  | nil => exact Nat.zero_le _
  | cons name l =>
      obtain ⟨entries⟩ := t
      replace h : entries.lookup (name :: l) = some e := h
      unfold Tree.depth
      generalize 0 = d
      dsimp only
      induction entries generalizing d with
      | nil => cases h
      | cons x entries ih =>
          obtain ⟨k, found⟩ := x
          rw [List.lookup_cons] at h
          rw [List.foldl_cons]
          split at h
          · next hk =>
              obtain rfl : name :: l = k := by simpa using hk
              exact Nat.le_trans (Nat.le_max_right _ _) (le_foldl_max entries _)
          · exact ih h (max d k.length)

/-! ### Names that stay below a directory -/

/-- Names that, followed from a number of levels below a directory, never lead above it. -/
def staysBelow : Nat → List String → Bool
  | _, [] => true
  | level, name :: rest =>
    if name = ".." then 0 < level && staysBelow (level - 1) rest
    else staysBelow (level + 1) rest

/-- A name at the end stays below the directory. -/
theorem staysBelow_concat {level : Nat} {names : List String} (h : staysBelow level names = true)
    {name : String} (hname : name ≠ "..") : staysBelow level (names ++ [name]) = true := by
  induction names generalizing level with
  | nil =>
      rw [List.nil_append, staysBelow, if_neg hname]
      rfl
  | cons first names ih =>
      rw [staysBelow] at h
      rw [List.cons_append, staysBelow]
      split at h
      · next hdots =>
          obtain ⟨hlevel, hrest⟩ := Bool.and_eq_true_iff.mp h
          rw [if_pos hdots, hlevel, ih hrest]
          rfl
      · next hfirst =>
          rw [if_neg hfirst]
          exact ih h

/-- Plain names stay below the directory. -/
theorem staysBelow_of_ne_dots {names : List String} (h : ∀ name ∈ names, name ≠ "..")
    (level : Nat) : staysBelow level names = true := by
  induction names generalizing level with
  | nil => rfl
  | cons name names ih =>
      rw [staysBelow, if_neg (h name List.mem_cons_self)]
      exact ih (fun n hn ↦ h n (List.mem_cons_of_mem _ hn)) _

/-- The place that names lead to that stay below a directory is in it. -/
theorem suffix_foldl_of_staysBelow {m : Location} {names : List String} (l : List String)
    (h : staysBelow l.length names = true) :
    m <:+ names.foldl (fun l name ↦ if name = ".." then l.tail else name :: l) (l ++ m) := by
  induction names generalizing l with
  | nil => exact List.suffix_append l m
  | cons name names ih =>
      rw [staysBelow] at h
      rw [List.foldl_cons]
      split at h
      · next hdots =>
          rw [if_pos hdots]
          cases l with
          | nil => cases h
          | cons first l => exact ih l (Bool.and_eq_true_iff.mp h).2
      · next hname =>
          rw [if_neg hname]
          exact ih (name :: l) h

/-- A path in normal form that goes on from another and never leads above it. -/
structure Path.IsInside (p root : Path) : Prop where
  normal : p.IsNormal
  onward : ∃ parts, p = root.onward parts ∧ staysBelow 0 parts = true

namespace Path.IsInside

variable {p root : Path} {name : String}

/-- A plain path is inside itself. -/
theorem refl (hp : p.IsPlain) : p.IsInside p :=
  ⟨hp.isNormal, [], p.onward_nil.symm, rfl⟩

/-- An entry of a path inside another is inside it. -/
theorem entry (hp : p.IsInside root) (hname : IsName name) : (p.entry name).IsInside root := by
  obtain ⟨parts, rfl, hparts⟩ := hp.onward
  exact ⟨hp.normal.entry hname.toIsPart, parts ++ [name], Path.entry_onward root parts name,
    staysBelow_concat hparts hname.ne_dots⟩

end Path.IsInside

/-- A text names something inside of the directory that it is read below. -/
def Path.StaysInside (s : String) : Prop :=
  (Path.ofString s).anchor = .relative ∧ staysBelow 0 (Path.ofString s).parts = true

instance (s : String) : Decidable (Path.StaysInside s) :=
  inferInstanceAs (Decidable (_ ∧ _))

/-- What such a text names is inside of the path. -/
theorem Path.StaysInside.below {s : String} (hs : Path.StaysInside s) {p : Path}
    (hp : p.IsNormal) : (p.below s).IsInside p := by
  refine ⟨hp.below s, (Path.ofString s).parts, ?_, hs.2⟩
  unfold Path.below Path.join
  rw [hs.1]
  rfl

/-- The name of a path in normal form stays inside of every directory, unless it leads upwards. -/
theorem Path.IsNormal.staysInside_name {p : Path} (hp : p.IsNormal) (hname : p.name ≠ "..") :
    Path.StaysInside p.name := by
  by_cases hempty : p.name = ""
  · rw [hempty]
    decide
  · unfold Path.StaysInside
    rw [Path.ofString_of_isPart (hp.isPart_name hempty)]
    refine ⟨rfl, staysBelow_of_ne_dots (fun name h ↦ ?_) 0⟩
    rw [List.mem_singleton.mp h]
    exact hname

namespace Workspace

/-- Names that stay below a directory are followed alike in trees that are the same there. -/
theorem walk_congr {t t' : Tree} {m : Location}
    (h : ∀ k, m <:+ k → t.find? k = t'.find? k) {names : List String} (l : List String)
    (hnames : staysBelow l.length names = true) :
    walk t (l ++ m) names = walk t' (l ++ m) names := by
  induction names generalizing l with
  | nil => rfl
  | cons name names ih =>
      rw [staysBelow] at hnames
      rw [walk, walk, ← h _ (List.suffix_append l m)]
      rcases t.find? (l ++ m) with _ | (bytes | _)
      · rfl
      · rfl
      · dsimp only
        split at hnames
        · next hdots =>
            rw [if_pos hdots, if_pos hdots]
            cases l with
            | nil => cases hnames
            | cons first l => exact ih l (Bool.and_eq_true_iff.mp hnames).2
        · next hname =>
            rw [if_neg hname, if_neg hname]
            split
            · exact ih (name :: l) hnames
            · rfl

variable {w v : Workspace} {p root : Path} {l : Location}

/-- A path inside another leads into the other's place. -/
theorem suffix_of_resolve (hp : p.IsInside root) (h : w.resolve p = .ok l) :
    w.place root <:+ l := by
  obtain ⟨parts, rfl, hparts⟩ := hp.onward
  rw [← place_of_resolve h, place_onward]
  exact suffix_foldl_of_staysBelow [] hparts

/-- What a path inside another leads to is a directory only if the other one is. -/
theorem directory_of_isDirectory (hw : w.Sound) (hroot : root.IsPlain) (hp : p.IsInside root)
    (h : w.isDirectory p = true) : w.tree.find? (w.place root) = some .directory := by
  obtain ⟨parts, rfl, _⟩ := hp.onward
  cases parts with
  | nil =>
      rw [Path.onward_nil] at h
      exact (isDirectory_of_isPlain hw hroot).mp h
  | cons first rest =>
      by_cases hne : w.tree.find? (w.place root) = some .directory
      · exact hne
      · unfold isDirectory at h
        rw [find?_onward_of_ne hw hroot (List.cons_ne_nil _ _) hne] at h
        cases h

/-- The names that a path leads to are names of entries. -/
theorem exists_of_mem_names {name : String} (h : name ∈ w.names p) :
    ∃ l e, w.resolve p = .ok l ∧ w.tree.find? l = some .directory ∧
      w.tree.find? (name :: l) = some e := by
  unfold names at h
  cases hlead : w.resolve p with
  | error e =>
      rw [hlead] at h
      cases h
  | ok l =>
      rw [hlead] at h
      dsimp only at h
      split at h
      · next hdirectory =>
          obtain ⟨m, hm, hl⟩ := isDirectory_iff.mp hdirectory
          cases hlead.symm.trans hm
          obtain ⟨e, he⟩ := Tree.mem_names.mp h
          exact ⟨l, e, rfl, hl, he⟩
      · cases h

/-- A path that leads to a directory has the names that are in it. -/
theorem names_of_resolve (hlead : w.resolve p = .ok l) (hl : w.tree.find? l = some .directory) :
    w.names p = w.tree.names l := by
  have hthere := isDirectory_iff.mpr ⟨l, hlead, hl⟩
  unfold names
  rw [hlead]
  exact if_pos hthere

/-- What a path leads to has names only if it is a directory. -/
theorem names_eq_nil_of_not_isDirectory (h : w.isDirectory p = false) : w.names p = [] := by
  unfold names
  rw [h]
  cases w.resolve p <;> rfl

/-! ### New entries -/

private theorem exists_cons_of_walk (hw : w.Sound) {names : List String} {m : Location}
    (hm : w.tree.find? m = some .directory) (h : walk w.tree m names = .ok l)
    (hl : w.tree.find? l ≠ some .directory) :
    ∃ name k, l = name :: k ∧ w.tree.find? k = some .directory ∧ name ∈ names ∧ name ≠ ".." ∧
      isShort name = true := by
  induction names generalizing m with
  | nil =>
      cases h
      exact absurd hm hl
  | cons name names ih =>
      rw [walk, hm] at h
      dsimp only at h
      split at h
      · have habove : w.tree.find? m.tail = some .directory := by
          cases m with
          | nil => rfl
          | cons first m => exact hw.above first m _ hm
        obtain ⟨n, k, hlk, hk, hn, hdots⟩ := ih habove h
        exact ⟨n, k, hlk, hk, List.mem_cons_of_mem _ hn, hdots⟩
      · next hname =>
          split at h
          · next hshort =>
              cases names with
              | nil =>
                  cases h
                  exact ⟨name, m, rfl, hm, List.mem_cons_self, hname, hshort⟩
              | cons next rest =>
                  rcases hnext : w.tree.find? (name :: m) with _ | (bytes | _)
                  · rw [walk, hnext] at h
                    cases h
                  · rw [walk, hnext] at h
                    cases h
                  · obtain ⟨n, k, hlk, hk, hn, hdots⟩ := ih hnext h
                    exact ⟨n, k, hlk, hk, List.mem_cons_of_mem _ hn, hdots⟩
          · cases h

/-- A path that leads to a place without a directory names an entry of a directory. -/
theorem exists_cons_of_resolve (hw : w.Sound) (h : w.resolve p = .ok l)
    (hl : w.tree.find? l ≠ some .directory) :
    ∃ name k, l = name :: k ∧ w.tree.find? k = some .directory ∧ name ∈ p.parts ∧ name ≠ ".." ∧
      isShort name = true :=
  exists_cons_of_walk hw (hw.start p) h hl

/-- An entry with a name that is put into a directory where no directory is keeps a workspace
sound. -/
theorem Sound.put (hw : w.Sound) {name : String} (hname : IsName name)
    (habove : w.tree.find? l = some .directory)
    (hl : w.tree.find? (name :: l) ≠ some .directory) (e : Entry) :
    Sound { w with tree := w.tree.put (name :: l) e } where
  here := (KeepsDirectories.put e hl).directory _ hw.here
  above n k found hfound := by
    refine (KeepsDirectories.put e hl).directory k ?_
    dsimp only at hfound
    rw [Tree.find?_put _ (List.cons_ne_nil _ _)] at hfound
    split at hfound
    · next heq =>
        cases heq
        exact habove
    · exact hw.above n k found hfound
  named n k found hfound := by
    dsimp only at hfound
    rw [Tree.find?_put _ (List.cons_ne_nil _ _)] at hfound
    split at hfound
    · next heq =>
        cases heq
        exact hname
    · exact hw.named n k found hfound

end Workspace
end Vendoring.Files
