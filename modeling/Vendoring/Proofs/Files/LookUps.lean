import Vendoring.Proofs.Files.Ways
import Vendoring.Proofs.Text.Utf8

/-!
# Looking paths up

What the system tells of a path is what the path leads to, unless the path is refused: for its text,
which does not depend on the files, or for a name that is too long. A path that is told to lead to a
directory goes on doing so as long as no directory is lost.
-/

namespace Vendoring.Files

namespace Workspace

variable {w v : Workspace} {p : Path} {l : Location} {e : Entry}

/-- A path that leads somewhere is not refused. -/
theorem refusesName_of_resolve (h : w.resolve p = .ok l) : w.refusesName p = false := by
  rw [refusesName, h]

private theorem walk_ne_nameTooLong (t : Tree) (l : Location) {names : List String}
    (hnames : ∀ name ∈ names, isShort name = true) : walk t l names ≠ .error .nameTooLong := by
  induction names generalizing l with
  | nil => simp [walk]
  | cons name names ih =>
      have hrest := fun l ↦ ih l fun n hn ↦ hnames n (List.mem_cons_of_mem _ hn)
      rw [walk]
      split
      · simp
      · simp
      · rw [if_pos (hnames name List.mem_cons_self)]
        split
        · exact hrest _
        · exact hrest _

/-- A path whose names are short is not refused. -/
theorem refusesName_of_isShort (h : ∀ name ∈ p.parts, isShort name = true) :
    w.refusesName p = false := by
  unfold refusesName
  split
  · next hlead => exact absurd hlead (walk_ne_nameTooLong _ _ h)
  · rfl

/-- A path is not refused for what it goes on with behind anything but a directory. -/
theorem refusesName_onward_of_ne (hw : w.Sound) (hp : p.IsPlain) {parts : List String}
    (hparts : parts ≠ []) (h : w.tree.find? (w.place p) ≠ some .directory) :
    w.refusesName (p.onward parts) = false := by
  unfold refusesName
  by_cases hblocked : w.Blocked (w.place p)
  · rw [resolve_onward_of_blocked hw hp hparts hblocked]
  · rcases hfound : w.tree.find? (w.place p) with _ | (bytes | _)
    · rw [resolve_onward_of_missing hp hparts hfound hblocked]
    · exact absurd ⟨_, bytes, List.suffix_rfl, hfound⟩ hblocked
    · exact absurd hfound h

/-- A name of too many characters is too long. -/
theorem isShort_of_length_lt {name : String} (h : nameLimit < name.length) :
    isShort name = false := by
  rw [isShort, decide_eq_false_iff_not, not_le]
  exact h.trans_le (Text.Utf8.length_le_length_encode name)

/-- A name that is too long is not found in a directory. -/
theorem resolve_entry_of_length_lt {name : String} (hp : w.isDirectory p = true)
    (hlong : nameLimit < name.length) : w.resolve (p.entry name) = .error .nameTooLong := by
  obtain ⟨l, hlead, hl⟩ := isDirectory_iff.mp hp
  have hdots : name ≠ ".." := by
    rintro rfl
    exact absurd hlong (by decide)
  have hparts := walk_append w.tree (w.start p) p.parts [name]
  rw [resolve] at hlead
  rw [hlead] at hparts
  refine hparts.trans ?_
  dsimp only
  rw [walk, hl]
  dsimp only
  rw [if_neg hdots, isShort_of_length_lt hlong]
  rfl

/-- A path that leads nowhere leads to no directory. -/
theorem isDirectory_of_resolve_error {c : Cause} (h : w.resolve p = .error c) :
    w.isDirectory p = false := by
  rw [isDirectory, find?, h]

/-- A path with a name that is too long is refused. -/
theorem refuses_of_resolve (h : w.resolve p = .error .nameTooLong)
    (hnull : p.holdsNull = false) : w.refuses p = true := by
  rw [refuses, refusesName, h, hnull]
  simp

/-- What a path is told to lead to is there, and nothing is if it is told to lead nowhere. -/
theorem find?_of_lookUp {found : Option Entry} (h : w.lookUp p = .ok found) :
    w.find? p = found := by
  unfold lookUp at h
  split at h
  · cases h
  · exact Except.ok.inj h

/-- A path that is told to lead to a directory leads to one. -/
theorem isDirectory_of_lookUp (h : w.lookUp p = .ok (some .directory)) :
    w.isDirectory p = true := by
  rw [isDirectory, find?_of_lookUp h]

/-- A path is told to lead to the same where it leads to the same and is refused alike. -/
theorem lookUp_congr (hfind : v.find? p = w.find? p)
    (hrefused : v.refusesName p = w.refusesName p) : v.lookUp p = w.lookUp p := by
  rw [lookUp, lookUp, refuses, refuses, hfind, hrefused]

/-- A path that is told to lead to a directory is told so as long as no directory is lost. -/
theorem KeepsDirectories.lookUp (h : KeepsDirectories w v)
    (hp : w.lookUp p = .ok (some .directory)) : v.lookUp p = .ok (some .directory) := by
  obtain ⟨l, hlead, hl⟩ := isDirectory_iff.mp (isDirectory_of_lookUp hp)
  have hkept := h.resolve hlead
  rw [← hp]
  refine lookUp_congr ?_ ?_
  · rw [find?_of_lookUp hp, find?, hkept]
    exact h.directory l hl
  · rw [refusesName_of_resolve hlead, refusesName_of_resolve hkept]

end Workspace
end Vendoring.Files
