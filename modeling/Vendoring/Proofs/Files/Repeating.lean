import Vendoring.Proofs.Files.Frames

/-!
# Operations done again

Making directories that are there does nothing, and neither does writing a file once more: after an
operation that was done, the same operation is done again and leaves the workspace as it is.
-/

namespace Vendoring.Files

open Attempt

/-- Putting an entry at a place once more changes nothing. -/
@[simp]
theorem Tree.put_put (t : Tree) (l : Location) (e : Entry) : (t.put l e).put l e = t.put l e := by
  simp [Tree.put]

namespace Workspace

variable {v w : Workspace} {p : Path} {text : String} {bytes : List UInt8}

/-- A path leads to a directory exactly when it leads to a place with one. -/
theorem isDirectory_iff :
    w.isDirectory p = true ↔ ∃ l, w.resolve p = .ok l ∧ w.tree.find? l = some .directory := by
  unfold isDirectory Workspace.find?
  rcases w.resolve p with e | l
  · simp
  · rcases h : w.tree.find? l with _ | (_ | _) <;> simp [h]

/-- Where a path leads, it leads to a directory exactly when one is there. -/
theorem isDirectory_iff_of_resolve (h : w.resolve p = .ok l) :
    w.isDirectory p = true ↔ w.tree.find? l = some .directory := by
  rw [isDirectory_iff, h]
  constructor
  · rintro ⟨_, ⟨⟩, hthere⟩
    exact hthere
  · exact fun hthere ↦ ⟨l, rfl, hthere⟩

/-- A path that leads to a directory still does when no directory is lost. -/
theorem KeepsDirectories.isDirectory (h : KeepsDirectories w v) (hp : w.isDirectory p = true) :
    v.isDirectory p = true := by
  obtain ⟨l, hlead, hl⟩ := isDirectory_iff.mp hp
  exact isDirectory_iff.mpr ⟨l, h.resolve hlead, h.directory l hl⟩

/-- A directory is made exactly when its path leads to a place with nothing, and this place gets the
directory. -/
theorem makeDirectory_eq_ok_iff :
    perform (makeDirectory p) w = (.ok (), v) ↔
      ∃ l, w.resolve p = .ok l ∧ w.tree.find? l = none ∧
        v = { w with tree := w.tree.put l .directory } := by
  rw [perform_makeDirectory]
  rcases w.resolve p with e | l
  · simp
  · rcases h : w.tree.find? l with _ | e <;> simp [h, eq_comm]

/-- A directory that is not made leaves everything as it is. -/
theorem eq_of_makeDirectory_eq_error {e : Cause}
    (h : perform (makeDirectory p) w = (.error e, v)) : v = w := by
  rw [perform_makeDirectory] at h
  split at h
  · cases h
    rfl
  · split at h
    · cases h
      rfl
    · cases h

/-- Making sure of a directory makes it, or does nothing because it is there. -/
theorem ensureDirectory_cases (h : perform (ensureDirectory p text) w = (.ok (), v)) :
    perform (makeDirectory p) w = (.ok (), v) ∨ w.isDirectory p = true ∧ v = w := by
  unfold ensureDirectory at h
  rw [perform_tryCatch, perform_named] at h
  rcases hmade : perform (makeDirectory p) w with ⟨e | _, u⟩
  · obtain rfl := eq_of_makeDirectory_eq_error hmade
    rw [hmade] at h
    simp only [mapError_error, perform_bind, perform_get] at h
    split at h
    · next hthere =>
        cases h
        exact .inr ⟨hthere, rfl⟩
    · cases h
  · rw [hmade] at h
    cases h
    exact .inl rfl

/-- A directory that was made is there. -/
theorem isDirectory_of_makeDirectory (h : perform (makeDirectory p) w = (.ok (), v)) :
    v.isDirectory p = true := by
  obtain ⟨l, hlead, hnone, rfl⟩ := makeDirectory_eq_ok_iff.mp h
  have hfree : w.tree.find? l ≠ some .directory := by
    rw [hnone]
    exact nofun
  refine isDirectory_iff.mpr ⟨l, (KeepsDirectories.put _ hfree).resolve hlead, ?_⟩
  exact Tree.find?_put_self w.tree (ne_nil_of_find?_ne hfree) _

/-- A directory that was made unless it was there is there. -/
theorem isDirectory_of_ensureDirectory (h : perform (ensureDirectory p text) w = (.ok (), v)) :
    v.isDirectory p = true := by
  rcases ensureDirectory_cases h with hmade | ⟨hthere, rfl⟩
  · exact isDirectory_of_makeDirectory hmade
  · exact hthere

private theorem isDirectory_of_makeDirectoriesUpTo {n : Nat}
    (h : perform (makeDirectoriesUpTo n p) w = (.ok (), v)) : v.isDirectory p = true := by
  cases n with
  | zero => exact isDirectory_of_ensureDirectory h
  | succ n =>
      unfold makeDirectoriesUpTo at h
      rw [perform_tryCatch, perform_named] at h
      rcases hmade : perform (makeDirectory p) w with ⟨e | _, u⟩
      · rw [hmade] at h
        cases e with
        | noEntry =>
            simp only [mapError_error, perform_bind] at h
            split at h
            · exact isDirectory_of_ensureDirectory h
            · cases h
        | _ =>
            simp only [mapError_error, perform_bind, perform_get] at h
            split at h
            · next hthere =>
                cases h
                exact hthere
            · cases h
      · rw [hmade] at h
        cases h
        exact isDirectory_of_makeDirectory hmade

/-- A directory that was made with those above it is there. -/
theorem isDirectory_of_makeDirectories (h : perform (makeDirectories p) w = (.ok (), v)) :
    v.isDirectory p = true :=
  isDirectory_of_makeDirectoriesUpTo h

/-- Making a directory that is there is refused, and changes nothing. -/
theorem perform_makeDirectory_of_isDirectory (h : w.isDirectory p = true) :
    perform (makeDirectory p) w = (.error .alreadyExists, w) := by
  obtain ⟨l, hlead, hl⟩ := isDirectory_iff.mp h
  rw [perform_makeDirectory, hlead]
  dsimp only
  rw [hl]

/-- Making sure of a directory that is there does nothing. -/
theorem perform_ensureDirectory_of_isDirectory (h : w.isDirectory p = true) :
    perform (ensureDirectory p text) w = (.ok (), w) := by
  unfold ensureDirectory
  rw [perform_tryCatch, perform_named, perform_makeDirectory_of_isDirectory h]
  simp only [mapError_error, perform_bind, perform_get, h, if_true, perform_pure]

/-- Making directories that are there does nothing. -/
theorem perform_makeDirectories_of_isDirectory (h : w.isDirectory p = true) :
    perform (makeDirectories p) w = (.ok (), w) := by
  unfold makeDirectories
  cases p.parts.length with
  | zero => exact perform_ensureDirectory_of_isDirectory h
  | succ n =>
      unfold makeDirectoriesUpTo
      rw [perform_tryCatch, perform_named, perform_makeDirectory_of_isDirectory h]
      simp only [mapError_error, perform_bind, perform_get, h, if_true, perform_pure]

/-- A file is written exactly when its path leads to a place without a directory, and this place
gets the file. -/
theorem writeFile_eq_ok_iff :
    perform (writeFile p bytes) w = (.ok (), v) ↔
      ∃ l, w.resolve p = .ok l ∧ w.tree.find? l ≠ some .directory ∧
        v = { w with tree := w.tree.put l (.file bytes) } := by
  rw [perform_writeFile]
  rcases w.resolve p with e | l
  · simp
  · rcases h : w.tree.find? l with _ | (_ | _) <;> simp [h, eq_comm]

/-- A file that was written is written again without a difference. -/
theorem perform_writeFile_again (h : perform (writeFile p bytes) w = (.ok (), v)) :
    perform (writeFile p bytes) v = (.ok (), v) := by
  obtain ⟨l, hlead, hfree, rfl⟩ := writeFile_eq_ok_iff.mp h
  have hfound := Tree.find?_put_self w.tree (ne_nil_of_find?_ne hfree) (.file bytes)
  refine writeFile_eq_ok_iff.mpr ⟨l, (KeepsDirectories.put _ hfree).resolve hlead, ?_, ?_⟩
  · dsimp only
    rw [hfound]
    exact nofun
  · rw [Tree.put_put]

end Workspace
end Vendoring.Files
