import Vendoring.Proofs.Files.Views

/-!
# Directories that were added

Where nothing is lost and nothing but empty directories is added, a path leads to the same directory
as before, unless it leads to a directory that was added or goes back up from one. Making
directories adds them on the way to its path only, whether it succeeds or not.
-/

namespace Vendoring.Files

open Attempt

/-- A path goes on by its entries. -/
theorem Path.onward_entry (p : Path) (name : String) (rest : List String) :
    (p.entry name).onward rest = p.onward (name :: rest) := by
  simp [Path.onward, Path.entry]

namespace Workspace

variable {New More : Location → Prop} {u v w : Workspace} {p q : Path} {k l : Location}
  {name : String} {rest : List String}

/-- A workspace is the same as another but for directories where nothing was, at places of some
kind. -/
structure AddsOnly (New : Location → Prop) (w v : Workspace) : Prop where
  here : v.here = w.here
  place : ∀ l, v.tree.find? l = w.tree.find? l ∨
    New l ∧ w.tree.find? l = none ∧ v.tree.find? l = some .directory

/-- A path goes back up from a place of some kind. -/
def GoesBackFrom (New : Location → Prop) (w : Workspace) (p : Path) : Prop :=
  ∃ q : Path, (q.entry "..").IsOnWayTo p ∧ New (w.place q)

namespace AddsOnly

/-- A workspace is the same as itself. -/
theorem refl (New : Location → Prop) (w : Workspace) : AddsOnly New w w := ⟨rfl, fun _ ↦ .inl rfl⟩

/-- Adding twice adds what either adds. -/
theorem trans (h : AddsOnly New w v) (h' : AddsOnly New v u) : AddsOnly New w u := by
  refine ⟨h'.here.trans h.here, fun l ↦ ?_⟩
  rcases h'.place l with hsame' | ⟨hnew', hnone', hadded'⟩
  · rw [hsame']
    exact h.place l
  · rcases h.place l with hsame | ⟨_, _, hadded⟩
    · exact .inr ⟨hnew', hsame.symm.trans hnone', hadded'⟩
    · rw [hadded] at hnone'
      cases hnone'

/-- More may be added at more places where nothing is. -/
theorem mono (h : AddsOnly New w v) (hmore : ∀ l, w.tree.find? l = none → New l → More l) :
    AddsOnly More w v :=
  ⟨h.here, fun l ↦ (h.place l).imp id fun ⟨hnew, hnone, hadded⟩ ↦
    ⟨hmore l hnone hnew, hnone, hadded⟩⟩

/-- Making directories adds them on the way. -/
theorem of_makesWay (h : MakesWay p w v) : AddsOnly (· ∈ w.way p) w v := by
  refine ⟨h.here, fun l ↦ (h.place l).imp id ?_⟩
  rintro ⟨hnone, hmade, q, hq, hlead⟩
  refine ⟨mem_way.mpr ⟨q, hq, ?_⟩, hnone, hmade⟩
  rw [← place_congr h.here, place_of_resolve hlead]

/-- Nothing is lost. -/
theorem keepsDirectories (h : AddsOnly New w v) : KeepsDirectories w v := by
  refine ⟨h.here, fun l hl ↦ ?_⟩
  rcases h.place l with hsame | ⟨_, hnone, _⟩
  · rw [hsame, hl]
  · rw [hl] at hnone
    cases hnone

/-- Where nothing may be added everything is as it was. -/
theorem find?_eq (h : AddsOnly New w v) (hl : ¬New l) : v.tree.find? l = w.tree.find? l :=
  (h.place l).resolve_right fun hadded ↦ hl hadded.1

/-- From a directory that was added, names that do not go back up lead to directories that were
added: there was nothing below it. -/
private theorem none_of_walk (h : AddsOnly New w v) (hw : w.Sound)
    (hback : ¬GoesBackFrom New w (q.onward rest)) (hq : w.tree.find? (w.place q) = none)
    (hlead : walk v.tree (w.place q) rest = .ok k) (hk : v.tree.find? k = some .directory) :
    w.tree.find? k = none := by
  induction rest generalizing q with
  | nil =>
      cases hlead
      exact hq
  | cons name rest ih =>
      rw [walk] at hlead
      have hthere : v.tree.find? (w.place q) = some .directory := by
        rcases hfound : v.tree.find? (w.place q) with _ | (_ | _)
        · rw [hfound] at hlead
          cases hlead
        · rw [hfound] at hlead
          cases hlead
        · rfl
      have hnew : New (w.place q) := by
        rcases h.place (w.place q) with hsame | ⟨hnew, _, _⟩
        · cases hthere.symm.trans (hsame.trans hq)
        · exact hnew
      have hname : name ≠ ".." := by
        rintro rfl
        exact hback ⟨q, ⟨rfl, rest, by simp [Path.onward, Path.entry]⟩, hnew⟩
      rw [hthere] at hlead
      dsimp only at hlead
      rw [if_neg hname, ← w.place_entry q hname] at hlead
      split at hlead
      · refine ih (q := q.entry name) (by rwa [Path.onward_entry]) ?_ hlead
        rw [w.place_entry q hname]
        cases hfound : w.tree.find? (name :: w.place q) with
        | none => rfl
        | some e => cases hq.symm.trans (hw.above name _ e hfound)
      · cases hlead

private theorem walk_eq (h : AddsOnly New w v) (hw : w.Sound) (q : Path) (rest : List String)
    (hback : ¬GoesBackFrom New w (q.onward rest))
    (hlead : walk v.tree (w.place q) rest = .ok k) (hk : v.tree.find? k = some .directory)
    (hend : w.tree.find? k ≠ none) : walk w.tree (w.place q) rest = .ok k := by
  induction rest generalizing q with
  | nil => exact hlead
  | cons name rest ih =>
      have hq : w.tree.find? (w.place q) ≠ none :=
        fun hnone ↦ hend (h.none_of_walk hw hback hnone hlead hk)
      have hsame : v.tree.find? (w.place q) = w.tree.find? (w.place q) :=
        (h.place (w.place q)).resolve_right fun hadded ↦ hq hadded.2.1
      rw [walk] at hlead ⊢
      rw [hsame] at hlead
      rcases hfound : w.tree.find? (w.place q) with _ | (_ | _)
      · exact absurd hfound hq
      · rw [hfound] at hlead
        cases hlead
      · rw [hfound] at hlead
        dsimp only at hlead ⊢
        have hback' : ¬GoesBackFrom New w ((q.entry name).onward rest) := by
          rwa [Path.onward_entry]
        by_cases hname : name = ".."
        · have hplace : w.place (q.entry name) = (w.place q).tail := by
            rw [hname, Path.entry_eq_onward, place_onward]
            rfl
          rw [if_pos hname, ← hplace] at hlead ⊢
          exact ih _ hback' hlead
        · rw [if_neg hname, ← w.place_entry q hname] at hlead ⊢
          split at hlead
          · next hshort =>
              rw [if_pos hshort]
              exact ih _ hback' hlead
          · cases hlead

/-- A path leads to a directory just if it did before, when it neither leads to a place where one
may be added nor goes back up from one. -/
theorem isDirectory_eq (h : AddsOnly New w v) (hw : w.Sound) (hend : ¬New (w.place p))
    (hback : ¬GoesBackFrom New w p) : v.isDirectory p = w.isDirectory p := by
  refine Bool.eq_iff_iff.mpr ⟨fun hv ↦ ?_, h.keepsDirectories.isDirectory⟩
  obtain ⟨k, hlead, hk⟩ := isDirectory_iff.mp hv
  have hplace : w.place p = k := by rw [← place_congr h.here, place_of_resolve hlead]
  have hkept : w.tree.find? k = some .directory := by
    rw [← h.find?_eq (hplace ▸ hend), hk]
  refine isDirectory_iff.mpr ⟨k, ?_, hkept⟩
  -- The path is followed from where it starts.
  have hstart : v.start p = w.start p := by
    unfold start
    rw [h.here]
  have hsame := h.walk_eq hw ⟨p.anchor, []⟩ p.parts hback (k := k)
  unfold resolve at hlead ⊢
  rw [hstart] at hlead
  exact hsame hlead hk (by rw [hkept]; nofun)

/-- The names in a directory are the same when none may be added in it. -/
theorem names_eq (h : AddsOnly New w v) (hw : w.Sound) (hend : ¬New (w.place p))
    (hback : ¬GoesBackFrom New w p) (hentries : ∀ name, ¬New (name :: w.place p)) :
    v.names p = w.names p := by
  have hsame := h.isDirectory_eq hw hend hback
  cases hthere : w.isDirectory p with
  | false =>
      rw [hthere] at hsame
      rw [names_eq_nil_of_not_isDirectory hsame, names_eq_nil_of_not_isDirectory hthere]
  | true =>
      obtain ⟨k, hlead, hk⟩ := isDirectory_iff.mp hthere
      rw [names_of_resolve hlead hk, names_of_resolve (h.keepsDirectories.resolve hlead)
        (h.keepsDirectories.directory k hk)]
      rw [place_of_resolve hlead] at hentries
      exact Tree.names_congr fun name ↦ h.find?_eq (hentries name)

end AddsOnly
end Workspace
end Vendoring.Files
