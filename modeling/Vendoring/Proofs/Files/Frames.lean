import Vendoring.Proofs.Files.Attempts

/-!
# What file operations leave alone

A path that leads somewhere leads to the same place as long as no directory is lost. Making
directories adds directories on the way to a path and changes nothing else, and writing a file
changes the one place that its path leads to, so each keeps the content of every other file. No
operation changes the current directory, and hence none the place that a path names.
-/

namespace Vendoring.Files

open Attempt Workspace

/-- A path is on the way to another when it is that path or one of the directories above it. -/
def Path.IsOnWayTo (q p : Path) : Prop := q.anchor = p.anchor ∧ q.parts <+: p.parts

/-- What is on the way to the directory above a path is on the way to the path. -/
theorem Path.IsOnWayTo.of_parent {q p : Path} (h : q.IsOnWayTo p.parent) : q.IsOnWayTo p :=
  ⟨h.1, h.2.trans (List.dropLast_prefix p.parts)⟩

/-- Every path is on the way to itself. -/
theorem Path.IsOnWayTo.refl (p : Path) : p.IsOnWayTo p := ⟨rfl, List.prefix_rfl⟩

namespace Workspace

/-- The current directory is the same, and every directory is still one. -/
structure KeepsDirectories (w v : Workspace) : Prop where
  here : v.here = w.here
  directory : ∀ l, w.tree.find? l = some .directory → v.tree.find? l = some .directory

/-- The only changes are directories where nothing was, all on the way to a path. -/
structure MakesWay (p : Path) (w v : Workspace) : Prop where
  here : v.here = w.here
  place : ∀ l, v.tree.find? l = w.tree.find? l ∨
    (w.tree.find? l = none ∧ v.tree.find? l = some .directory ∧
      ∃ q : Path, q.IsOnWayTo p ∧ v.resolve q = .ok l)

variable {u v w : Workspace} {p q : Path} {l m : Location} {bytes : List UInt8}

namespace KeepsDirectories

/-- A workspace keeps its own directories. -/
theorem refl (w : Workspace) : KeepsDirectories w w := ⟨rfl, fun _ h ↦ h⟩

/-- Directories kept twice are kept. -/
theorem trans (h : KeepsDirectories w v) (h' : KeepsDirectories v u) : KeepsDirectories w u :=
  ⟨h'.here.trans h.here, fun l hl ↦ h'.directory l (h.directory l hl)⟩

private theorem walk (h : KeepsDirectories w v) (names : List String) (m : Location)
    (hw : Workspace.walk w.tree m names = .ok l) : Workspace.walk v.tree m names = .ok l := by
  induction names generalizing m with
  | nil => exact hw
  | cons name rest ih =>
      rw [Workspace.walk] at hw ⊢
      split at hw
      · cases hw
      · cases hw
      · next hm =>
          rw [h.directory m hm]
          dsimp only
          split at hw
          · next hdots =>
              rw [if_pos hdots]
              exact ih _ hw
          · next hname =>
              rw [if_neg hname]
              split at hw
              · next hshort =>
                  rw [if_pos hshort]
                  exact ih _ hw
              · cases hw

/-- A path that leads somewhere still leads there. -/
theorem resolve (h : KeepsDirectories w v) (hp : w.resolve p = .ok l) : v.resolve p = .ok l := by
  have hstart : v.start p = w.start p := by
    unfold start
    rw [h.here]
  unfold Workspace.resolve
  rw [hstart]
  exact h.walk _ _ hp

/-- Putting an entry where no directory is keeps every directory. -/
theorem put (e : Entry) (hl : w.tree.find? l ≠ some .directory) :
    KeepsDirectories w { w with tree := w.tree.put l e } := by
  refine ⟨rfl, ?_⟩
  intro m hm
  have hne : m ≠ l := by
    intro h
    exact hl (h ▸ hm)
  exact (Tree.find?_put_of_ne w.tree hne e).trans hm

end KeepsDirectories

/-- A place without a directory is not the root. -/
theorem ne_nil_of_find?_ne (hl : w.tree.find? l ≠ some .directory) : l ≠ [] := by
  intro h
  apply hl
  rw [h]
  rfl

/-- A file has content exactly when its path leads to a place with a file. -/
theorem content?_eq_some :
    w.content? p = some bytes ↔ ∃ l, w.resolve p = .ok l ∧ w.tree.find? l = some (.file bytes) := by
  unfold content? Workspace.find?
  constructor
  · intro h
    cases hp : w.resolve p with
    | error e => simp [hp] at h
    | ok l =>
        rw [hp] at h
        dsimp only at h
        split at h
        · next found hfile =>
            cases h
            exact ⟨l, rfl, hfile⟩
        · cases h
  · rintro ⟨l, hp, hl⟩
    rw [hp]
    dsimp only
    rw [hl]

namespace MakesWay

/-- Doing nothing makes way. -/
theorem refl (p : Path) (w : Workspace) : MakesWay p w w := ⟨rfl, fun _ ↦ .inl rfl⟩

/-- Making way keeps every directory. -/
theorem keepsDirectories (h : MakesWay p w v) : KeepsDirectories w v := by
  refine ⟨h.here, ?_⟩
  intro l hl
  rcases h.place l with hsame | ⟨hnone, _, _⟩
  · rw [hsame, hl]
  · rw [hl] at hnone
    cases hnone

/-- Making way twice makes way. -/
theorem trans (h : MakesWay p w v) (h' : MakesWay p v u) : MakesWay p w u := by
  refine ⟨h'.here.trans h.here, ?_⟩
  intro l
  rcases h'.place l with hsame' | ⟨hnone', hmade', q', hq', hlead'⟩
  · rcases h.place l with hsame | ⟨hnone, hmade, q, hq, hlead⟩
    · exact .inl (hsame'.trans hsame)
    · exact .inr ⟨hnone, hsame'.trans hmade, q, hq, h'.keepsDirectories.resolve hlead⟩
  · rcases h.place l with hsame | ⟨_, hmade, _⟩
    · exact .inr ⟨hsame.symm.trans hnone', hmade', q', hq', hlead'⟩
    · rw [hmade] at hnone'
      cases hnone'

/-- Making way to the directory above a path makes way to the path. -/
theorem of_parent (h : MakesWay p.parent w v) : MakesWay p w v := by
  refine ⟨h.here, ?_⟩
  intro l
  rcases h.place l with hsame | ⟨hnone, hmade, q, hq, hlead⟩
  · exact .inl hsame
  · exact .inr ⟨hnone, hmade, q, hq.of_parent, hlead⟩

/-- Making way keeps the content of every file. -/
theorem content? (h : MakesWay p w v) (hq : w.content? q = some bytes) :
    v.content? q = some bytes := by
  obtain ⟨l, hlead, hfile⟩ := content?_eq_some.mp hq
  apply content?_eq_some.mpr
  refine ⟨l, h.keepsDirectories.resolve hlead, ?_⟩
  rcases h.place l with hsame | ⟨hnone, _, _⟩
  · rw [hsame, hfile]
  · rw [hfile] at hnone
    cases hnone

/-- Making a directory makes way to it. -/
theorem makeDirectory (p : Path) (w : Workspace) :
    MakesWay p w (perform (makeDirectory p) w).2 := by
  rw [perform_makeDirectory]
  split
  · exact refl p w
  · next l hlead =>
      split
      · exact refl p w
      · next hnone =>
          have hfree : w.tree.find? l ≠ some .directory := by
            rw [hnone]
            exact nofun
          refine ⟨rfl, ?_⟩
          intro m
          by_cases hm : m = l
          · subst hm
            refine .inr ⟨hnone, ?_, p, Path.IsOnWayTo.refl p, ?_⟩
            · exact Tree.find?_put_self w.tree (ne_nil_of_find?_ne hfree) .directory
            · exact (KeepsDirectories.put .directory hfree).resolve hlead
          · exact .inl (Tree.find?_put_of_ne w.tree hm .directory)

/-- Making a directory that may be there makes way to it. -/
theorem ensureDirectory (p : Path) (text : String) (w : Workspace) :
    MakesWay p w (perform (ensureDirectory p text) w).2 := by
  have hmade := makeDirectory p w
  unfold Workspace.ensureDirectory
  rw [perform_tryCatch, perform_named]
  cases (perform (Workspace.makeDirectory p) w).1 with
  | ok _ => exact hmade
  | error e =>
      simp only [mapError_error, perform_bind, perform_get]
      split
      · exact hmade
      · exact hmade

private theorem makeDirectoriesUpTo (n : Nat) (p : Path) (w : Workspace) :
    MakesWay p w (perform (makeDirectoriesUpTo n p) w).2 := by
  induction n generalizing p w with
  | zero => exact ensureDirectory p p.text w
  | succ n ih =>
      have hmade := makeDirectory p w
      unfold Workspace.makeDirectoriesUpTo
      rw [perform_tryCatch, perform_named]
      cases (perform (Workspace.makeDirectory p) w).1 with
      | ok _ => exact hmade
      | error e =>
          -- Only a missing directory above is made first; any other refusal is final.
          cases e with
          | noEntry =>
              have habove := ih p.parent (perform (Workspace.makeDirectory p) w).2
              simp only [mapError_error, perform_bind]
              split
              · next x v hv =>
                  rw [hv] at habove
                  exact (hmade.trans habove.of_parent).trans (ensureDirectory p p.text v)
              · next e v hv =>
                  rw [hv] at habove
                  exact hmade.trans habove.of_parent
          | _ =>
              simp only [mapError_error, perform_bind, perform_get]
              split
              · exact hmade
              · exact hmade

/-- Making a directory and those above it makes way to it, whether it fails or not. -/
theorem makeDirectories (p : Path) (w : Workspace) :
    MakesWay p w (perform (makeDirectories p) w).2 :=
  makeDirectoriesUpTo p.parts.length p w

end MakesWay

/-- Writing a file either leaves the workspace as it is or puts the file at the place that its path
leads to, where no directory is. -/
theorem writeFile_cases (p : Path) (bytes : List UInt8) (w : Workspace) :
    (perform (writeFile p bytes) w).2 = w ∨
      ∃ l, w.resolve p = .ok l ∧ w.tree.find? l ≠ some .directory ∧
        (perform (writeFile p bytes) w).2 = { w with tree := w.tree.put l (.file bytes) } := by
  rw [perform_writeFile]
  split
  · exact .inl rfl
  · next l hlead =>
      split
      · exact .inl rfl
      · next hfree => exact .inr ⟨l, hlead, hfree, rfl⟩

/-- A file that was written has the content written. -/
theorem content?_writeFile (h : perform (writeFile p bytes) w = (.ok (), v)) :
    v.content? p = some bytes := by
  rw [perform_writeFile] at h
  split at h
  · cases h
  · next l hlead =>
      split at h
      · cases h
      · next hfree =>
          cases h
          apply content?_eq_some.mpr
          refine ⟨l, (KeepsDirectories.put _ hfree).resolve hlead, ?_⟩
          exact Tree.find?_put_self w.tree (ne_nil_of_find?_ne hfree) _

/-- Writing a file keeps the content of every file that is not the same entry afterwards. -/
theorem content?_writeFile_of_not_sameEntry {bytes' : List UInt8} (hq : w.content? q = some bytes)
    (hother : (perform (writeFile p bytes') w).2.sameEntry q p = false) :
    (perform (writeFile p bytes') w).2.content? q = some bytes := by
  obtain ⟨m, hlead, hfile⟩ := content?_eq_some.mp hq
  rcases writeFile_cases p bytes' w with hsame | ⟨l, hl, hfree, hput⟩
  · rw [hsame]
    exact hq
  · rw [hput] at hother ⊢
    have hkeeps := KeepsDirectories.put (.file bytes') hfree
    have hne : m ≠ l := by
      intro h
      subst h
      have hfound := Tree.find?_put_self w.tree (ne_nil_of_find?_ne hfree) (.file bytes')
      simp [sameEntry, hkeeps.resolve hlead, hkeeps.resolve hl, hfound] at hother
    apply content?_eq_some.mpr
    exact ⟨m, hkeeps.resolve hlead, (Tree.find?_put_of_ne w.tree hne _).trans hfile⟩

/-! ### Places -/

/-- The place that a path names, whether or not the path leads there. -/
def place (w : Workspace) (p : Path) : Location :=
  p.parts.foldl (fun l name ↦ if name = ".." then l.tail else name :: l) (w.start p)

private theorem foldl_eq_of_walk (t : Tree) (names : List String) (m : Location)
    (h : walk t m names = .ok l) :
    names.foldl (fun l name ↦ if name = ".." then l.tail else name :: l) m = l := by
  induction names generalizing m with
  | nil =>
      cases h
      rfl
  | cons name rest ih =>
      rw [walk] at h
      rw [List.foldl_cons]
      split at h
      · cases h
      · cases h
      · split at h
        · next hdots =>
            rw [if_pos hdots]
            exact ih _ h
        · next hname =>
            rw [if_neg hname]
            split at h
            · exact ih _ h
            · cases h

/-- A path that leads somewhere leads to the place that it names. -/
theorem place_of_resolve (h : w.resolve p = .ok l) : w.place p = l :=
  foldl_eq_of_walk w.tree p.parts (w.start p) h

/-- Paths that name different places never lead to one entry. -/
theorem sameEntry_of_place_ne (h : w.place p ≠ w.place q) : w.sameEntry p q = false := by
  unfold sameEntry
  cases hp : w.resolve p with
  | error e => rfl
  | ok l =>
      cases hq : w.resolve q with
      | error e => rfl
      | ok m =>
          rw [place_of_resolve hp, place_of_resolve hq] at h
          simp only [h, decide_false, Bool.false_and]

/-- What a path names depends on the current directory alone. -/
theorem place_congr (h : v.here = w.here) (p : Path) : v.place p = w.place p := by
  unfold place start
  rw [h]

end Workspace

/-! ### The current directory -/

namespace Attempt

variable {ε α β : Type}

/-- An attempt leaves the current directory as it is, whether it fails or not. -/
def KeepsHere (a : Attempt ε α) : Prop := ∀ w, (perform a w).2.here = w.here

namespace KeepsHere

/-- Keeping the current directory is preserving what it is. -/
theorem iff_preserves {a : Attempt ε α} :
    KeepsHere a ↔ ∀ here, Preserves (fun w ↦ w.here = here) a :=
  ⟨fun h _ w hw ↦ (h w).trans hw, fun h w ↦ h w.here w rfl⟩

/-- Two attempts that keep the current directory keep it one after the other. -/
theorem bind {a : Attempt ε α} {f : α → Attempt ε β} (ha : KeepsHere a)
    (hf : ∀ x, KeepsHere (f x)) : KeepsHere (a >>= f) :=
  iff_preserves.mpr fun here ↦
    (iff_preserves.mp ha here).bind fun x ↦ iff_preserves.mp (hf x) here

/-- Naming the path of an attempt keeps what it keeps. -/
theorem named {a : Attempt Cause α} (ha : KeepsHere a) (text : String) :
    KeepsHere (Workspace.named text a) :=
  iff_preserves.mpr fun here ↦ (iff_preserves.mp ha here).named text

/-- Making directories keeps the current directory. -/
theorem makeDirectories (p : Path) : KeepsHere (Workspace.makeDirectories p) :=
  fun w ↦ (MakesWay.makeDirectories p w).here

/-- Making sure of a directory keeps the current directory. -/
theorem ensureDirectory (p : Path) (text : String) : KeepsHere (Workspace.ensureDirectory p text) :=
  fun w ↦ (MakesWay.ensureDirectory p text w).here

/-- Writing a file keeps the current directory. -/
theorem writeFile (p : Path) (bytes : List UInt8) : KeepsHere (Workspace.writeFile p bytes) := by
  intro w
  rcases writeFile_cases p bytes w with hsame | ⟨l, _, _, hput⟩
  · rw [hsame]
  · rw [hput]

/-- Reading a file keeps the current directory. -/
theorem readFile (p : Path) : KeepsHere (Workspace.readFile p) :=
  iff_preserves.mpr fun _ ↦ .readFile p

/-- Copying a file keeps the current directory. -/
theorem copyFile (source target : Reference) : KeepsHere (Workspace.copyFile source target) :=
  iff_preserves.mpr fun here ↦
    .copyFile fun _ _ bytes ↦ iff_preserves.mp (writeFile _ bytes) here

/-- Copying a tree keeps the current directory. -/
theorem copyTree (source target : String) : KeepsHere (Workspace.copyTree source target) :=
  iff_preserves.mpr fun here ↦ .getBind fun _ _ ↦
    .copyTreeUpTo (T := fun _ _ ↦ True)
      (fun _ target _ ↦ iff_preserves.mp (ensureDirectory _ target) here)
      (fun _ _ _ _ _ _ _ ↦ ⟨trivial, iff_preserves.mp (copyFile _ _) here⟩) _ trivial

end KeepsHere
end Attempt
end Vendoring.Files
