import Vendoring.Proofs.Files.Subtrees

/-!
# Directories on the way

A path that leads to a directory leads through directories, so every path on the way to it leads to
one as well. Where directories were made on the way to a path in two workspaces, they are hence at
the same places in both. What operations change below a place is described apart from what they are
made of: they leave everything else as it is, and keep the laws of a file system.
-/

namespace Vendoring.Files

open Attempt

namespace Workspace

variable {u v w : Workspace} {p q : Path} {l : Location} {name : String}

/-! ### Following names in parts -/

/-- Names are followed one part after the other. -/
theorem walk_append (t : Tree) (l : Location) (names rest : List String) :
    walk t l (names ++ rest) = match walk t l names with
      | .ok m => walk t m rest
      | .error e => .error e := by
  induction names generalizing l with
  | nil => rfl
  | cons name names ih =>
      rw [List.cons_append, walk, walk]
      rcases t.find? l with _ | (_ | _)
      · rfl
      · rfl
      · dsimp only
        split
        · exact ih _
        · split
          · exact ih _
          · rfl

/-- An entry of a path that leads to a directory leads to its place. -/
theorem resolve_entry_of_resolve (hlead : w.resolve p = .ok l)
    (hl : w.tree.find? l = some .directory) (hname : IsName name) :
    w.resolve (p.entry name) = .ok (name :: l) := by
  have hparts := walk_append w.tree (w.start p) p.parts [name]
  unfold resolve at hlead
  rw [hlead] at hparts
  refine hparts.trans ?_
  dsimp only
  rw [walk_cons_of_isName hl hname]
  rfl

/-- An entry of a path that leads to a directory leads to what is at its place. -/
theorem find?_entry_of_resolve (hlead : w.resolve p = .ok l)
    (hl : w.tree.find? l = some .directory) (hname : IsName name) :
    w.find? (p.entry name) = w.tree.find? (name :: l) := by
  rw [find?, resolve_entry_of_resolve hlead hl hname]

/-- Whatever is on the way to a directory is a directory. -/
theorem isDirectory_of_isOnWayTo (hq : q.IsOnWayTo p) (h : w.isDirectory p = true) :
    w.isDirectory q = true := by
  obtain ⟨l, hlead, hl⟩ := isDirectory_iff.mp h
  obtain ⟨hanchor, rest, hparts⟩ := hq
  have hstart : w.start q = w.start p := by
    unfold start
    rw [hanchor]
  have hwalk := walk_append w.tree (w.start q) q.parts rest
  rw [hparts, hstart] at hwalk
  rw [isDirectory_iff]
  unfold resolve at hlead ⊢
  rw [hstart]
  cases hfirst : walk w.tree (w.start p) q.parts with
  | error e =>
      rw [hfirst, hlead] at hwalk
      cases hwalk
  | ok m =>
      refine ⟨m, rfl, ?_⟩
      rw [hfirst, hlead] at hwalk
      cases rest with
      | nil =>
          cases hwalk
          exact hl
      | cons name rest =>
          -- The rest is followed from the place, so there has to be a directory.
          dsimp only at hwalk
          rw [walk] at hwalk
          rcases hm : w.tree.find? m with _ | (_ | _)
          · rw [hm] at hwalk
            cases hwalk
          · rw [hm] at hwalk
            cases hwalk
          · rfl

/-- Where way was made to one directory in two workspaces, every place either is as it was in both
or is a directory in both that was not a file. -/
theorem MakesWay.find?_alike {w' v' : Workspace} (hw : MakesWay p w w') (hv : MakesWay p v v')
    (hhere : v.here = w.here) (hp : w'.isDirectory p = true) (hp' : v'.isDirectory p = true)
    (l : Location) :
    (w'.tree.find? l = w.tree.find? l ∧ v'.tree.find? l = v.tree.find? l) ∨
    (w'.tree.find? l = some .directory ∧ v'.tree.find? l = some .directory) := by
  have hplaces : v'.here = w'.here := by rw [hv.here, hw.here, hhere]
  have hmade {w v : Workspace} {q : Path} (hq : q.IsOnWayTo p) (hlead : w.resolve q = .ok l)
      (hhere : v.here = w.here) (hp : v.isDirectory p = true) :
      v.tree.find? l = some .directory := by
    obtain ⟨m, hm, hdirectory⟩ := isDirectory_iff.mp (isDirectory_of_isOnWayTo hq hp)
    have hsame : m = l := by
      rw [← place_of_resolve hm, ← place_of_resolve hlead, place_congr hhere]
    rw [← hsame, hdirectory]
  obtain hsame | ⟨_, hdirectory, q, hq, hlead⟩ := hw.place l
  · obtain hsame' | ⟨_, hdirectory', q, hq, hlead⟩ := hv.place l
    · exact .inl ⟨hsame, hsame'⟩
    · exact .inr ⟨hmade hq hlead hplaces.symm hp, hdirectory'⟩
  · exact .inr ⟨hdirectory, hmade hq hlead hplaces hp'⟩

end Workspace

end Vendoring.Files
