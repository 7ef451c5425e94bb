import Vendoring.Proofs.Files.Alike

/-!
# Copying in pairs

Files and trees are copied alike in workspaces that look alike, from where operations read to where
they write. A tree that is read is not changed by its being copied, so that the number of levels
that the copy may go down, which comes from the whole tree of files, is enough in both.
-/

namespace Vendoring.Files

open Attempt

/-! ### References -/

/-- A reference to something inside of a path, by a text that is read as where it is. -/
structure Reference.IsInside (t : Reference) (d : Path) : Prop where
  inside : t.path.IsInside d
  read : Path.ofString t.text = t.path
  text_ne_empty : t.text ≠ ""

/-- A path has a text. -/
theorem Path.text_ne_empty (p : Path) : p.text ≠ "" := by
  unfold Path.text
  dsimp only
  split
  · decide
  · next h => exact fun hempty ↦ h (String.isEmpty_iff.mpr hempty)

/-- An entry has a text. -/
theorem Reference.entryText_ne_empty {directory name : String} (hname : name ≠ "") :
    Reference.entryText directory name ≠ "" := by
  unfold Reference.entryText
  split
  · exact fun h ↦ hname (String.append_eq_empty_iff.mp h).2
  · exact fun h ↦ hname (String.append_eq_empty_iff.mp h).2

namespace Reference.IsInside

variable {t : Reference} {d p : Path} {name : String}

/-- A reference by a path inside. -/
theorem ofPath (hp : p.IsInside d) : (Reference.ofPath p).IsInside d :=
  ⟨hp, Path.ofString_text hp.normal, p.text_ne_empty⟩

/-- A reference by the text of a path inside. -/
theorem ofText_text (hp : p.IsInside d) : (Reference.ofText p.text).IsInside d := by
  refine ⟨?_, rfl, p.text_ne_empty⟩
  show (Path.ofString p.text).IsInside d
  rw [Path.ofString_text hp.normal]
  exact hp

/-- A reference to an entry of what is referred to. -/
theorem entry (ht : t.IsInside d) (hname : IsName name) :
    (Reference.ofText (Reference.entryText t.text name)).IsInside d := by
  have hread := Path.ofString_entryText ht.text_ne_empty hname.toIsPart
  refine ⟨?_, rfl, Reference.entryText_ne_empty hname.ne_empty⟩
  show (Path.ofString (Reference.entryText t.text name)).IsInside d
  rw [hread, ht.read]
  exact ht.inside.entry hname

end Reference.IsInside

namespace Workspace

variable {F : Footprint} {w₀ v₀ w v : Workspace} {d root p q : Path} {name : String}

/-! ### Files -/

section Files

variable (hd : d.IsPlain) (hwrites : F.Writes (w₀.place d)) (hroot : root.IsPlain)
  (hcovers : F.Covers (w₀.place root)) (hq : q.IsInside root) (hname : IsName name)
include hd hroot hcovers hq hname

omit hd in
private theorem paired_readFile :
    Attempt.Paired (Ready F w₀ v₀ d) (Same (Ready F w₀ v₀ d)) (Ready F w₀ v₀ d)
      (readFile (q.entry name)) (readFile (q.entry name)) := by
  intro w v h
  have hresolve := h.1.resolve_entry_eq hroot hcovers hq hname
  rw [perform_readFile, perform_readFile, ← hresolve]
  cases hlead : w.resolve (q.entry name) with
  | error e => exact .error h
  | ok l =>
      dsimp only
      rw [← h.1.find?_eq_of_resolve hcovers (hq.entry hname) hlead]
      rcases w.tree.find? l with _ | (bytes | _)
      · exact .error h
      · exact .ok ⟨rfl, h⟩
      · exact .error h

include hwrites

private theorem sameEntry_eq (h : Ready F w₀ v₀ d w v) (hp : p.IsInside d) :
    w.sameEntry (q.entry name) p = v.sameEntry (q.entry name) p := by
  have hsource := h.1.resolve_entry_eq hroot hcovers hq hname
  have htarget := h.1.resolve_eq hd hwrites.covers hp h.2
  unfold sameEntry
  rw [← hsource, ← htarget]
  cases hlead : w.resolve (q.entry name) with
  | error e => rfl
  | ok l =>
      cases w.resolve p with
      | error e => rfl
      | ok m =>
          dsimp only
          rw [h.1.find?_eq_of_resolve hcovers (hq.entry hname) hlead]

/-- A file is copied to where operations write in both, or refused in both. -/
theorem paired_copyFile {source target : Reference} (hsource : source.path = q.entry name)
    (htarget : target.IsInside d) :
    Attempt.Paired (Ready F w₀ v₀ d) (Same (Ready F w₀ v₀ d)) (Ready F w₀ v₀ d)
      (copyFile source target) (copyFile source target) := by
  have hsourceName : source.path.name = name := by rw [hsource, Path.name_entry]
  -- Whether the copy goes into a directory or not, it is written inside of where is written.
  have hcopy {written : Reference} (hwritten : written.IsInside d) :
      Attempt.Paired (Ready F w₀ v₀ d) (Same (Ready F w₀ v₀ d)) (Ready F w₀ v₀ d)
        (do
          let bytes ← named source.text (readFile source.path)
          named written.text (writeFile written.path bytes))
        (do
          let bytes ← named source.text (readFile source.path)
          named written.text (writeFile written.path bytes)) := by
    refine Attempt.Paired.bindSame (S := Ready F w₀ v₀ d) ?_ fun bytes ↦ ?_
    · rw [hsource]
      exact (paired_readFile hroot hcovers hq hname).named _
    · exact (paired_writeFile hd hwrites hwritten.inside bytes).named _
  refine Attempt.Paired.getBind fun w v h ↦ ?_
  dsimp only
  rw [← h.1.isDirectory_eq hd hwrites.covers htarget.inside, hsourceName]
  have hwritten : (if w.isDirectory target.path then
      Reference.ofText (Reference.entryText target.text name) else target).IsInside d := by
    split
    · exact htarget.entry hname
    · exact htarget
  generalize (if w.isDirectory target.path then
    Reference.ofText (Reference.entryText target.text name) else target) = written at hwritten ⊢
  have hsame := sameEntry_eq hd hwrites hroot hcovers hq hname h hwritten.inside
  rw [← hsource] at hsame
  rw [← hsame]
  split
  · exact (Attempt.Paired.throw (Q := Same (Ready F w₀ v₀ d)) _ fun _ _ h ↦ h).bindSame fun _ ↦
      hcopy hwritten
  · exact hcopy hwritten

end Files

/-! ### Trees -/

private theorem paired_collect {R : Workspace → Workspace → Prop} {a b : Attempt FileError Unit}
    (h : Attempt.Paired R (Same R) R a b) (source target : String) :
    Attempt.Paired R (Same R) R
      (liftM (collect source target a) : Attempt FileError (List CopyIssue))
      (liftM (collect source target b) : Attempt FileError (List CopyIssue)) := by
  intro w v hwv
  have hends := h w v hwv
  rw [perform_collect, perform_collect]
  generalize perform a w = p at hends ⊢
  generalize perform b v = q at hends ⊢
  cases hends with
  | ok h => exact .ok ⟨rfl, h.2⟩
  | error h => exact .ok ⟨rfl, h⟩

/-- A number of levels is enough to go down through all that a workspace has at and below a
place. -/
structure Reaches (w : Workspace) (l : Location) (levels : Nat) : Prop where
  pos : 0 < levels
  below : ∀ m e, l <:+ m → w.tree.find? m = some e → m.length < l.length + levels

/-- What is enough for a place is enough, with one level less, for a directory in it. -/
theorem Reaches.cons {l : Location} {levels : Nat} (h : w.Reaches l (levels + 1)) {e : Entry}
    (hthere : w.tree.find? (name :: l) = some e) : w.Reaches (name :: l) levels := by
  have hlength := h.below (name :: l) e (List.suffix_cons _ _) hthere
  rw [List.length_cons] at hlength
  refine ⟨by omega, fun m e' hm hfound ↦ ?_⟩
  have hbelow := h.below m e' ((List.suffix_cons _ _).trans hm) hfound
  rw [List.length_cons]
  omega

section Trees

variable (hd : d.IsPlain) (hwrites : F.Writes (w₀.place d)) (hroot : root.IsPlain)
  (hreads : F.Reads (w₀.place root))
include hd hwrites hroot hreads

private theorem paired_copyTreeUpTo (n n' : Nat) {source target : String} (hne : source ≠ "")
    (hsource : (Path.ofString source).IsInside root)
    (htarget : (Reference.ofText target).IsInside d)
    (hn : w₀.Reaches (w₀.place (.ofString source)) n)
    (hn' : w₀.Reaches (w₀.place (.ofString source)) n') :
    Attempt.Paired (Ready F w₀ v₀ d) (Same (Ready F w₀ v₀ d)) (Ready F w₀ v₀ d)
      (copyTreeUpTo n source target) (copyTreeUpTo n' source target) := by
  induction n generalizing n' source target with
  | zero => exact absurd hn.pos (Nat.lt_irrefl 0)
  | succ n ih =>
      obtain ⟨m, rfl⟩ : ∃ m, n' = m + 1 := ⟨n' - 1, by have := hn'.pos; omega⟩
      have hcovers := hreads.covers
      refine Attempt.Paired.getBind fun w v h ↦ ?_
      dsimp only
      rw [← h.1.names_eq hroot hcovers hsource]
      refine (paired_ensureDirectory hd hwrites htarget.inside _).bindSame fun _ ↦ ?_
      refine (Attempt.Paired.foldlM (w.names (.ofString source)) ?_ []).bindSame fun issues ↦ ?_
      · intro issues name hname
        obtain ⟨l, e, hlead, hl, hentry⟩ := exists_of_mem_names hname
        have hisName := h.1.left.named name l e hentry
        have hpath := Path.path_listed hne hisName.toIsPart
        have hinside : (Reference.listed source name).path.IsInside root :=
          hpath ▸ hsource.entry hisName
        have hplace : w₀.place (Reference.listed source name).path =
            name :: w₀.place (.ofString source) := by
          rw [hpath, place_entry w₀ _ hisName.ne_dots]
        refine Attempt.Paired.getBind fun u x hux ↦ ?_
        rw [← hux.1.isDirectory_eq hroot hcovers hinside]
        refine (paired_collect ?_ _ _).bindSame fun more ↦ .pure fun _ _ h ↦ ⟨rfl, h⟩
        split
        · next hdirectory =>
            have hthere := hux.1.directory_of_reads hreads hinside hdirectory
            rw [hplace] at hthere
            exact ih m (Reference.entryText_ne_empty hisName.ne_empty) hinside
              (htarget.entry hisName) (hplace ▸ hn.cons hthere) (hplace ▸ hn'.cons hthere)
        · exact paired_copyFile hd hwrites hroot hcovers hsource hisName hpath
            (htarget.entry hisName)
      · split
        · exact .pure fun _ _ h ↦ ⟨rfl, h⟩
        · exact .throw _ fun _ _ h ↦ h

/-- A tree is copied from where operations read to where they write in both, with the same
issues. -/
theorem paired_copyTree {source target : String} (hne : source ≠ "")
    (hsource : (Path.ofString source).IsInside root)
    (htarget : (Reference.ofText target).IsInside d) :
    Attempt.Paired (Ready F w₀ v₀ d) (Same (Ready F w₀ v₀ d)) (Ready F w₀ v₀ d)
      (copyTree source target) (copyTree source target) := by
  refine Attempt.Paired.getBind fun w v h ↦ ?_
  have hbelow {m : Location} (hm : w₀.place (.ofString source) <:+ m) : F.Reads m := by
    obtain ⟨parts, hparts, hstays⟩ := hsource.onward
    rw [hparts, place_onward] at hm
    exact hreads.of_suffix ((suffix_foldl_of_staysBelow [] hstays).trans hm)
  refine paired_copyTreeUpTo hd hwrites hroot hreads _ _ hne hsource htarget
    ⟨Nat.succ_pos _, fun m e hm hfound ↦ ?_⟩ ⟨Nat.succ_pos _, fun m e hm hfound ↦ ?_⟩
  · rw [← h.1.left_find?_of_reads (hbelow hm)] at hfound
    have hlength := Tree.length_le_depth hfound
    omega
  · rw [← h.1.left_find?_of_reads (hbelow hm), h.1.find?_eq (hbelow hm).covers] at hfound
    have hlength := Tree.length_le_depth hfound
    omega

end Trees
end Workspace
end Vendoring.Files
