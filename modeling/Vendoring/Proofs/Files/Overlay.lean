import Vendoring.Proofs.Files.Copying
import Vendoring.Proofs.Files.Ways

/-!
# What copying changes

Copying a file or a tree changes nothing but what is at and below its target, whether it succeeds or
not, and keeps the laws of a file system. This holds of every operation that writes below a place,
and so of attempts put together of such operations. A file that was copied is at its target, unless
a directory was there: then it is in the directory.
-/

namespace Vendoring.Files

/-! ### References below a place -/

/-- A reference below a place, by a text that is read as where it is. -/
structure Reference.IsBelow (t : Reference) (root : Location) (w : Workspace) : Prop where
  normal : t.path.IsNormal
  place : root <:+ w.place t.path
  read : Path.ofString t.text = t.path
  text_ne_empty : t.text ≠ ""

/-- A reference by a path below the place. -/
theorem Reference.IsBelow.ofPath {p : Path} {root : Location} {w : Workspace} (hp : p.IsNormal)
    (hroot : root <:+ w.place p) : (Reference.ofPath p).IsBelow root w :=
  ⟨hp, hroot, Path.ofString_text hp, p.text_ne_empty⟩

/-- A reference by the text of a path below the place. -/
theorem Reference.IsBelow.ofText_text {p : Path} {root : Location} {w : Workspace}
    (hp : p.IsNormal) (hroot : root <:+ w.place p) :
    (Reference.ofText p.text).IsBelow root w := by
  refine ⟨Path.isNormal_ofString _, ?_, rfl, p.text_ne_empty⟩
  show root <:+ w.place (Path.ofString p.text)
  rwa [Path.ofString_text hp]

/-- A reference to an entry of what is referred to is below the place, too. -/
theorem Reference.IsBelow.entry {t : Reference} {root : Location} {w : Workspace}
    {name : String} (ht : t.IsBelow root w) (hname : IsName name) :
    (Reference.ofText (Reference.entryText t.text name)).IsBelow root w := by
  have hread := Path.ofString_entryText ht.text_ne_empty hname.toIsPart
  rw [ht.read] at hread
  refine ⟨Path.isNormal_ofString _, ?_, rfl, Reference.entryText_ne_empty hname.ne_empty⟩
  show root <:+ w.place (Path.ofString (Reference.entryText t.text name))
  rw [hread, Workspace.place_entry w _ hname.ne_dots]
  exact ht.place.trans (List.suffix_cons _ _)

namespace Workspace

open Attempt

variable {w₀ w v : Workspace} {p target directory : Path} {root l : Location} {name : String}

/-! ### Changes below a place -/

/-- A sound workspace is the same as another but for what is at and below a place, where every
directory is still one. -/
structure ChangedBelow (root : Location) (w₀ w : Workspace) : Prop where
  sound : w.Sound
  keeps : KeepsDirectories w₀ w
  elsewhere : ∀ l, ¬root <:+ l → w.tree.find? l = w₀.tree.find? l

namespace ChangedBelow

/-- A sound workspace is the same as itself. -/
theorem refl (root : Location) (hw : w.Sound) : ChangedBelow root w w :=
  ⟨hw, .refl w, fun _ _ ↦ rfl⟩

/-- What changes nothing but what is below a place changes nothing else from further above. -/
theorem mono {above : Location} (h : ChangedBelow root w₀ w) (habove : above <:+ root) :
    ChangedBelow above w₀ w :=
  ⟨h.sound, h.keeps, fun l hl ↦ h.elsewhere l fun hroot ↦ hl (habove.trans hroot)⟩

/-- Two changes below a place change nothing else. -/
theorem trans (h : ChangedBelow root w₀ w) (h' : ChangedBelow root w v) :
    ChangedBelow root w₀ v :=
  ⟨h'.sound, h.keeps.trans h'.keeps, fun l hl ↦ (h'.elsewhere l hl).trans (h.elsewhere l hl)⟩

/-- Putting an entry at a place below, to which a path in normal form leads, changes nothing
else. -/
theorem put (h : ChangedBelow root w₀ w) (hp : p.IsNormal) (hroot : root <:+ w₀.place p)
    (hlead : w.resolve p = .ok l) (hl : w.tree.find? l ≠ some .directory) (e : Entry) :
    ChangedBelow root w₀ { w with tree := w.tree.put l e } := by
  have hplace : w₀.place p = l := by
    rw [← place_of_resolve hlead, place_congr h.keeps.here]
  obtain ⟨name, k, rfl, hk, hname, hdots, hshort⟩ := exists_cons_of_resolve h.sound hlead hl
  have hsound := h.sound.put ⟨hp name hname, hdots, hshort⟩ hk hl e
  refine ⟨hsound, h.keeps.trans (.put e hl), fun m hm ↦ ?_⟩
  have hne : m ≠ name :: k := by
    rintro rfl
    exact hm (hplace ▸ hroot)
  exact (Tree.find?_put_of_ne _ hne e).trans (h.elsewhere m hm)

section Operations

variable (hp : p.IsNormal) (hroot : root <:+ w₀.place p)
include hp hroot

/-- Making a directory below a place changes nothing else. -/
theorem makeDirectory : Preserves (ChangedBelow root w₀) (makeDirectory p) := by
  intro w hw
  rw [perform_makeDirectory]
  split
  · exact hw
  · next l hlead =>
      split
      · exact hw
      · next hnone => exact hw.put hp hroot hlead (by simp [hnone]) _

/-- Making sure of a directory below a place changes nothing else. -/
theorem ensureDirectory (text : String) :
    Preserves (ChangedBelow root w₀) (ensureDirectory p text) :=
  ((makeDirectory hp hroot).named text).tryCatch fun _ ↦
    .getBind fun _ _ ↦ .ite (.pure _) (.throw _)

/-- Writing a file below a place changes nothing else. -/
theorem writeFile (bytes : List UInt8) :
    Preserves (ChangedBelow root w₀) (writeFile p bytes) := by
  intro w hw
  rw [perform_writeFile]
  split
  · exact hw
  · next l hlead =>
      split
      · exact hw
      · next hfree => exact hw.put hp hroot hlead hfree _

end Operations

private theorem makeDirectoriesUpTo (n : Nat) (hp : p.IsNormal) :
    Preserves (ChangedBelow [] w₀) (makeDirectoriesUpTo n p) := by
  have hroot : ∀ p, [] <:+ w₀.place p := fun p ↦ List.nil_suffix
  induction n generalizing p with
  | zero => exact ensureDirectory hp (hroot p) p.text
  | succ n ih =>
      have hparent : p.parent.IsNormal :=
        fun part hpart ↦ hp part (List.dropLast_subset p.parts hpart)
      refine ((makeDirectory hp (hroot p)).named p.text).tryCatch fun e ↦ ?_
      split
      · exact (ih hparent).bind fun _ ↦ ensureDirectory hp (hroot p) p.text
      · exact .getBind fun _ _ ↦ .ite (.pure _) (.throw _)

end ChangedBelow

/-- Making the directories on the way to a path in normal form keeps the laws of a file system. -/
theorem Sound.makeDirectories (hw : w.Sound) (hp : p.IsNormal) :
    (perform (makeDirectories p) w).2.Sound :=
  (ChangedBelow.makeDirectoriesUpTo p.parts.length hp w (.refl [] hw)).sound

/-! ### Copying -/

namespace ChangedBelow

/-- Copying a file below a place changes nothing else. -/
theorem copyFile {source target : Reference} (hname : IsName source.path.name)
    (htarget : target.IsBelow root w₀) :
    Preserves (ChangedBelow root w₀) (copyFile source target) := by
  refine Preserves.copyFile fun w _ bytes ↦ ?_
  split
  · exact writeFile (htarget.entry hname).normal (htarget.entry hname).place bytes
  · exact writeFile htarget.normal htarget.place bytes

/-- What is listed in a source is copied to an entry of its name below the target. -/
private theorem copyListed {source target : String} (hsource : source ≠ "")
    (htarget : (Reference.ofText target).IsBelow root w₀) (hw : ChangedBelow root w₀ w)
    (hname : name ∈ w.names (.ofString source)) :
    ((Reference.listed source name).text ≠ "" ∧
      (Reference.ofText (Reference.entryText target name)).IsBelow root w₀) ∧
    Preserves (ChangedBelow root w₀) (Workspace.copyFile (Reference.listed source name)
      (.ofText (Reference.entryText target name))) := by
  obtain ⟨l, e, _, _, hentry⟩ := exists_of_mem_names hname
  have hisName := hw.sound.named name l e hentry
  have hsourceName : IsName (Reference.listed source name).path.name := by
    rw [Path.path_listed hsource hisName.toIsPart, Path.name_entry]
    exact hisName
  exact ⟨⟨Reference.entryText_ne_empty hisName.ne_empty, htarget.entry hisName⟩,
    copyFile hsourceName (htarget.entry hisName)⟩

/-- Copying a tree below a place changes nothing else. -/
theorem copyTreeUpTo (depth : Nat) {source target : String} (hsource : source ≠ "")
    (htarget : (Reference.ofText target).IsBelow root w₀) :
    Preserves (ChangedBelow root w₀) (copyTreeUpTo depth source target) :=
  .copyTreeUpTo (T := fun source target ↦ source ≠ "" ∧ (Reference.ofText target).IsBelow root w₀)
    (fun _ target h ↦ ensureDirectory h.2.normal h.2.place target)
    (fun _ _ h _ hw _ hname ↦ copyListed h.1 h.2 hw hname) depth ⟨hsource, htarget⟩

/-- Copying a tree to a place changes nothing else, whether it fails or not. -/
theorem copyTree {source target : String} (hsource : source ≠ "") (htarget : target ≠ "")
    (hw : w.Sound) :
    ChangedBelow (w.place (.ofString target)) w (perform (copyTree source target) w).2 := by
  have hbelow : (Reference.ofText target).IsBelow (w.place (.ofString target)) w :=
    ⟨Path.isNormal_ofString target, List.suffix_rfl, rfl, htarget⟩
  have hpreserves : Preserves (ChangedBelow (w.place (.ofString target)) w)
      (Workspace.copyTree source target) :=
    .getBind fun _ _ ↦ copyTreeUpTo _ hsource hbelow
  exact hpreserves w (.refl _ hw)

end ChangedBelow

/-- A file is read exactly when it has content, which is what is read. -/
theorem readFile_eq_ok_iff {bytes : List UInt8} :
    perform (readFile p) w = (.ok bytes, v) ↔ w.content? p = some bytes ∧ v = w := by
  rw [perform_readFile]
  unfold content? find?
  rcases w.resolve p with e | l
  · simp
  · rcases h : w.tree.find? l with _ | (_ | _) <;> simp [h, eq_comm]

/-- Where a copy of a file is written: to the target, or into it by the name of the file if the
target is a directory. -/
def written (w : Workspace) (source target : Reference) : Reference :=
  if w.isDirectory target.path then
    Reference.ofText (Reference.entryText target.text source.path.name)
  else target

/-- A copy onto something that is no directory is written there. -/
theorem written_of_not_isDirectory {source target : Reference}
    (h : w.isDirectory target.path = false) : w.written source target = target := by
  rw [written, h]
  rfl

/-- A copy onto a directory is written to its entry of the name of the file. -/
theorem path_written_of_isDirectory {source : Reference} (hp : p.IsNormal)
    (hname : IsPart source.path.name) (h : w.isDirectory p = true) :
    (w.written source (.ofPath p)).path = p.entry source.path.name := by
  have hwritten : w.written source (.ofPath p) =
      .ofText (Reference.entryText p.text source.path.name) := if_pos h
  rw [hwritten]
  refine (Path.ofString_entryText p.text_ne_empty hname).trans ?_
  rw [Path.ofString_text hp]

/-- A file is copied exactly when it is there, and its copy goes to another place, where no
directory is; this place gets what is in the file. -/
theorem copyFile_eq_ok_iff {source target : Reference} :
    perform (copyFile source target) w = (.ok (), v) ↔
      ∃ bytes k l, w.resolve source.path = .ok k ∧ w.tree.find? k = some (.file bytes) ∧
        w.resolve (w.written source target).path = .ok l ∧
        w.tree.find? l ≠ some .directory ∧ k ≠ l ∧
        v = { w with tree := w.tree.put l (.file bytes) } := by
  have hunfold : perform (copyFile source target) w =
      perform (do
        if w.sameEntry source.path (w.written source target).path then
          throw (.sameFile source.shown (w.written source target).shown)
        let bytes ← named source.text (readFile source.path)
        named (w.written source target).text
          (writeFile (w.written source target).path bytes)) w := rfl
  rw [hunfold]
  generalize w.written source target = target
  constructor
  · intro h
    split at h
    · obtain ⟨_, _, hthrow, _⟩ := perform_bind_eq_ok.mp h
      cases hthrow
    · next hother =>
        obtain ⟨bytes, u, hread, hwrite⟩ := perform_bind_eq_ok.mp h
        obtain ⟨hcontent, rfl⟩ := readFile_eq_ok_iff.mp (perform_named_eq_ok.mp hread)
        obtain ⟨k, hk, hfile⟩ := content?_eq_some.mp hcontent
        obtain ⟨l, hl, hfree, rfl⟩ := writeFile_eq_ok_iff.mp (perform_named_eq_ok.mp hwrite)
        refine ⟨bytes, k, l, hk, hfile, hl, hfree, ?_, rfl⟩
        rintro rfl
        exact hother (by simp [sameEntry, hk, hl, hfile])
  · rintro ⟨bytes, k, l, hk, hfile, hl, hfree, hne, rfl⟩
    have hother : w.sameEntry source.path target.path = false := by
      simp [sameEntry, hk, hl, hne]
    rw [hother]
    refine perform_bind_eq_ok.mpr ⟨bytes, w, perform_named_eq_ok.mpr ?_,
      perform_named_eq_ok.mpr (writeFile_eq_ok_iff.mpr ⟨l, hl, hfree, rfl⟩)⟩
    exact readFile_eq_ok_iff.mpr ⟨content?_eq_some.mpr ⟨k, hk, hfile⟩, rfl⟩

/-- A file that was copied was read from its source, and it was written to its target unless that
was a directory. -/
theorem exists_writeFile_of_copyFile {source target : Reference}
    (h : perform (copyFile source target) w = (.ok (), v)) :
    ∃ bytes, w.content? source.path = some bytes ∧ (w.isDirectory target.path = false →
      perform (writeFile target.path bytes) w = (.ok (), v)) := by
  obtain ⟨bytes, k, l, hk, hfile, hl, hfree, _, hv⟩ := copyFile_eq_ok_iff.mp h
  refine ⟨bytes, content?_eq_some.mpr ⟨k, hk, hfile⟩, fun hno ↦ ?_⟩
  rw [written_of_not_isDirectory hno] at hl
  exact writeFile_eq_ok_iff.mpr ⟨l, hl, hfree, hv⟩

end Workspace
end Vendoring.Files
