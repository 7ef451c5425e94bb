import Vendoring.Proofs.Files.Views

/-!
# Runs done again

A run of operations that went well is done again where it ended. No operation turns a file into a
directory or a directory into a file, so whatever the first run found at some time is of the same
kind at its end, and the second run takes the same ways. At each step it finds at every place either
what the first run found there or what that left in the end; when both are done, nothing differs.
-/

namespace Vendoring.Files

open Attempt

namespace Workspace

variable {u v w : Workspace} {l : Location}

/-! ### Kinds of entries -/

/-- Whether a directory is at a place, if anything is. -/
def kind? (w : Workspace) (l : Location) : Option Bool := (w.tree.find? l).map Entry.isDirectory

/-- A place with a directory is of its kind. -/
theorem kind?_eq_true : w.kind? l = some true ↔ w.tree.find? l = some .directory := by
  unfold kind?
  rcases w.tree.find? l with _ | (_ | _) <;> simp [Entry.isDirectory]

/-- What is at a place is of its kind. -/
theorem kind?_of_find? {e : Entry} (h : w.tree.find? l = some e) :
    w.kind? l = some e.isDirectory := by
  rw [kind?, h]
  rfl

/-- An entry that was put at a place is of its kind. -/
theorem kind?_put_self (hl : l ≠ []) (e : Entry) :
    kind? { w with tree := w.tree.put l e } l = some e.isDirectory :=
  kind?_of_find? (w := { w with tree := w.tree.put l e }) (Tree.find?_put_self w.tree hl e)

/-- Elsewhere everything is of its kind when an entry was put at a place. -/
theorem kind?_put_of_ne {m : Location} (hm : m ≠ l) (e : Entry) :
    kind? { w with tree := w.tree.put l e } m = w.kind? m :=
  congrArg _ (Tree.find?_put_of_ne w.tree hm e)

/-- Whatever was somewhere is still of its kind. -/
def KeepsKinds (w v : Workspace) : Prop := ∀ l b, w.kind? l = some b → v.kind? l = some b

namespace KeepsKinds

/-- A workspace keeps its own kinds. -/
theorem refl (w : Workspace) : KeepsKinds w w := fun _ _ h ↦ h

/-- Kinds kept twice are kept. -/
theorem trans (h : KeepsKinds w v) (h' : KeepsKinds v u) : KeepsKinds w u :=
  fun l b hb ↦ h' l b (h l b hb)

/-- Directories stay directories where kinds are kept. -/
theorem directory (h : KeepsKinds w v) (hl : w.tree.find? l = some .directory) :
    v.tree.find? l = some .directory :=
  kind?_eq_true.mp (h l true (kind?_eq_true.mpr hl))

/-- Putting an entry where nothing of another kind is keeps the kinds. -/
theorem put {e : Entry} (hl : l ≠ []) (hfree : ∀ b, w.kind? l = some b → b = e.isDirectory) :
    KeepsKinds w { w with tree := w.tree.put l e } := by
  intro m b hb
  by_cases hm : m = l
  · subst hm
    rw [hfree b hb, kind?_put_self hl]
  · rw [kind?_put_of_ne hm, hb]

end KeepsKinds
end Workspace

/-! ### Operations keep kinds -/

namespace Attempt.KeepsKinds

open Workspace

variable {w₀ : Workspace}

private theorem makeDirectory (p : Path) :
    Preserves (KeepsKinds w₀) (Workspace.makeDirectory p) := by
  intro w hw
  rw [perform_makeDirectory]
  split
  · exact hw
  · next l hlead =>
      split
      · exact hw
      · next hnone =>
          refine hw.trans (.put (ne_nil_of_find?_ne (w := w) (by simp [hnone])) fun b hb ↦ ?_)
          simp [kind?, hnone] at hb

/-- Making sure of a directory keeps what kinds were kept before. -/
theorem ensureDirectory (p : Path) (text : String) :
    Preserves (KeepsKinds w₀) (Workspace.ensureDirectory p text) :=
  ((makeDirectory p).named text).tryCatch fun _ ↦ .getBind fun _ _ ↦ .ite (.pure _) (.throw _)

private theorem writeFile (p : Path) (bytes : List UInt8) :
    Preserves (KeepsKinds w₀) (Workspace.writeFile p bytes) := by
  intro w hw
  rw [perform_writeFile]
  split
  · exact hw
  · next l hlead =>
      split
      · exact hw
      · next hfree =>
          refine hw.trans (.put (ne_nil_of_find?_ne hfree) fun b hb ↦ ?_)
          cases b with
          | true => exact absurd (kind?_eq_true.mp hb) hfree
          | false => rfl

/-- Copying a file keeps what kinds were kept before. -/
theorem copyFile (source target : Reference) :
    Preserves (KeepsKinds w₀) (Workspace.copyFile source target) :=
  .copyFile fun _ _ bytes ↦ writeFile _ bytes

/-- Copying a tree keeps what kinds were kept before. -/
theorem copyTreeUpTo (depth : Nat) (source target : String) :
    Preserves (KeepsKinds w₀) (Workspace.copyTreeUpTo depth source target) :=
  .copyTreeUpTo (T := fun _ _ ↦ True) (fun _ target _ ↦ ensureDirectory _ target)
    (fun _ _ _ _ _ _ _ ↦ ⟨trivial, copyFile _ _⟩) depth trivial

/-- Copying a tree keeps what kinds were kept before, as many levels as it has. -/
theorem copyTree (source target : String) :
    Preserves (KeepsKinds w₀) (Workspace.copyTree source target) :=
  .getBind fun _ _ ↦ copyTreeUpTo _ source target

/-- Copying the entries of a directory keeps what kinds were kept before. -/
theorem foldlM_collectEntry (depth : Nat) (source target : String) (names : List String)
    (issues : List CopyIssue) : Preserves (KeepsKinds w₀)
      (names.foldlM (collectEntry depth source target) issues) :=
  .foldlM names (fun _ _ _ ↦ .getBind fun _ _ ↦
    (Preserves.collect (.ite (copyTreeUpTo _ _ _) (copyFile _ _)) _ _).bind fun _ ↦ .pure _) issues

end Attempt.KeepsKinds

namespace Workspace

/-! ### Two runs -/

/-- A run is done again where it ended, below a place. The run has come to a first workspace, and is
to end in a last one; when it is done again it has come to a second one, where everything is as in
the first or in the last, and of the kind that it is of in the last. -/
structure Redoes (root : Location) (start last first second : Workspace) : Prop where
  left : ChangedBelow root start first
  right : ChangedBelow root start second
  kind : ∀ l, second.kind? l = last.kind? l
  either : ∀ l, second.tree.find? l = first.tree.find? l ∨ second.tree.find? l = last.tree.find? l

/-- The directory that a text names is read, apart from a place. -/
structure ReadsBeside (root : Location) (w : Workspace) (source : String) (l : Location) :
    Prop where
  text_ne_empty : source ≠ ""
  lead : w.resolve (.ofString source) = .ok l
  there : w.tree.find? l = some .directory
  apart : Apart l root

namespace ReadsBeside

variable {w v : Workspace} {root l : Location} {source name : String}

/-- An entry of a directory that is read is at its name. -/
theorem resolve_listed (h : ReadsBeside root w source l) (hname : IsName name) :
    w.resolve (Reference.listed source name).path = .ok (name :: l) := by
  rw [Path.path_listed h.text_ne_empty hname.toIsPart]
  exact resolve_entry_of_resolve h.lead h.there hname

/-- An entry of a directory that is read has its name. -/
theorem name_listed (h : ReadsBeside root w source l) (hname : IsName name) :
    (Reference.listed source name).path.name = name := by
  rw [Path.path_listed h.text_ne_empty hname.toIsPart, Path.name_entry]

/-- A directory in one that is read is read, too. -/
theorem entry (h : ReadsBeside root w source l) (hname : IsName name)
    (hthere : w.tree.find? (name :: l) = some .directory) :
    ReadsBeside root w (Reference.listed source name).text (name :: l) where
  text_ne_empty := Reference.entryText_ne_empty hname.ne_empty
  lead := h.resolve_listed hname
  there := hthere
  apart := h.apart.mono (List.suffix_cons _ _) List.suffix_rfl

/-- An entry that is read is no longer below the place. -/
theorem not_suffix_entry (h : ReadsBeside root w source l) : ¬root <:+ name :: l :=
  h.apart.not_suffix (List.suffix_cons _ _)

/-- What is read stays as it is when something is changed below the place. -/
theorem of_changedBelow (h : ReadsBeside root w source l) (hv : ChangedBelow root w v) :
    ReadsBeside root v source l :=
  ⟨h.text_ne_empty, hv.keeps.resolve h.lead, hv.keeps.directory l h.there, h.apart⟩

/-- The names in a directory that is read are the same when something is changed below the
place. -/
theorem names_eq (h : ReadsBeside root w source l) (hv : ChangedBelow root w v) :
    v.names (.ofString source) = w.tree.names l := by
  have hread := h.of_changedBelow hv
  rw [names_of_resolve hread.lead hread.there]
  exact Tree.names_congr fun name ↦ hv.elsewhere _ h.not_suffix_entry

/-- An entry that is read leads to a directory exactly when one was at its name. -/
theorem isDirectory_listed (h : ReadsBeside root w source l) (hv : ChangedBelow root w v)
    (hname : IsName name) :
    v.isDirectory (Reference.listed source name).path = true ↔
      w.tree.find? (name :: l) = some .directory := by
  rw [isDirectory_iff_of_resolve ((h.of_changedBelow hv).resolve_listed hname),
    hv.elsewhere _ h.not_suffix_entry]

end ReadsBeside

namespace Redoes

variable {root l : Location} {start last x x' y : Workspace} {p : Path} {text name : String}
  {source target : Reference}

/-- A run is done again from where it ended. -/
theorem refl (hstart : start.Sound) (hlast : ChangedBelow root start last) :
    Redoes root start last start last :=
  ⟨.refl root hstart, hlast, fun _ ↦ rfl, fun _ ↦ .inr rfl⟩

/-- When the run has come to its end, everything is as it was there. -/
theorem find?_eq (h : Redoes root start last last y) (l : Location) :
    y.tree.find? l = last.tree.find? l :=
  (h.either l).elim id id

/-- What is outside of the place is the same in both runs. -/
theorem find?_of_not_suffix (h : Redoes root start last x y) (hl : ¬root <:+ l) :
    y.tree.find? l = x.tree.find? l :=
  (h.right.elsewhere l hl).trans (h.left.elsewhere l hl).symm

/-- The second run has its directories where they are in the end. -/
theorem directory_iff (h : Redoes root start last x y) (l : Location) :
    y.tree.find? l = some .directory ↔ last.tree.find? l = some .directory := by
  rw [← kind?_eq_true, h.kind, kind?_eq_true]

/-- The second run has every directory of the first. -/
theorem keepsDirectories (h : Redoes root start last x y) (hkept : KeepsKinds x last) :
    KeepsDirectories x y where
  here := h.right.keeps.here.trans h.left.keeps.here.symm
  directory l hl := (h.directory_iff l).mpr (hkept.directory hl)

/-- What is left of a run is done again from where it had come to. -/
theorem rest (h : Redoes root start last x y) (hkept : KeepsKinds x last) :
    Redoes root x last x y where
  left := .refl root h.left.sound
  right := ⟨h.right.sound, h.keepsDirectories hkept, fun _ hl ↦ h.find?_of_not_suffix hl⟩
  kind := h.kind
  either := h.either

/-- Making sure of a directory has nothing to do when it is done again. -/
theorem ensureDirectory (h : Redoes root start last x y) (hp : p.IsNormal)
    (hroot : root <:+ start.place p) (hkept : KeepsKinds x' last)
    (hdone : perform (Workspace.ensureDirectory p text) x = (.ok (), x')) :
    perform (Workspace.ensureDirectory p text) y = (.ok (), y) ∧
      Redoes root start last x' y := by
  have hchanged := ChangedBelow.ensureDirectory hp hroot text x h.left
  have hview := find?_ensureDirectory hdone
  rw [hdone] at hchanged
  have hlater : Redoes root start last x' y := by
    refine ⟨hchanged, h.right, h.kind, fun l ↦ ?_⟩
    rw [hview, View.withDirectories]
    split
    · next hl =>
        -- The directory was left in the end, so the second run has it from the beginning.
        have hmade : x'.tree.find? l = some .directory := by
          rw [hview, View.withDirectories, if_pos hl]
        exact .inl ((h.directory_iff l).mpr (hkept.directory hmade))
    · exact h.either l
  refine ⟨perform_ensureDirectory_of_isDirectory ?_, hlater⟩
  exact (hlater.keepsDirectories hkept).isDirectory (isDirectory_of_ensureDirectory hdone)

/-- A copy of a file is written to the same when it is done again. -/
theorem resolve_written (h : Redoes root start last x y) (hkept : KeepsKinds x last)
    (hlead : x.resolve (x.written source target).path = .ok l)
    (hl : last.tree.find? l ≠ some .directory) :
    y.resolve (y.written source target).path = .ok l := by
  have hkeeps := h.keepsDirectories hkept
  have hsame : y.written source target = x.written source target := by
    unfold written
    by_cases hx : x.isDirectory target.path = true
    · rw [hx, hkeeps.isDirectory hx]
    · have hno := Bool.eq_false_iff.mpr hx
      rw [written_of_not_isDirectory hno] at hlead
      have hy : y.isDirectory target.path = false := by
        rw [Bool.eq_false_iff, ne_eq, isDirectory_iff]
        rintro ⟨m, hm, hthere⟩
        cases (hkeeps.resolve hlead).symm.trans hm
        exact hl ((h.directory_iff l).mp hthere)
      rw [hno, hy]
  rw [hsame]
  exact hkeeps.resolve hlead

/-- A file from outside of the place that was copied is copied when it is done again. -/
theorem copyFile (h : Redoes root start last x y) (hname : IsName source.path.name)
    (hsource : ¬root <:+ start.place source.path) (htarget : target.IsBelow root start)
    (hkept : KeepsKinds x' last)
    (hdone : perform (Workspace.copyFile source target) x = (.ok (), x')) :
    ∃ y', perform (Workspace.copyFile source target) y = (.ok (), y') ∧
      Redoes root start last x' y' := by
  have hbefore : KeepsKinds x x' := by
    have hkinds := Attempt.KeepsKinds.copyFile source target x (.refl x)
    rwa [hdone] at hkinds
  have hchanged := ChangedBelow.copyFile hname htarget x h.left
  rw [hdone] at hchanged
  obtain ⟨bytes, k, l, hk, hfile, hl, hfree, hne, rfl⟩ := copyFile_eq_ok_iff.mp hdone
  have hl' := ne_nil_of_find?_ne hfree
  have hlast : last.kind? l = some false := hkept l false (kind?_put_self hl' _)
  have hlastfree : last.tree.find? l ≠ some .directory := fun hthere ↦ by
    cases hlast.symm.trans (kind?_eq_true.mpr hthere)
  have hagain : perform (Workspace.copyFile source target) y =
      (.ok (), { y with tree := y.tree.put l (.file bytes) }) := by
    have hkeeps := h.keepsDirectories (hbefore.trans hkept)
    refine copyFile_eq_ok_iff.mpr ⟨bytes, k, l, hkeeps.resolve hk, ?_,
      h.resolve_written (hbefore.trans hkept) hl hlastfree, fun hthere ↦ ?_, hne, rfl⟩
    · rw [h.find?_of_not_suffix, hfile]
      rwa [← place_of_resolve hk, place_congr h.left.keeps.here]
    · exact hlastfree ((h.directory_iff l).mp hthere)
  have hchanged' := ChangedBelow.copyFile hname htarget y h.right
  rw [hagain] at hchanged'
  refine ⟨_, hagain, hchanged, hchanged', fun m ↦ ?_, fun m ↦ ?_⟩
  · by_cases hm : m = l
    · rw [hm, hlast]
      exact kind?_put_self hl' _
    · rw [kind?_put_of_ne hm, h.kind]
  · dsimp only
    rw [Tree.find?_put _ hl', Tree.find?_put _ hl']
    split
    · exact .inl rfl
    · exact h.either m

/-! ### Trees -/

section Trees

variable {depth levels : Nat} {source target : String} {l : Location} {names : List String}

private theorem copyEntry
    (htree : ∀ {source target l x x' y}, Redoes root start last x y →
      ReadsBeside root start source l → start.Reaches l levels →
      (Reference.ofText target).IsBelow root start → KeepsKinds x' last →
      perform (copyTreeUpTo depth source target) x = (.ok (), x') →
      ∃ y', perform (copyTreeUpTo levels source target) y = (.ok (), y') ∧
        Redoes root start last x' y')
    (h : Redoes root start last x y) (hsource : ReadsBeside root start source l)
    (hreaches : start.Reaches l (levels + 1))
    (htarget : (Reference.ofText target).IsBelow root start)
    (hname : IsName name) {e : Entry} (hfound : start.tree.find? (name :: l) = some e)
    (hkept : KeepsKinds x' last)
    (hdone : perform (Workspace.copyEntry depth source target name x) x = (.ok (), x')) :
    ∃ y', perform (Workspace.copyEntry levels source target name y) y = (.ok (), y') ∧
      Redoes root start last x' y' := by
  unfold Workspace.copyEntry at hdone ⊢
  by_cases hthere : start.tree.find? (name :: l) = some .directory
  · rw [if_pos ((hsource.isDirectory_listed h.left hname).mpr hthere)] at hdone
    rw [if_pos ((hsource.isDirectory_listed h.right hname).mpr hthere)]
    exact htree h (hsource.entry hname hthere) (hreaches.cons hfound) (htarget.entry hname) hkept
      hdone
  · rw [if_neg (mt (hsource.isDirectory_listed h.left hname).mp hthere)] at hdone
    rw [if_neg (mt (hsource.isDirectory_listed h.right hname).mp hthere)]
    refine h.copyFile ?_ ?_ (htarget.entry hname) hkept hdone
    · rw [hsource.name_listed hname]
      exact hname
    · rw [place_of_resolve (hsource.resolve_listed hname)]
      exact hsource.not_suffix_entry

private theorem keepsKinds_of_foldlM
    (h : perform (names.foldlM (collectEntry depth source target) []) x = (.ok [], x')) :
    KeepsKinds x x' := by
  have hkinds := Attempt.KeepsKinds.foldlM_collectEntry depth source target names [] x (.refl x)
  rwa [h] at hkinds

/-- Copying entries without issues has none when it is done again. -/
private theorem foldlM_collectEntry (levels : Nat)
    (hentry : ∀ {name x x' y}, name ∈ names → Redoes root start last x y → KeepsKinds x' last →
      perform (Workspace.copyEntry depth source target name x) x = (.ok (), x') →
      ∃ y', perform (Workspace.copyEntry levels source target name y) y = (.ok (), y') ∧
        Redoes root start last x' y')
    (h : Redoes root start last x y) (hkept : KeepsKinds x' last)
    (hdone : perform (names.foldlM (collectEntry depth source target) []) x = (.ok [], x')) :
    ∃ y', perform (names.foldlM (collectEntry levels source target) []) y = (.ok [], y') ∧
      Redoes root start last x' y' := by
  induction names generalizing x y with
  | nil =>
      cases hdone
      exact ⟨y, rfl, h⟩
  | cons name names ih =>
      obtain ⟨u, hfirst, hrest⟩ := foldlM_collectEntry_cons_eq_ok.mp hdone
      have hlater := keepsKinds_of_foldlM hrest
      obtain ⟨z, hagain, hz⟩ := hentry List.mem_cons_self h (hlater.trans hkept) hfirst
      obtain ⟨y', hagain', hy'⟩ := ih (fun hmem ↦ hentry (List.mem_cons_of_mem _ hmem)) hz hrest
      exact ⟨y', foldlM_collectEntry_cons_eq_ok.mpr ⟨z, hagain, hagain'⟩, hy'⟩

/-- A tree from outside of the place that was copied is copied when it is done again. -/
theorem copyTreeUpTo (h : Redoes root start last x y) (hsource : ReadsBeside root start source l)
    (hreaches : start.Reaches l levels) (htarget : (Reference.ofText target).IsBelow root start)
    (hkept : KeepsKinds x' last)
    (hdone : perform (Workspace.copyTreeUpTo depth source target) x = (.ok (), x')) :
    ∃ y', perform (Workspace.copyTreeUpTo levels source target) y = (.ok (), y') ∧
      Redoes root start last x' y' := by
  induction depth generalizing levels source target l x x' y with
  | zero => cases hdone
  | succ depth ih =>
      obtain ⟨levels, rfl⟩ : ∃ n, levels = n + 1 :=
        Nat.exists_eq_succ_of_ne_zero hreaches.pos.ne'
      obtain ⟨_, _, hget, hdone⟩ := perform_bind_eq_ok.mp hdone
      cases hget
      obtain ⟨_, u, hmade, hdone⟩ := perform_bind_eq_ok.mp hdone
      obtain ⟨issues, v, hfold, hdone⟩ := perform_bind_eq_ok.mp hdone
      split at hdone
      · next hissues =>
          cases hdone
          obtain rfl := List.isEmpty_iff.mp hissues
          rw [hsource.names_eq h.left] at hfold
          replace hfold :
              perform ((start.tree.names l).foldlM (collectEntry depth source target) []) u =
                (.ok [], x') := hfold
          have hlater := keepsKinds_of_foldlM hfold
          obtain ⟨hagain, hu⟩ := h.ensureDirectory htarget.normal htarget.place
            (hlater.trans hkept) hmade
          obtain ⟨y', hagain', hy'⟩ := hu.foldlM_collectEntry levels
            (fun {name _ _ _} hmem hx hkept hdone ↦ by
              obtain ⟨e, hfound⟩ := Tree.mem_names.mp hmem
              have hname : IsName name := by
                refine h.left.sound.named name l e ?_
                rw [h.left.elsewhere _ hsource.not_suffix_entry]
                exact hfound
              exact copyEntry ih hx hsource hreaches htarget hname hfound hkept hdone) hkept hfold
          refine ⟨y', ?_, hy'⟩
          refine perform_bind_eq_ok.mpr ⟨y, y, rfl, ?_⟩
          refine perform_bind_eq_ok.mpr ⟨(), y, hagain, ?_⟩
          rw [hsource.names_eq h.right]
          exact perform_bind_eq_ok.mpr ⟨[], y', hagain', rfl⟩
      · cases hdone

/-- A tree from outside of the place that was copied, as many levels as it has, is copied when it is
done again. -/
theorem copyTree (h : Redoes root start last x y) (hsource : ReadsBeside root start source l)
    (htarget : (Reference.ofText target).IsBelow root start) (hkept : KeepsKinds x' last)
    (hdone : perform (Workspace.copyTree source target) x = (.ok (), x')) :
    ∃ y', perform (Workspace.copyTree source target) y = (.ok (), y') ∧
      Redoes root start last x' y' := by
  obtain ⟨_, _, hget, hdone⟩ := perform_bind_eq_ok.mp hdone
  cases hget
  have hreaches : start.Reaches l (y.tree.depth + 1) := by
    refine ⟨Nat.succ_pos _, fun m e hm hfound ↦ ?_⟩
    rw [← h.right.elsewhere m (hsource.apart.not_suffix hm)] at hfound
    have hlength := Tree.length_le_depth hfound
    omega
  obtain ⟨y', hagain, hy'⟩ := h.copyTreeUpTo hsource hreaches htarget hkept hdone
  exact ⟨y', perform_bind_eq_ok.mpr ⟨y, y, rfl, hagain⟩, hy'⟩

end Trees
end Redoes
end Workspace
end Vendoring.Files
