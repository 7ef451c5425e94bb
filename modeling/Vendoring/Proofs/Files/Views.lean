import Mathlib.Data.List.Infix
import Vendoring.Proofs.Files.Overlay
import Vendoring.Proofs.Files.Separate

/-!
# Views

A view tells what is at every place. An operation that succeeds changes the view of a workspace in a
way that its paths determine: making directories puts one at each place on the way, copying a file
puts at one place what is at another, and copying a tree lays what is below one place over what is
below another, if the two are apart and no file takes the place of a directory.
-/

namespace Vendoring.Files

open Attempt

/-- Places below ones that are apart are apart. -/
theorem Apart.mono {l m l' m' : Location} (h : Apart l m) (hl : l <:+ l') (hm : m <:+ m') :
    Apart l' m' :=
  ⟨fun hlm ↦ h.not_suffix (hl.trans hlm) hm, fun hml ↦ h.not_suffix hl (hm.trans hml)⟩

/-! ### What views become -/

/-- What is at every place. -/
abbrev View := Location → Option Entry

namespace View

variable {view : View} {source target l : Location}

/-- A view with directories at some places. -/
def withDirectories (view : View) (made : List Location) : View :=
  fun l ↦ if l ∈ made then some .directory else view l

/-- A view with what is at one place copied to another. -/
def withCopy (view : View) (source target : Location) : View :=
  fun l ↦ if l = target then view source else view l

/-- A view with what is at and below one place laid over what is at and below another. -/
def withTree (view : View) (source target : Location) : View :=
  fun l ↦ if target <:+ l then
      (view (l.take (l.length - target.length) ++ source)).or (view l)
    else view l

/-- Below its target a tree is laid over what was there. -/
theorem withTree_append (rel : List String) :
    view.withTree source target (rel ++ target) =
      (view (rel ++ source)).or (view (rel ++ target)) := by
  unfold withTree
  rw [if_pos (List.suffix_append rel target), List.length_append, Nat.add_sub_cancel,
    List.take_left]

/-- Elsewhere everything is as it was. -/
theorem withTree_of_not_suffix (hl : ¬target <:+ l) : view.withTree source target l = view l :=
  if_neg hl

end View

namespace Workspace

variable {u v w : Workspace} {p q : Path} {l sl tl : Location} {name text : String}

/-! ### Making directories -/

/-- The places on the way to a path, from where it starts to the place that it names. -/
def way (w : Workspace) (p : Path) : List Location :=
  p.parts.inits.map fun parts ↦ w.place ⟨p.anchor, parts⟩

/-- The places on the way to a path are those of the paths on the way to it. -/
theorem mem_way : l ∈ w.way p ↔ ∃ q : Path, q.IsOnWayTo p ∧ w.place q = l := by
  unfold way
  rw [List.mem_map]
  constructor
  · rintro ⟨parts, hparts, rfl⟩
    exact ⟨⟨p.anchor, parts⟩, ⟨rfl, (List.mem_inits _ _).mp hparts⟩, rfl⟩
  · rintro ⟨⟨_, parts⟩, ⟨rfl, hparts⟩, rfl⟩
    exact ⟨parts, (List.mem_inits _ _).mpr hparts, rfl⟩

/-- The places on the way depend on the current directory alone. -/
theorem way_congr (h : v.here = w.here) (p : Path) : v.way p = w.way p := by
  unfold way
  exact List.map_congr_left fun parts _ ↦ place_congr h _

/-- Directories that were made are at all places on the way, and nothing else has changed. -/
theorem find?_makeDirectories (h : perform (makeDirectories p) w = (.ok (), v)) :
    v.tree.find? = View.withDirectories w.tree.find? (w.way p) := by
  have hway := MakesWay.makeDirectories p w
  rw [h] at hway
  funext l
  unfold View.withDirectories
  split
  · next hl =>
      obtain ⟨q, hq, rfl⟩ := mem_way.mp hl
      obtain ⟨m, hlead, hm⟩ := isDirectory_iff.mp
        (isDirectory_of_isOnWayTo hq (isDirectory_of_makeDirectories h))
      rw [← place_congr hway.here q, place_of_resolve hlead, hm]
  · next hl =>
      obtain hsame | ⟨_, _, q, hq, hlead⟩ := hway.place l
      · exact hsame
      · refine absurd (mem_way.mpr ⟨q, hq, ?_⟩) hl
        rw [← place_congr hway.here q, place_of_resolve hlead]

/-- A directory that was made unless it was there is at its place, and nothing else has changed. -/
theorem find?_ensureDirectory (h : perform (ensureDirectory p text) w = (.ok (), v)) :
    v.tree.find? = View.withDirectories w.tree.find? [w.place p] := by
  funext l
  simp only [View.withDirectories, List.mem_singleton]
  rcases ensureDirectory_cases h with hmade | ⟨hthere, rfl⟩
  · obtain ⟨m, hlead, hnone, rfl⟩ := makeDirectory_eq_ok_iff.mp hmade
    have hm : m ≠ [] := ne_nil_of_find?_ne (w := w) (by simp [hnone])
    rw [place_of_resolve hlead, Tree.find?_put _ hm]
  · obtain ⟨m, hlead, hm⟩ := isDirectory_iff.mp hthere
    rw [place_of_resolve hlead]
    split
    · next hl => rw [hl, hm]
    · rfl

/-! ### Copying a file -/

/-- A file that was copied onto something that is no directory is at its place, and nothing else has
changed. -/
theorem find?_copyFile {source target : Reference}
    (h : perform (copyFile source target) w = (.ok (), v))
    (htarget : w.resolve target.path = .ok tl) (hfree : w.tree.find? tl ≠ some .directory) :
    v.tree.find? = View.withCopy w.tree.find? (w.place source.path) tl := by
  obtain ⟨bytes, hcontent, hwritten⟩ := exists_writeFile_of_copyFile h
  obtain ⟨k, hlead, hfile⟩ := content?_eq_some.mp hcontent
  have hno : w.isDirectory target.path = false := by
    rw [Bool.eq_false_iff, ne_eq, isDirectory_iff]
    rintro ⟨m, hm, hdirectory⟩
    cases htarget.symm.trans hm
    exact hfree hdirectory
  obtain ⟨m, hm, _, rfl⟩ := writeFile_eq_ok_iff.mp (hwritten hno)
  cases htarget.symm.trans hm
  funext l
  rw [place_of_resolve hlead]
  rw [View.withCopy, Tree.find?_put _ (ne_nil_of_find?_ne hfree), hfile]

/-! ### Laying a tree over another -/

/-- What was at and below one place is at and below another, and all else is as it was. -/
structure Overlaid (sl tl : Location) (w v : Workspace) : Prop where
  copied : ∀ rel e, w.tree.find? (rel ++ sl) = some e → v.tree.find? (rel ++ tl) = some e
  kept : ∀ l, (∀ rel, l = rel ++ tl → w.tree.find? (rel ++ sl) = none) →
    v.tree.find? l = w.tree.find? l

/-- The view of a workspace that a tree was laid over. -/
theorem Overlaid.find?_eq (h : Overlaid sl tl w v) :
    v.tree.find? = View.withTree w.tree.find? sl tl := by
  funext l
  by_cases hl : tl <:+ l
  · obtain ⟨rel, rfl⟩ := hl
    rw [View.withTree_append]
    cases hfound : w.tree.find? (rel ++ sl) with
    | some e => exact h.copied rel e hfound
    | none =>
        refine h.kept _ fun rel' heq ↦ ?_
        rwa [← List.append_cancel_right heq]
  · rw [View.withTree_of_not_suffix hl]
    refine h.kept l fun rel heq ↦ absurd ?_ hl
    exact heq ▸ List.suffix_append rel tl

section Entries

variable {names : List String} {x y z : Workspace}

/-- What was by some names in one directory is by them in another, and all else is as it was. -/
private structure OverlaidBy (names : List String) (sl tl : Location) (w v : Workspace) : Prop where
  copied : ∀ name ∈ names, ∀ rel e, w.tree.find? (rel ++ name :: sl) = some e →
    v.tree.find? (rel ++ name :: tl) = some e
  kept : ∀ l, (∀ name ∈ names, ∀ rel, l = rel ++ name :: tl →
    w.tree.find? (rel ++ name :: sl) = none) → v.tree.find? l = w.tree.find? l

private theorem append_cons_inj {rel rel' : List String} {name name' : String}
    (h : rel ++ name :: l = rel' ++ name' :: l) : rel = rel' ∧ name = name' := by
  obtain ⟨hrel, hcons⟩ := List.append_inj' h rfl
  exact ⟨hrel, (List.cons.inj hcons).1⟩

/-- A tree that was laid over what is apart from it is as it was. -/
private theorem Overlaid.source_kept (h : Overlaid (name :: sl) (name :: tl) x y)
    (hapart : Apart sl tl) (hl : sl <:+ l) : y.tree.find? l = x.tree.find? l := by
  refine h.kept l fun rel heq ↦ absurd ?_ (hapart.not_suffix hl)
  rw [heq]
  exact (List.suffix_cons name tl).trans (List.suffix_append rel _)

/-- Entries are laid over one after the other. -/
private theorem OverlaidBy.cons (h : Overlaid (name :: sl) (name :: tl) x y)
    (hrest : OverlaidBy names sl tl y z) (hapart : Apart sl tl) :
    OverlaidBy (name :: names) sl tl x z where
  copied := by
    intro n hn rel e he
    have hsource : y.tree.find? (rel ++ n :: sl) = some e := by
      rw [h.source_kept hapart ((List.suffix_cons n sl).trans (List.suffix_append rel _)), he]
    by_cases hmem : n ∈ names
    · exact hrest.copied n hmem rel e hsource
    · obtain rfl : n = name := (List.mem_cons.mp hn).resolve_right hmem
      rw [hrest.kept, h.copied rel e he]
      intro n' hn' rel' heq
      obtain ⟨_, rfl⟩ := append_cons_inj heq
      exact absurd hn' hmem
  kept := by
    intro l hl
    have hfirst := h.kept l fun rel heq ↦ hl name List.mem_cons_self rel heq
    rw [← hfirst]
    refine hrest.kept l fun n hn rel heq ↦ ?_
    rw [h.source_kept hapart ((List.suffix_cons n sl).trans (List.suffix_append rel _))]
    exact hl n (List.mem_cons_of_mem _ hn) rel heq

/-- A tree is as it was when its target was made. -/
private theorem find?_eq_of_withDirectories (hapart : Apart sl tl)
    (hview : v.tree.find? = View.withDirectories w.tree.find? [tl]) (hl : sl <:+ l) :
    v.tree.find? l = w.tree.find? l := by
  rw [hview, View.withDirectories, if_neg]
  exact fun htl ↦ hapart.1 (List.mem_singleton.mp htl ▸ hl)

/-- When its target was made and its entries were laid over those of the target, a tree was laid
over its target. -/
private theorem OverlaidBy.overlaid (hw : w.Sound) (hapart : Apart sl tl)
    (hthere : w.tree.find? sl = some .directory)
    (hview : u.tree.find? = View.withDirectories w.tree.find? [tl])
    (h : OverlaidBy (w.tree.names sl) sl tl u v) : Overlaid sl tl w v where
  copied := by
    intro rel e he
    obtain rfl | ⟨above, name, rfl⟩ := rel.eq_nil_or_concat
    · obtain rfl : e = .directory := Option.some.inj (he.symm.trans hthere)
      have htl : u.tree.find? tl = some .directory := by
        rw [hview, View.withDirectories, if_pos List.mem_cons_self]
      rw [List.nil_append, ← htl]
      refine h.kept tl fun n _ rel heq ↦ ?_
      have hlength := congrArg List.length heq
      simp only [List.length_append, List.length_cons] at hlength
      omega
    · rw [List.concat_append] at he ⊢
      refine h.copied name (Tree.mem_names.mpr ?_) above e ?_
      · by_cases habove : above = []
        · exact ⟨e, by rwa [habove] at he⟩
        · refine ⟨.directory, hw.directory_of_suffix he (List.suffix_append _ _) fun heq ↦ ?_⟩
          exact habove (List.append_left_eq_self.mp heq.symm)
      · rwa [find?_eq_of_withDirectories hapart hview
          ((List.suffix_cons name sl).trans (List.suffix_append above _))]
  kept := by
    intro l hl
    have hne : l ∉ [tl] := by
      intro hmem
      cases hthere.symm.trans (hl [] (List.mem_singleton.mp hmem))
    have hfirst : u.tree.find? l = w.tree.find? l := by
      rw [hview, View.withDirectories, if_neg hne]
    rw [← hfirst]
    refine h.kept l fun name _ rel heq ↦ ?_
    rw [find?_eq_of_withDirectories hapart hview
      ((List.suffix_cons name sl).trans (List.suffix_append rel _)), List.append_cons]
    exact hl _ (heq.trans (List.append_cons ..))

end Entries

/-! ### Copying a tree -/

/-- What is copied is a directory, apart from its target, and no file of it would take the place of
a directory. -/
structure Copies (source target : String) (sl tl : Location) (w : Workspace) : Prop where
  sound : w.Sound
  source_ne_empty : source ≠ ""
  target_ne_empty : target ≠ ""
  lead : w.resolve (.ofString source) = .ok sl
  there : w.tree.find? sl = some .directory
  place : w.place (.ofString target) = tl
  apart : Apart sl tl
  free : ∀ rel bytes, w.tree.find? (rel ++ sl) = some (.file bytes) →
    w.tree.find? (rel ++ tl) ≠ some .directory

namespace Copies

variable {source target : String} {x y : Workspace} {depth : Nat} {issues : List CopyIssue}
  {names : List String}

private theorem resolve_listed (h : Copies source target sl tl w) (hname : IsName name) :
    w.resolve (Reference.listed source name).path = .ok (name :: sl) := by
  rw [Path.path_listed h.source_ne_empty hname.toIsPart]
  exact resolve_entry_of_resolve h.lead h.there hname

private theorem isBelow (h : Copies source target sl tl w) :
    (Reference.ofText target).IsBelow tl w :=
  ⟨Path.isNormal_ofString target, h.place ▸ List.suffix_rfl, rfl, h.target_ne_empty⟩

private theorem isBelow_entry (h : Copies source target sl tl w) (hname : IsName name) :
    (Reference.ofText (Reference.entryText target name)).IsBelow tl w :=
  h.isBelow.entry hname

/-- A directory in one that is copied is copied to its name in the target. -/
private theorem entry (h : Copies source target sl tl w) (hname : IsName name)
    (hthere : w.tree.find? (name :: sl) = some .directory) :
    Copies (Reference.listed source name).text (Reference.entryText target name)
      (name :: sl) (name :: tl) w where
  sound := h.sound
  source_ne_empty := Reference.entryText_ne_empty hname.ne_empty
  target_ne_empty := Reference.entryText_ne_empty hname.ne_empty
  lead := h.resolve_listed hname
  there := hthere
  place := by
    rw [Path.ofString_entryText h.target_ne_empty hname.toIsPart, place_entry w _ hname.ne_dots,
      h.place]
  apart := h.apart.mono (List.suffix_cons _ _) (List.suffix_cons _ _)
  free := by
    intro rel bytes hfile
    rw [List.append_cons] at hfile ⊢
    exact h.free _ bytes hfile

/-- What is copied can go on to be copied after one of its entries was. -/
private theorem after (h : Copies source target sl tl x)
    (hentry : Overlaid (name :: sl) (name :: tl) x y) (hchanged : ChangedBelow tl x y) :
    Copies source target sl tl y where
  sound := hchanged.sound
  source_ne_empty := h.source_ne_empty
  target_ne_empty := h.target_ne_empty
  lead := hchanged.keeps.resolve h.lead
  there := hchanged.keeps.directory sl h.there
  place := (place_congr hchanged.keeps.here _).trans h.place
  apart := h.apart
  free := by
    intro rel bytes hfile hdirectory
    rw [hentry.source_kept h.apart (List.suffix_append rel sl)] at hfile
    refine h.free rel bytes hfile ?_
    rw [← hdirectory]
    refine (hentry.kept _ fun rel' heq ↦ ?_).symm
    -- What was copied there would be a directory, where the file is.
    rw [List.append_cons] at heq
    obtain rfl := List.append_cancel_right heq
    cases hfound : x.tree.find? (rel' ++ name :: sl) with
    | none => rfl
    | some e =>
        rw [← List.append_cons] at hfile hdirectory
        cases hdirectory.symm.trans (hentry.copied rel' e hfound)
        cases hfile.symm.trans hfound

/-- A file in a directory that is copied was laid over what is by its name in the target. -/
private theorem overlaid_file (h : Copies source target sl tl w)
    (hopen : w.isDirectory (.ofString target) = true) (hname : IsName name) {bytes : List UInt8}
    (hfile : w.tree.find? (name :: sl) = some (.file bytes))
    (hcopy : perform (copyFile (Reference.listed source name)
      (.ofText (Reference.entryText target name))) w = (.ok (), v)) :
    Overlaid (name :: sl) (name :: tl) w v := by
  have htarget : w.resolve (Reference.ofText (Reference.entryText target name)).path =
      .ok (name :: tl) := by
    obtain ⟨m, hm, hthere⟩ := isDirectory_iff.mp hopen
    obtain rfl : m = tl := by rw [← place_of_resolve hm, h.place]
    show w.resolve (Path.ofString (Reference.entryText target name)) = _
    rw [Path.ofString_entryText h.target_ne_empty hname.toIsPart]
    exact resolve_entry_of_resolve hm hthere hname
  have hview := find?_copyFile hcopy htarget (h.free [name] bytes hfile)
  rw [place_of_resolve (h.resolve_listed hname)] at hview
  rw [funext_iff] at hview
  refine ⟨fun rel e he ↦ ?_, fun l hl ↦ ?_⟩
  · cases rel with
    | nil => rw [List.nil_append, hview, View.withCopy, if_pos rfl, ← he, List.nil_append]
    | cons first rel =>
        -- Nothing is below a file.
        have hbelow := h.sound.directory_of_suffix he (List.suffix_append _ _) fun heq ↦ by
          have hlength := congrArg List.length heq
          simp only [List.length_append, List.length_cons] at hlength
          omega
        cases hfile.symm.trans hbelow
  · rw [hview, View.withCopy, if_neg]
    rintro rfl
    cases hfile.symm.trans (hl [] rfl)

end Copies

/-! ### Issues -/

section Issues

variable {source target : String} {x y : Workspace} {depth : Nat} {issues : List CopyIssue}
  {names : List String}

/-- Copy an entry, as a tree if it is a directory. -/
def copyEntry (depth : Nat) (source target name : String) (w : Workspace) :
    Attempt FileError Unit :=
  if w.isDirectory (Reference.listed source name).path then
    copyTreeUpTo depth (Reference.listed source name).text (Reference.entryText target name)
  else copyFile (Reference.listed source name) (.ofText (Reference.entryText target name))

/-- Copy an entry and add its issues. -/
def collectEntry (depth : Nat) (source target : String) (issues : List CopyIssue)
    (name : String) : Attempt FileError (List CopyIssue) := do
  let part := copyEntry depth source target name (← get)
  return issues ++ (← collect (Reference.listed source name).text
    (Reference.entryText target name) part)

/-- Copying an entry adds its issues to those before. -/
theorem perform_collectEntry :
    perform (collectEntry depth source target issues name) w =
      (.ok (issues ++ issuesOf (Reference.listed source name).text
        (Reference.entryText target name)
          (perform (copyEntry depth source target name w) w).1),
        (perform (copyEntry depth source target name w) w).2) := by
  unfold collectEntry
  rw [perform_bind, perform_get]
  dsimp only
  rw [perform_bind, perform_collect]
  rfl

/-- A part of a tree copy that has no issues succeeded. -/
private theorem eq_ok_of_issuesOf {r : Except FileError Unit}
    (hr : ∀ e, r = .error e → e ≠ .tree []) (h : issuesOf source target r = []) : r = .ok () := by
  cases r with
  | ok _ => rfl
  | error e =>
      cases e with
      | system cause path => cases h
      | sameFile s t =>
          have hmessage := congrArg List.length h
          simp [issuesOf, FileError.message, String.toList_append] at hmessage
      | tree issues => exact absurd (congrArg FileError.tree h) (hr _ rfl)

/-- Without issues in the end there were none before. -/
private theorem eq_nil_of_foldlM_collectEntry
    (h : perform (names.foldlM (collectEntry depth source target) issues) x = (.ok [], v)) :
    issues = [] := by
  induction names generalizing issues x with
  | nil =>
      cases h
      rfl
  | cons name names ih =>
      rw [List.foldlM_cons] at h
      obtain ⟨more, y, hfirst, hrest⟩ := perform_bind_eq_ok.mp h
      rw [perform_collectEntry] at hfirst
      cases hfirst
      exact (List.append_eq_nil_iff.mp (ih hrest)).1

/-- An entry that was copied without issues was copied. -/
private theorem perform_copyEntry_of_collectEntry
    (h : perform (collectEntry depth source target issues name) x = (.ok [], y)) :
    perform (copyEntry depth source target name x) x = (.ok (), y) := by
  have hfails : FailsWith (· ≠ .tree []) (copyEntry depth source target name x) :=
    .ite (.copyTreeUpTo _ _ _) (.copyFile (fun _ _ ↦ nofun) (fun _ _ ↦ nofun) _ _)
  rw [perform_collectEntry] at h
  cases hpart : perform (copyEntry depth source target name x) x with
  | mk result z =>
      rw [hpart] at h
      obtain ⟨hissues, rfl⟩ := Prod.mk.inj h
      have hnone := (List.append_eq_nil_iff.mp (Except.ok.inj hissues)).2
      rw [eq_ok_of_issuesOf (fun e he ↦ hfails x e z (hpart.trans (he ▸ rfl))) hnone]

/-- Entries are copied without issues exactly when the first is copied and then the others are
copied without issues. -/
theorem foldlM_collectEntry_cons_eq_ok :
    perform ((name :: names).foldlM (collectEntry depth source target) []) x = (.ok [], v) ↔
      ∃ y, perform (copyEntry depth source target name x) x = (.ok (), y) ∧
        perform (names.foldlM (collectEntry depth source target) []) y = (.ok [], v) := by
  rw [List.foldlM_cons]
  constructor
  · intro h
    obtain ⟨issues, y, hfirst, hrest⟩ := perform_bind_eq_ok.mp h
    obtain rfl := eq_nil_of_foldlM_collectEntry hrest
    exact ⟨y, perform_copyEntry_of_collectEntry hfirst, hrest⟩
  · rintro ⟨y, hfirst, hrest⟩
    refine perform_bind_eq_ok.mpr ⟨[], y, ?_, hrest⟩
    rw [perform_collectEntry, hfirst]
    rfl

end Issues

/-! ### Copying trees -/

namespace Copies

variable {source target : String} {x y : Workspace} {depth : Nat} {names : List String}

private theorem overlaid_copyEntry
    (htree : ∀ source target sl tl w v, Copies source target sl tl w →
      perform (copyTreeUpTo depth source target) w = (.ok (), v) → Overlaid sl tl w v)
    (h : Copies source target sl tl x) (hopen : x.isDirectory (.ofString target) = true)
    {e : Entry} (hfound : x.tree.find? (name :: sl) = some e)
    (hcopy : perform (copyEntry depth source target name x) x = (.ok (), y)) :
    Overlaid (name :: sl) (name :: tl) x y ∧ ChangedBelow tl x y := by
  have hname := h.sound.named name sl e hfound
  have hisDirectory : x.isDirectory (Reference.listed source name).path = true ↔
      x.tree.find? (name :: sl) = some .directory :=
    isDirectory_iff_of_resolve (h.resolve_listed hname)
  unfold copyEntry at hcopy
  split at hcopy
  · next hdirectory =>
      have hentry := h.entry hname (hisDirectory.mp hdirectory)
      have hbelow := h.isBelow_entry hname
      have hchanged := ChangedBelow.copyTreeUpTo depth hentry.source_ne_empty hbelow x
        (.refl tl h.sound)
      rw [hcopy] at hchanged
      exact ⟨htree _ _ _ _ _ _ hentry hcopy, hchanged⟩
  · next hdirectory =>
      have hsourceName : IsName (Reference.listed source name).path.name := by
        rw [Path.path_listed h.source_ne_empty hname.toIsPart, Path.name_entry]
        exact hname
      have hchanged := ChangedBelow.copyFile hsourceName (h.isBelow_entry hname) x
        (.refl tl h.sound)
      rw [hcopy] at hchanged
      cases e with
      | file bytes => exact ⟨h.overlaid_file hopen hname hfound hcopy, hchanged⟩
      | directory => exact absurd (hisDirectory.mpr hfound) hdirectory

private theorem overlaidBy_foldlM
    (htree : ∀ source target sl tl w v, Copies source target sl tl w →
      perform (copyTreeUpTo depth source target) w = (.ok (), v) → Overlaid sl tl w v)
    (hx : Copies source target sl tl x) (hopen : x.isDirectory (.ofString target) = true)
    (hnames : ∀ name ∈ names, ∃ e, x.tree.find? (name :: sl) = some e)
    (h : perform (names.foldlM (collectEntry depth source target) []) x = (.ok [], v)) :
    OverlaidBy names sl tl x v := by
  induction names generalizing x with
  | nil =>
      cases h
      exact ⟨nofun, fun _ _ ↦ rfl⟩
  | cons name names ih =>
      obtain ⟨y, hfirst, hrest⟩ := foldlM_collectEntry_cons_eq_ok.mp h
      obtain ⟨e, hfound⟩ := hnames name List.mem_cons_self
      obtain ⟨hentry, hchanged⟩ := hx.overlaid_copyEntry htree hopen hfound hfirst
      refine .cons hentry
        (ih (hx.after hentry hchanged) (hchanged.keeps.isDirectory hopen) ?_ hrest)
        hx.apart
      intro n hn
      rw [hentry.source_kept hx.apart (List.suffix_cons n sl)]
      exact hnames n (List.mem_cons_of_mem _ hn)

/-- What is copied can be copied when its target was made. -/
private theorem ensured (h : Copies source target sl tl w)
    (hmade : perform (ensureDirectory (.ofString target) target) w = (.ok (), v)) :
    Copies source target sl tl v := by
  have hchanged : ChangedBelow tl w (perform (ensureDirectory (.ofString target) target) w).2 :=
    .ensureDirectory h.isBelow.normal h.isBelow.place target w (.refl tl h.sound)
  have hview := find?_ensureDirectory hmade
  rw [hmade] at hchanged
  rw [h.place, funext_iff] at hview
  refine ⟨hchanged.sound, h.source_ne_empty, h.target_ne_empty, hchanged.keeps.resolve h.lead,
    hchanged.keeps.directory sl h.there, (place_congr hchanged.keeps.here _).trans h.place,
    h.apart, fun rel bytes hfile hdirectory ↦ ?_⟩
  rw [hchanged.elsewhere _ fun hsuffix ↦
    h.apart.not_suffix (List.suffix_append rel sl) hsuffix] at hfile
  rw [hview, View.withDirectories] at hdirectory
  split at hdirectory
  · next hrel =>
      cases List.append_left_eq_self.mp (List.mem_singleton.mp hrel)
      cases hfile.symm.trans h.there
  · exact h.free rel bytes hfile hdirectory

/-- Copying a tree lays it over its target. -/
theorem overlaid_copyTreeUpTo (h : Copies source target sl tl w)
    (hcopy : perform (copyTreeUpTo depth source target) w = (.ok (), v)) :
    Overlaid sl tl w v := by
  induction depth generalizing source target sl tl w v with
  | zero => cases hcopy
  | succ depth ih =>
      obtain ⟨_, _, hget, hcopy⟩ := perform_bind_eq_ok.mp hcopy
      cases hget
      obtain ⟨_, u, hmade, hcopy⟩ := perform_bind_eq_ok.mp hcopy
      obtain ⟨issues, _, hfold, hcopy⟩ := perform_bind_eq_ok.mp hcopy
      split at hcopy
      · next hissues =>
          cases hcopy
          obtain rfl := List.isEmpty_iff.mp hissues
          have hview := find?_ensureDirectory hmade
          rw [h.place] at hview
          refine OverlaidBy.overlaid h.sound h.apart h.there hview ?_
          rw [← names_of_resolve h.lead h.there]
          refine (h.ensured hmade).overlaidBy_foldlM
            (fun _ _ _ _ _ _ ↦ ih) (isDirectory_of_ensureDirectory hmade) ?_ hfold
          intro name hname
          rw [names_of_resolve h.lead h.there, Tree.mem_names] at hname
          rwa [find?_eq_of_withDirectories h.apart hview (List.suffix_cons name sl)]
      · cases hcopy

/-- A tree that was copied is laid over its target in the view. -/
theorem find?_copyTree (h : Copies source target sl tl w)
    (hcopy : perform (copyTree source target) w = (.ok (), v)) :
    v.tree.find? = View.withTree w.tree.find? sl tl := by
  obtain ⟨_, _, hget, hcopy⟩ := perform_bind_eq_ok.mp hcopy
  cases hget
  exact (h.overlaid_copyTreeUpTo hcopy).find?_eq

end Copies

end Workspace
end Vendoring.Files
