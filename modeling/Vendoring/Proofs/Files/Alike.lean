import Vendoring.Proofs.Files.LookUps
import Vendoring.Proofs.Files.Pairs
import Vendoring.Proofs.Files.Subtrees

/-!
# Files that look alike

Some operations write below certain places and read below others. Two workspaces look alike to them
when they are the same there, and when the same files are on the way there; a directory on the way
may be missing in one of them only, since it is made when it is needed. Along such operations the
two workspaces go on looking alike, and what else they hold stays as it was, except that the same
directories are there on the way to the places written.
-/

namespace Vendoring.Files

open Attempt

/-- Neither of two places is the other or above it. -/
def Apart (l m : Location) : Prop := ¬l <:+ m ∧ ¬m <:+ l

/-- Places below which operations write, and places apart from those below which they read. -/
structure Footprint where
  writes : List Location
  reads : List Location
  apart : ∀ d ∈ writes, ∀ s ∈ reads, Apart d s

namespace Footprint

variable (F : Footprint) (l : Location)

/-- The places at which operations begin. -/
def roots : List Location := F.writes ++ F.reads

/-- A place is where operations write. -/
def Writes : Prop := ∃ root ∈ F.writes, root <:+ l

/-- A place is where operations read. -/
def Reads : Prop := ∃ root ∈ F.reads, root <:+ l

/-- A place is where operations read or write. -/
def Covers : Prop := ∃ root ∈ F.roots, root <:+ l

/-- A place is on the way to where operations write. -/
def OnWay : Prop := ∃ root ∈ F.writes, l <:+ root

variable {F l}

/-- What is written is covered. -/
theorem Writes.covers (h : F.Writes l) : F.Covers l := by
  obtain ⟨root, hroot, hl⟩ := h
  exact ⟨root, List.mem_append_left _ hroot, hl⟩

/-- What is read is covered. -/
theorem Reads.covers (h : F.Reads l) : F.Covers l := by
  obtain ⟨root, hroot, hl⟩ := h
  exact ⟨root, List.mem_append_right _ hroot, hl⟩

/-- What is below a place that is covered is covered. -/
theorem Covers.of_suffix {m : Location} (h : F.Covers l) (hm : l <:+ m) : F.Covers m := by
  obtain ⟨root, hroot, hl⟩ := h
  exact ⟨root, hroot, hl.trans hm⟩

/-- What is below a place that is written is written. -/
theorem Writes.of_suffix {m : Location} (h : F.Writes l) (hm : l <:+ m) : F.Writes m := by
  obtain ⟨root, hroot, hl⟩ := h
  exact ⟨root, hroot, hl.trans hm⟩

/-- What is below a place that is read is read. -/
theorem Reads.of_suffix {m : Location} (h : F.Reads l) (hm : l <:+ m) : F.Reads m := by
  obtain ⟨root, hroot, hl⟩ := h
  exact ⟨root, hroot, hl.trans hm⟩

end Footprint

namespace Workspace

/-- There is no file at a place. -/
def NoFileAt (w : Workspace) (l : Location) : Prop :=
  ∀ bytes, w.tree.find? l ≠ some (.file bytes)

/-- Two workspaces that look alike to operations: what these read is the same, and so are the files
on the way. -/
structure Comparable (F : Footprint) (w v : Workspace) : Prop where
  left : w.Sound
  right : v.Sound
  here : v.here = w.here
  reads : ∀ l, F.Reads l → w.tree.find? l = v.tree.find? l
  files : ∀ root ∈ F.roots, ∀ l, l <:+ root → ∀ bytes,
    w.tree.find? l = some (.file bytes) ↔ v.tree.find? l = some (.file bytes)

/-- What operations have made of two workspaces that look alike to them. They still do; what has
been written is the same, and elsewhere nothing has changed but that directories are there in both
on the way to what is written. -/
structure Alike (F : Footprint) (w₀ v₀ w v : Workspace) : Prop where
  start : Comparable F w₀ v₀
  left : w.Sound
  right : v.Sound
  leftHere : w.here = w₀.here
  rightHere : v.here = w₀.here
  within : ∀ l, F.Writes l → w.tree.find? l = v.tree.find? l
  outside : ∀ l, ¬F.Writes l →
    (w.tree.find? l = w₀.tree.find? l ∧ v.tree.find? l = v₀.tree.find? l) ∨
    (F.OnWay l ∧ w₀.NoFileAt l ∧ v₀.NoFileAt l ∧
      w.tree.find? l = some .directory ∧ v.tree.find? l = some .directory)

namespace Alike

variable {F : Footprint} {w₀ v₀ w v : Workspace} {l : Location} {p q root : Path}
  {parts : List String} {name : String}

/-- What is covered is the same. -/
theorem find?_eq (h : Alike F w₀ v₀ w v) (hl : F.Covers l) :
    w.tree.find? l = v.tree.find? l := by
  by_cases hwrites : F.Writes l
  · exact h.within l hwrites
  · obtain ⟨hw, hv⟩ | ⟨_, _, _, hw, hv⟩ := h.outside l hwrites
    · obtain ⟨root, hroot, hsuffix⟩ := hl
      rw [hw, hv]
      rcases List.mem_append.mp hroot with hroot | hroot
      · exact absurd ⟨root, hroot, hsuffix⟩ hwrites
      · exact h.start.reads l ⟨root, hroot, hsuffix⟩
    · rw [hw, hv]

/-- What is read has not changed. -/
theorem left_find?_of_reads (h : Alike F w₀ v₀ w v) (hl : F.Reads l) :
    w.tree.find? l = w₀.tree.find? l := by
  obtain ⟨s, hs, hsl⟩ := hl
  have hwrites : ¬F.Writes l := by
    rintro ⟨d, hd, hdl⟩
    rcases List.suffix_or_suffix_of_suffix hdl hsl with hds | hsd
    · exact (F.apart d hd s hs).1 hds
    · exact (F.apart d hd s hs).2 hsd
  obtain ⟨hw, _⟩ | ⟨⟨d, hd, hld⟩, _⟩ := h.outside l hwrites
  · exact hw
  · exact absurd (hsl.trans hld) (F.apart d hd s hs).2

/-- The same files are on the way to what is covered. -/
theorem file_iff (h : Alike F w₀ v₀ w v) {root : Location} (hroot : root ∈ F.roots)
    (hl : l <:+ root) (bytes : List UInt8) :
    w.tree.find? l = some (.file bytes) ↔ v.tree.find? l = some (.file bytes) := by
  by_cases hwrites : F.Writes l
  · rw [h.within l hwrites]
  · obtain ⟨hw, hv⟩ | ⟨_, _, _, hw, hv⟩ := h.outside l hwrites
    · rw [hw, hv]
      exact h.start.files root hroot l hl bytes
    · rw [hw, hv]

/-- What is covered is blocked in both or in neither. -/
theorem blocked_iff (h : Alike F w₀ v₀ w v) (hl : F.Covers l) : w.Blocked l ↔ v.Blocked l := by
  have hsame : ∀ m bytes, m <:+ l →
      (w.tree.find? m = some (.file bytes) ↔ v.tree.find? m = some (.file bytes)) := by
    intro m bytes hm
    obtain ⟨root, hroot, hsuffix⟩ := hl
    rcases List.suffix_or_suffix_of_suffix hsuffix hm with hin | hon
    · rw [h.find?_eq ⟨root, hroot, hin⟩]
    · exact h.file_iff hroot hon bytes
  constructor
  · rintro ⟨m, bytes, hm, hfile⟩
    exact ⟨m, bytes, hm, (hsame m bytes hm).mp hfile⟩
  · rintro ⟨m, bytes, hm, hfile⟩
    exact ⟨m, bytes, hm, (hsame m bytes hm).mpr hfile⟩

/-- A path names the same place as before. -/
theorem left_place (h : Alike F w₀ v₀ w v) (p : Path) : w.place p = w₀.place p :=
  place_congr h.leftHere p

/-- A path names the same place in both. -/
theorem right_place (h : Alike F w₀ v₀ w v) (p : Path) : v.place p = w₀.place p :=
  place_congr h.rightHere p

/-- What a path inside another leads to is in the other's place. -/
theorem left_suffix_of_resolve (h : Alike F w₀ v₀ w v) (hp : p.IsInside root)
    (hlead : w.resolve p = .ok l) : w₀.place root <:+ l :=
  h.left_place root ▸ suffix_of_resolve hp hlead

/-- What a path inside a covered one leads to is the same. -/
theorem find?_eq_of_resolve (h : Alike F w₀ v₀ w v) (hcovers : F.Covers (w₀.place root))
    (hp : p.IsInside root) (hlead : w.resolve p = .ok l) : w.tree.find? l = v.tree.find? l :=
  h.find?_eq (hcovers.of_suffix (h.left_suffix_of_resolve hp hlead))

/-- A directory inside of what is read has been there from the start. -/
theorem directory_of_reads (h : Alike F w₀ v₀ w v) (hreads : F.Reads (w₀.place root))
    (hp : p.IsInside root) (hdirectory : w.isDirectory p = true) :
    w₀.tree.find? (w₀.place p) = some .directory := by
  obtain ⟨l, hlead, hl⟩ := isDirectory_iff.mp hdirectory
  rw [← h.left_place, place_of_resolve hlead,
    ← h.left_find?_of_reads (hreads.of_suffix (h.left_suffix_of_resolve hp hlead))]
  exact hl

/-! ### Reading -/

section Reading

variable (h : Alike F w₀ v₀ w v) (hroot : root.IsPlain) (hcovers : F.Covers (w₀.place root))
include h hroot hcovers

/-- From a directory that is covered a path inside it leads to the same place. -/
theorem resolve_eq (hp : p.IsInside root)
    (hdirectory : w.tree.find? (w₀.place root) = some .directory) : w.resolve p = v.resolve p := by
  obtain ⟨parts, rfl, hparts⟩ := hp.onward
  have hright : v.tree.find? (w₀.place root) = some .directory :=
    h.find?_eq hcovers ▸ hdirectory
  rw [← h.left_place] at hdirectory
  rw [← h.right_place] at hright
  rw [resolve_onward h.left hroot parts hdirectory, resolve_onward h.right hroot parts hright,
    h.left_place, h.right_place]
  exact walk_congr (fun k hk ↦ h.find?_eq (hcovers.of_suffix hk)) [] hparts

/-- An entry of a path inside a covered one leads to the same place, or is refused alike. -/
theorem resolve_entry_eq (hp : p.IsInside root) (hname : IsName name) :
    w.resolve (p.entry name) = v.resolve (p.entry name) := by
  have hentry := hp.entry hname
  obtain ⟨parts, rfl, hparts⟩ := hp.onward
  have honward := Path.entry_onward root parts name
  have hne : parts ++ [name] ≠ [] := by simp
  have hblocked := h.blocked_iff hcovers
  by_cases hleft : w.Blocked (w₀.place root)
  · rw [honward, resolve_onward_of_blocked h.left hroot hne (h.left_place root ▸ hleft),
      resolve_onward_of_blocked h.right hroot hne (h.right_place root ▸ hblocked.mp hleft)]
  · rcases hfound : w.tree.find? (w₀.place root) with _ | (bytes | _)
    · have hright : v.tree.find? (w₀.place root) = none := h.find?_eq hcovers ▸ hfound
      rw [honward, resolve_onward_of_missing hroot hne (h.left_place root ▸ hfound)
          (h.left_place root ▸ hleft),
        resolve_onward_of_missing hroot hne (h.right_place root ▸ hright)
          (h.right_place root ▸ fun hb ↦ hleft (hblocked.mpr hb))]
    · exact absurd ⟨_, bytes, List.suffix_rfl, hfound⟩ hleft
    · exact h.resolve_eq hroot hcovers hentry hfound

/-- A path inside a covered one leads to the same. -/
theorem find?_eq_of_isInside (hp : p.IsInside root) : w.find? p = v.find? p := by
  have hsame := h.find?_eq hcovers
  by_cases hfound : w.tree.find? (w₀.place root) = some .directory
  · unfold Workspace.find?
    rw [← h.resolve_eq hroot hcovers hp hfound]
    cases hlead : w.resolve p with
    | error e => rfl
    | ok l => exact h.find?_eq_of_resolve hcovers hp hlead
  · obtain ⟨parts, rfl, _⟩ := hp.onward
    cases parts with
    | nil =>
        rw [Path.onward_nil, find?_of_isPlain h.left hroot, find?_of_isPlain h.right hroot,
          h.left_place, h.right_place, hsame]
    | cons first rest =>
        rw [find?_onward_of_ne h.left hroot (List.cons_ne_nil _ _) (h.left_place root ▸ hfound),
          find?_onward_of_ne h.right hroot (List.cons_ne_nil _ _)
            (h.right_place root ▸ hsame ▸ hfound)]

/-- A path inside a covered one is refused alike. -/
theorem refusesName_eq (hp : p.IsInside root) : w.refusesName p = v.refusesName p := by
  have hsame := h.find?_eq hcovers
  by_cases hfound : w.tree.find? (w₀.place root) = some .directory
  · unfold refusesName
    rw [h.resolve_eq hroot hcovers hp hfound]
  · obtain ⟨parts, rfl, _⟩ := hp.onward
    cases parts with
    | nil =>
        have hshort : ∀ name ∈ root.parts, isShort name = true :=
          fun name hname ↦ (hroot name hname).short
        rw [Path.onward_nil, refusesName_of_isShort hshort, refusesName_of_isShort hshort]
    | cons first rest =>
        rw [refusesName_onward_of_ne h.left hroot (List.cons_ne_nil _ _)
            (h.left_place root ▸ hfound),
          refusesName_onward_of_ne h.right hroot (List.cons_ne_nil _ _)
            (h.right_place root ▸ hsame ▸ hfound)]

/-- A path inside a covered one is told to lead to the same. -/
theorem lookUp_eq (hp : p.IsInside root) : w.lookUp p = v.lookUp p :=
  lookUp_congr (h.find?_eq_of_isInside hroot hcovers hp) (h.refusesName_eq hroot hcovers hp)

/-- A path inside a covered one leads to directories alike. -/
theorem isDirectory_eq (hp : p.IsInside root) : w.isDirectory p = v.isDirectory p := by
  unfold isDirectory
  rw [h.find?_eq_of_isInside hroot hcovers hp]

/-- A path inside a covered one leads to the same content. -/
theorem content?_eq (hp : p.IsInside root) : w.content? p = v.content? p := by
  unfold content?
  rw [h.find?_eq_of_isInside hroot hcovers hp]

/-- A path inside a covered one leads to the same names. -/
theorem names_eq (hp : p.IsInside root) : w.names p = v.names p := by
  have hsame := h.isDirectory_eq hroot hcovers hp
  cases hdirectory : w.isDirectory p with
  | false =>
      rw [names_eq_nil_of_not_isDirectory hdirectory,
        names_eq_nil_of_not_isDirectory (hsame ▸ hdirectory)]
  | true =>
      have hthere := directory_of_isDirectory h.left hroot hp hdirectory
      have hresolve := h.resolve_eq hroot hcovers hp (h.left_place root ▸ hthere)
      unfold names
      rw [← hresolve, ← hsame, hdirectory]
      cases hlead : w.resolve p with
      | error e => rfl
      | ok l =>
          refine Tree.names_congr fun name ↦ h.find?_eq (hcovers.of_suffix ?_)
          exact (h.left_suffix_of_resolve hp hlead).trans (List.suffix_cons name l)

end Reading

/-! ### Writing -/

/-- Putting one entry in both where operations write keeps workspaces alike. -/
theorem put (h : Alike F w₀ v₀ w v) (hl : F.Writes (name :: l)) {e : Entry}
    (hleft : Sound { w with tree := w.tree.put (name :: l) e })
    (hright : Sound { v with tree := v.tree.put (name :: l) e }) :
    Alike F w₀ v₀ { w with tree := w.tree.put (name :: l) e }
      { v with tree := v.tree.put (name :: l) e } where
  start := h.start
  left := hleft
  right := hright
  leftHere := h.leftHere
  rightHere := h.rightHere
  within m hm := by
    dsimp only
    rw [Tree.find?_put _ (List.cons_ne_nil _ _), Tree.find?_put _ (List.cons_ne_nil _ _),
      h.within m hm]
  outside m hm := by
    have hne : m ≠ name :: l := fun heq ↦ hm (heq ▸ hl)
    dsimp only
    rw [Tree.find?_put_of_ne _ hne, Tree.find?_put_of_ne _ hne]
    exact h.outside m hm

/-- Making the directories on the way to one where operations write keeps workspaces alike. -/
theorem opened (h : Alike F w₀ v₀ w v) (hl : F.Writes l) (hnames : ∀ name ∈ l, IsName name)
    (hfree : ¬w.Blocked l) {w' v' : Workspace} (hw : Opened l w w') (hv : Opened l v v') :
    Alike F w₀ v₀ w' v' where
  start := h.start
  left := hw.sound h.left hnames
  right := hv.sound h.right hnames
  leftHere := hw.here.trans h.leftHere
  rightHere := hv.here.trans h.rightHere
  within m hm := by
    rw [hw.find?, hv.find?, h.within m hm]
  outside m hm := by
    rw [hw.find?, hv.find?]
    by_cases hon : m <:+ l
    · rw [if_pos hon, if_pos hon]
      right
      have hway : F.OnWay m := by
        obtain ⟨root, hroot, hsuffix⟩ := hl
        rcases List.suffix_or_suffix_of_suffix hsuffix hon with hin | hway
        · exact absurd ⟨root, hroot, hin⟩ hm
        · exact ⟨root, hroot, hway⟩
      have hfree' : ¬v.Blocked l := fun hb ↦ hfree ((h.blocked_iff hl.covers).mpr hb)
      obtain ⟨hw₀, hv₀⟩ | ⟨_, hw₀, hv₀, _⟩ := h.outside m hm
      · exact ⟨hway, fun bytes hfile ↦ hfree ⟨m, bytes, hon, hw₀.trans hfile⟩,
          fun bytes hfile ↦ hfree' ⟨m, bytes, hon, hv₀.trans hfile⟩, rfl, rfl⟩
      · exact ⟨hway, hw₀, hv₀, rfl, rfl⟩
    · rw [if_neg hon, if_neg hon]
      exact h.outside m hm

end Alike

/-- Workspaces that are alike, in which a path that is written to is a directory. -/
def Ready (F : Footprint) (w₀ v₀ : Workspace) (d : Path) (w v : Workspace) : Prop :=
  Alike F w₀ v₀ w v ∧ w.tree.find? (w₀.place d) = some .directory

section Writing

variable {F : Footprint} {w₀ v₀ w v : Workspace} {d p : Path} {l : Location}

/-- Making directories where operations write is done in both, or refused in both. -/
theorem paired_makeDirectories (hp : p.IsPlain) (hl : F.Writes (w₀.place p)) :
    Attempt.Paired (Alike F w₀ v₀) (Same (Ready F w₀ v₀ p)) (Alike F w₀ v₀) (makeDirectories p)
      (makeDirectories p) := by
  intro w v h
  have hblocked := h.blocked_iff hl.covers
  have hsame := h.find?_eq hl.covers
  have hplace := h.left_place p
  have hplace' := h.right_place p
  by_cases hleft : w.Blocked (w₀.place p)
  · rw [perform_makeDirectories_of_blocked h.left hp (hplace ▸ hleft),
      perform_makeDirectories_of_blocked h.right hp (hplace' ▸ hblocked.mp hleft), hplace, hplace',
      hsame]
    exact .error h
  · have hright : ¬v.Blocked (w₀.place p) := fun hb ↦ hleft (hblocked.mpr hb)
    obtain ⟨w', hw', hopened⟩ := exists_perform_makeDirectories h.left hp (hplace ▸ hleft)
    obtain ⟨v', hv', hopened'⟩ := exists_perform_makeDirectories h.right hp (hplace' ▸ hright)
    rw [hplace] at hopened
    rw [hplace'] at hopened'
    rw [hw', hv']
    refine .ok ⟨rfl, h.opened hl ?_ hleft hopened hopened', ?_⟩
    · exact hplace ▸ h.left.isName_of_mem_place hp
    · rw [hopened.find?, if_pos List.suffix_rfl]

/-- Making an entry of where operations write a directory, with all directories on the way, is done
in both, or refused in both. -/
theorem paired_makeDirectories_entry (hd : d.IsPlain) (hwrites : F.Writes (w₀.place d))
    {name : String} (hname : IsName name) :
    Attempt.Paired (Alike F w₀ v₀) (Same (Ready F w₀ v₀ d)) (Alike F w₀ v₀)
      (makeDirectories (d.entry name)) (makeDirectories (d.entry name)) := by
  have hplace := place_entry w₀ d hname.ne_dots
  have hentry : F.Writes (w₀.place (d.entry name)) :=
    hplace ▸ hwrites.of_suffix (List.suffix_cons _ _)
  refine (paired_makeDirectories (hd.entry hname) hentry).mono (fun _ _ h ↦ h) ?_ fun _ _ h ↦ h
  rintro _ _ w v ⟨hsame, halike, hthere⟩
  rw [hplace] at hthere
  exact ⟨hsame, halike, halike.left.above _ _ _ hthere⟩

/-- What a path inside a directory that is written to leads to may be given an entry in both. -/
theorem Ready.put (h : Ready F w₀ v₀ d w v) (hd : d.IsPlain) (hwrites : F.Writes (w₀.place d))
    (hp : p.IsInside d) (hlead : w.resolve p = .ok l) (hl : w.tree.find? l ≠ some .directory)
    (e : Entry) :
    Ready F w₀ v₀ d { w with tree := w.tree.put l e } { v with tree := v.tree.put l e } := by
  obtain ⟨halike, hdirectory⟩ := h
  have hsame := halike.find?_eq_of_resolve hwrites.covers hp hlead
  have hright : v.resolve p = .ok l :=
    halike.resolve_eq hd hwrites.covers hp hdirectory ▸ hlead
  obtain ⟨name, k, rfl, hk, hname, hdots, hshort⟩ := exists_cons_of_resolve halike.left hlead hl
  obtain ⟨_, _, hcons, hk', _⟩ := exists_cons_of_resolve halike.right hright (hsame ▸ hl)
  cases hcons
  have hisName : IsName name := ⟨hp.normal name hname, hdots, hshort⟩
  have hwritten := hwrites.of_suffix (halike.left_suffix_of_resolve hp hlead)
  refine ⟨halike.put hwritten ?_ ?_, ?_⟩
  · exact halike.left.put hisName hk hl e
  · exact halike.right.put hisName hk' (hsame ▸ hl) e
  · exact (KeepsDirectories.put e hl).directory _ hdirectory

/-- A file is written inside a directory in both, or refused in both. -/
theorem paired_writeFile (hd : d.IsPlain) (hwrites : F.Writes (w₀.place d)) (hp : p.IsInside d)
    (bytes : List UInt8) :
    Attempt.Paired (Ready F w₀ v₀ d) (Same (Ready F w₀ v₀ d)) (Ready F w₀ v₀ d)
      (writeFile p bytes) (writeFile p bytes) := by
  intro w v h
  have hresolve := h.1.resolve_eq hd hwrites.covers hp h.2
  rw [perform_writeFile, perform_writeFile, ← hresolve]
  cases hlead : w.resolve p with
  | error e => exact .error h
  | ok l =>
      dsimp only
      rw [← h.1.find?_eq_of_resolve hwrites.covers hp hlead]
      split
      · exact .error h
      · next hfree => exact .ok ⟨rfl, h.put hd hwrites hp hlead hfree _⟩

/-- A directory is made inside a directory in both unless it is there, or refused in both. -/
theorem paired_ensureDirectory (hd : d.IsPlain) (hwrites : F.Writes (w₀.place d))
    (hp : p.IsInside d) (text : String) :
    Attempt.Paired (Ready F w₀ v₀ d) (Same (Ready F w₀ v₀ d)) (Ready F w₀ v₀ d)
      (ensureDirectory p text) (ensureDirectory p text) := by
  refine Attempt.Paired.tryCatch (S := Ready F w₀ v₀ d) (.named ?_ text) fun e ↦ ?_
  · intro w v h
    have hresolve := h.1.resolve_eq hd hwrites.covers hp h.2
    rw [perform_makeDirectory, perform_makeDirectory, ← hresolve]
    cases hlead : w.resolve p with
    | error e => exact .error h
    | ok l =>
        dsimp only
        rw [← h.1.find?_eq_of_resolve hwrites.covers hp hlead]
        cases hfound : w.tree.find? l with
        | some e => exact .error h
        | none => exact .ok ⟨rfl, h.put hd hwrites hp hlead (hfound ▸ nofun) _⟩
  · refine Attempt.Paired.getBind fun w v h ↦ ?_
    rw [h.1.isDirectory_eq hd hwrites.covers hp]
    split
    · exact .pure fun _ _ h ↦ ⟨rfl, h⟩
    · exact .throw e fun _ _ h ↦ h

end Writing

end Workspace
end Vendoring.Files
