import Vendoring.Proofs.Files.Frames
import Vendoring.Proofs.Files.PathText
import Vendoring.Proofs.Files.Repeating

/-!
# Sound workspaces

In a file system every entry is in a directory and has a name, and the current directory is there.
A name is neither empty nor one or two dots, holds no slash, and is short.
Under these laws what a path leads to can be told from the place that it names, as long as it does
not lead upwards: the path is refused if a file is on the way to its directory or the directory is
missing. Making directories either makes all that are missing or is refused by a file on the way and
does nothing.
-/

namespace Vendoring.Files

open Attempt

/-- What an entry of a directory may be called. -/
structure IsName (name : String) : Prop extends IsPart name where
  ne_dots : name ≠ ".."
  short : isShort name = true

instance (name : String) : Decidable (IsName name) :=
  decidable_of_iff
    (name ≠ "" ∧ name ≠ "." ∧ '/' ∉ name.toList ∧ name ≠ ".." ∧ isShort name = true)
    ⟨fun h ↦ ⟨⟨h.1, h.2.1, h.2.2.1⟩, h.2.2.2.1, h.2.2.2.2⟩,
      fun h ↦ ⟨h.ne_empty, h.ne_dot, h.slash_notMem, h.ne_dots, h.short⟩⟩

/-- A path of names, which never leads upwards. -/
def Path.IsPlain (p : Path) : Prop := ∀ part ∈ p.parts, IsName part

instance (p : Path) : Decidable p.IsPlain :=
  inferInstanceAs (Decidable (∀ part ∈ p.parts, IsName part))

/-- A plain path is in normal form. -/
theorem Path.IsPlain.isNormal {p : Path} (h : p.IsPlain) : p.IsNormal :=
  fun part hpart ↦ (h part hpart).toIsPart

/-- The directory above a plain path is named by a plain path. -/
theorem Path.IsPlain.parent {p : Path} (h : p.IsPlain) : p.parent.IsPlain :=
  fun part hpart ↦ h part ((List.dropLast_subset p.parts) hpart)

/-- An entry of a plain path is plain. -/
theorem Path.IsPlain.entry {p : Path} (h : p.IsPlain) {name : String} (hname : IsName name) :
    (p.entry name).IsPlain := by
  intro part hpart
  rcases List.mem_append.mp hpart with hp | hp
  · exact h part hp
  · rw [List.mem_singleton.mp hp]
    exact hname

/-- The path that goes on from a path with more parts. -/
def Path.onward (p : Path) (parts : List String) : Path := { p with parts := p.parts ++ parts }

/-- A path goes on with no more parts as it is. -/
theorem Path.onward_nil (p : Path) : p.onward [] = p := by
  rw [Path.onward, List.append_nil]

/-- An entry goes on from the directory with its name. -/
theorem Path.entry_eq_onward (p : Path) (name : String) : p.entry name = p.onward [name] := rfl

/-- An entry of a path that goes on from another goes on from it, too. -/
theorem Path.entry_onward (p : Path) (parts : List String) (name : String) :
    (p.onward parts).entry name = p.onward (parts ++ [name]) := by
  unfold Path.entry Path.onward
  rw [List.append_assoc]

/-- A path with parts is an entry of the path above it. -/
theorem Path.entry_parent {p : Path} (hp : p.parts ≠ []) : p.parent.entry p.name = p := by
  obtain ⟨anchor, parts⟩ := p
  unfold Path.entry Path.parent Path.name
  rw [List.getLast?_eq_some_getLast hp, Option.getD_some]
  dsimp only
  rw [List.dropLast_concat_getLast]

/-- The last part of a plain path is a name. -/
theorem Path.IsPlain.isName_name {p : Path} (h : p.IsPlain) (hp : p.parts ≠ []) :
    IsName p.name := by
  unfold Path.name
  rw [List.getLast?_eq_some_getLast hp, Option.getD_some]
  exact h _ (List.getLast_mem hp)

namespace Workspace

/-- The laws of a file system: the current directory is there, every entry is in a directory, and
every entry has a name. -/
structure Sound (w : Workspace) : Prop where
  here : w.tree.find? w.here = some .directory
  above : ∀ name l e, w.tree.find? (name :: l) = some e → w.tree.find? l = some .directory
  named : ∀ name l e, w.tree.find? (name :: l) = some e → IsName name

/-- A workspace is sound when each of its entries has a name and is in a directory, and the current
directory is there. -/
theorem sound_of_entries {w : Workspace} (hhere : w.tree.find? w.here = some .directory)
    (hentries : ∀ x ∈ w.tree.entries,
      IsName (x.1.headD "") ∧ w.tree.find? x.1.tail = some .directory) : w.Sound := by
  have hfound : ∀ name l e, w.tree.find? (name :: l) = some e →
      (name :: l, e) ∈ w.tree.entries := by
    intro name l e h
    obtain ⟨_, _, hsplit, _⟩ := List.lookup_eq_some_iff.mp h
    rw [hsplit]
    exact List.mem_append_right _ List.mem_cons_self
  exact ⟨hhere, fun name l e h ↦ (hentries _ (hfound name l e h)).2,
    fun name l e h ↦ (hentries _ (hfound name l e h)).1⟩

/-- A file is on the way to a place, or at the place itself. -/
def Blocked (w : Workspace) (l : Location) : Prop :=
  ∃ m bytes, m <:+ l ∧ w.tree.find? m = some (.file bytes)

variable {w v : Workspace} {p : Path} {l m : Location} {e : Entry}

namespace Sound

/-- Whatever is above an entry is a directory. -/
theorem directory_of_suffix (hw : w.Sound) (hl : w.tree.find? l = some e) (hm : m <:+ l)
    (hne : m ≠ l) : w.tree.find? m = some .directory := by
  induction l generalizing e with
  | nil => exact absurd (List.suffix_nil.mp hm) hne
  | cons name l ih =>
      have habove := hw.above name l e hl
      rcases List.suffix_cons_iff.mp hm with rfl | hm
      · exact absurd rfl hne
      · by_cases h : m = l
        · exact h ▸ habove
        · exact ih habove hm h

/-- A path starts in a directory. -/
theorem start (hw : w.Sound) (p : Path) : w.tree.find? (w.start p) = some .directory := by
  unfold Workspace.start
  split
  · exact hw.here
  · rfl

/-- All names of a place with an entry are names. -/
theorem isName_of_mem (hw : w.Sound) (hl : w.tree.find? l = some e) {name : String}
    (hname : name ∈ l) : IsName name := by
  induction l generalizing e with
  | nil => cases hname
  | cons first l ih =>
      rcases List.mem_cons.mp hname with rfl | hname
      · exact hw.named _ _ _ hl
      · exact ih (hw.above first l e hl) hname

/-- A file on the way to a place below a directory is below that directory. -/
theorem suffix_of_blocked (hw : w.Sound) {bytes : List UInt8} {k : Location}
    (hl : w.tree.find? l = some .directory) (hlk : l <:+ k) (hm : m <:+ k)
    (hfile : w.tree.find? m = some (.file bytes)) : l <:+ m := by
  rcases List.suffix_or_suffix_of_suffix hlk hm with h | h
  · exact h
  · by_cases hne : m = l
    · exact hne ▸ List.suffix_rfl
    · rw [hw.directory_of_suffix hl h hne] at hfile
      cases hfile

/-- Nothing is on the way to a directory but directories. -/
theorem not_blocked_of_directory (hw : w.Sound) (hl : w.tree.find? l = some .directory) :
    ¬w.Blocked l := by
  rintro ⟨m, bytes, hm, hfile⟩
  by_cases hne : m = l
  · rw [hne, hl] at hfile
    cases hfile
  · rw [hw.directory_of_suffix hl hm hne] at hfile
    cases hfile

/-- Behind a file there is nothing. -/
theorem find?_eq_none_of_blocked (hw : w.Sound) (hl : w.Blocked l) (name : String) :
    w.tree.find? (name :: l) = none := by
  cases hfound : w.tree.find? (name :: l) with
  | none => rfl
  | some e => exact absurd hl (hw.not_blocked_of_directory (hw.above name l e hfound))

end Sound

/-! ### Following names -/

/-- From a directory a name is followed to its entry. -/
theorem walk_cons_of_isName {t : Tree} {l : Location} {name : String}
    (hl : t.find? l = some .directory) (hname : IsName name) (rest : List String) :
    walk t l (name :: rest) = walk t (name :: l) rest := by
  rw [walk, hl]
  dsimp only
  rw [if_neg hname.ne_dots, if_pos hname.short]

private theorem walk_append_of_directory (hw : w.Sound) {names : List String}
    (hnames : ∀ name ∈ names, IsName name) (rest : List String) (l : Location)
    (hl : w.tree.find? (names.reverse ++ l) = some .directory) :
    walk w.tree l (names ++ rest) = walk w.tree (names.reverse ++ l) rest := by
  induction names generalizing l with
  | nil => rfl
  | cons name names ih =>
      have hfirst : w.tree.find? l = some .directory := by
        refine hw.directory_of_suffix hl (List.suffix_append _ _) fun h ↦ ?_
        have hlength := congrArg List.length h
        rw [List.length_append, List.length_reverse, List.length_cons] at hlength
        omega
      have hnext : (name :: names).reverse ++ l = names.reverse ++ name :: l := by simp
      rw [hnext] at hl ⊢
      rw [List.cons_append, walk_cons_of_isName hfirst (hnames name List.mem_cons_self)]
      exact ih (fun n hn ↦ hnames n (List.mem_cons_of_mem _ hn)) (name :: l) hl

private theorem walk_of_file (hw : w.Sound) {names : List String}
    (hnames : ∀ name ∈ names, IsName name) {rest : List String} (hrest : rest ≠ [])
    {bytes : List UInt8} (hfile : w.tree.find? m = some (.file bytes)) (l : Location)
    (hl : l <:+ m) (hm : m <:+ names.reverse ++ l) :
    walk w.tree l (names ++ rest) = .error .notDirectory := by
  induction names generalizing l with
  | nil =>
      obtain rfl : m = l := List.IsSuffix.eq_of_length_le hm hl.length_le
      cases rest with
      | nil => exact absurd rfl hrest
      | cons first rest => rw [List.nil_append, walk, hfile]
  | cons name names ih =>
      rw [List.cons_append]
      by_cases hne : l = m
      · rw [walk, hne, hfile]
      · have hfirst := hw.directory_of_suffix hfile hl hne
        have hnext : (name :: names).reverse ++ l = names.reverse ++ name :: l := by simp
        rw [hnext] at hm
        have hbelow : name :: l <:+ m := by
          rcases List.suffix_or_suffix_of_suffix (List.suffix_append _ _) hm with h | h
          · exact h
          · rcases List.suffix_cons_iff.mp h with h | h
            · exact h ▸ List.suffix_rfl
            · exact absurd (hl.eq_of_length_le h.length_le) hne
        rw [walk_cons_of_isName hfirst (hnames name List.mem_cons_self)]
        exact ih (fun n hn ↦ hnames n (List.mem_cons_of_mem _ hn)) (name :: l) hbelow hm

private theorem walk_of_missing {names : List String} (hnames : ∀ name ∈ names, IsName name)
    {rest : List String} (hrest : rest ≠ []) (l : Location)
    (hmissing : w.tree.find? (names.reverse ++ l) = none)
    (hfree : ¬w.Blocked (names.reverse ++ l)) :
    walk w.tree l (names ++ rest) = .error .noEntry := by
  induction names generalizing l with
  | nil =>
      cases rest with
      | nil => exact absurd rfl hrest
      | cons first rest =>
          rw [List.nil_append, walk]
          rw [List.reverse_nil, List.nil_append] at hmissing
          rw [hmissing]
  | cons name names ih =>
      have hnext : (name :: names).reverse ++ l = names.reverse ++ name :: l := by simp
      have hl : l <:+ names.reverse ++ name :: l := hnext ▸ List.suffix_append _ _
      rw [hnext] at hmissing hfree
      rw [List.cons_append]
      rcases hfound : w.tree.find? l with _ | (bytes | _)
      · rw [walk, hfound]
      · exact absurd ⟨l, bytes, hl, hfound⟩ hfree
      · rw [walk_cons_of_isName hfound (hnames name List.mem_cons_self)]
        exact ih (fun n hn ↦ hnames n (List.mem_cons_of_mem _ hn)) (name :: l) hmissing hfree

/-! ### Where paths lead -/

/-- The place that a path names is found part by part. -/
theorem place_onward (w : Workspace) (p : Path) (parts : List String) :
    w.place (p.onward parts) =
      parts.foldl (fun l name ↦ if name = ".." then l.tail else name :: l) (w.place p) := by
  unfold place Path.onward
  exact List.foldl_append

/-- The place of an entry is its name in the place of the directory. -/
theorem place_entry (w : Workspace) (p : Path) {name : String} (hname : name ≠ "..") :
    w.place (p.entry name) = name :: w.place p := by
  rw [Path.entry_eq_onward, place_onward, List.foldl_cons, if_neg hname]
  rfl

/-- The place of a plain path is that of its names. -/
theorem place_of_isPlain (w : Workspace) (hp : p.IsPlain) :
    w.place p = p.parts.reverse ++ w.start p := by
  unfold place
  generalize w.start p = l
  have hparts : ∀ name ∈ p.parts, name ≠ ".." := fun name hname ↦ (hp name hname).ne_dots
  generalize p.parts = parts at hparts
  induction parts generalizing l with
  | nil => rfl
  | cons name parts ih =>
      rw [List.foldl_cons, if_neg (hparts name List.mem_cons_self),
        ih _ fun n hn ↦ hparts n (List.mem_cons_of_mem _ hn)]
      simp

section Onward

variable {parts : List String} (hw : w.Sound) (hp : p.IsPlain)
include hw hp

/-- From a directory a path goes on along its further parts. -/
theorem resolve_onward (parts : List String) (h : w.tree.find? (w.place p) = some .directory) :
    w.resolve (p.onward parts) = walk w.tree (w.place p) parts := by
  rw [place_of_isPlain w hp] at h ⊢
  exact walk_append_of_directory hw hp parts _ h

/-- A path does not go on behind a file. -/
theorem resolve_onward_of_blocked (hparts : parts ≠ []) (h : w.Blocked (w.place p)) :
    w.resolve (p.onward parts) = .error .notDirectory := by
  obtain ⟨m, bytes, hm, hfile⟩ := h
  rw [place_of_isPlain w hp] at hm
  exact walk_of_file hw hp hparts hfile _
    (hw.suffix_of_blocked (hw.start p) (List.suffix_append _ _) hm hfile) hm

omit hw in
/-- A path does not go on where nothing is. -/
theorem resolve_onward_of_missing (hparts : parts ≠ [])
    (hmissing : w.tree.find? (w.place p) = none) (hfree : ¬w.Blocked (w.place p)) :
    w.resolve (p.onward parts) = .error .noEntry := by
  rw [place_of_isPlain w hp] at hmissing hfree
  exact walk_of_missing hp hparts _ hmissing hfree

/-- Behind anything but a directory a path leads to nothing. -/
theorem find?_onward_of_ne (hparts : parts ≠ [])
    (h : w.tree.find? (w.place p) ≠ some .directory) : w.find? (p.onward parts) = none := by
  unfold Workspace.find?
  by_cases hblocked : w.Blocked (w.place p)
  · rw [resolve_onward_of_blocked hw hp hparts hblocked]
  · rcases hfound : w.tree.find? (w.place p) with _ | (bytes | _)
    · rw [resolve_onward_of_missing hp hparts hfound hblocked]
    · exact absurd ⟨_, bytes, List.suffix_rfl, hfound⟩ hblocked
    · exact absurd hfound h

/-- An entry of a directory leads to its place. -/
theorem resolve_entry {name : String} (hname : IsName name)
    (h : w.tree.find? (w.place p) = some .directory) :
    w.resolve (p.entry name) = .ok (name :: w.place p) := by
  rw [Path.entry_eq_onward, resolve_onward hw hp [name] h, walk_cons_of_isName h hname]
  rfl

/-- A plain path leads to what is at its place. -/
theorem find?_of_isPlain : w.find? p = w.tree.find? (w.place p) := by
  by_cases hparts : p.parts = []
  · have hresolve : w.resolve p = .ok (w.place p) := by
      unfold Workspace.resolve place
      rw [hparts]
      rfl
    rw [Workspace.find?, hresolve]
  have hq := hp.parent
  have hname := hp.isName_name hparts
  rw [← Path.entry_parent hparts, place_entry w _ hname.ne_dots]
  by_cases habove : w.tree.find? (w.place p.parent) = some .directory
  · rw [Workspace.find?, resolve_entry hw hq hname habove]
  · rw [Path.entry_eq_onward, find?_onward_of_ne hw hq (List.cons_ne_nil _ _) habove]
    cases hfound : w.tree.find? (p.name :: w.place p.parent) with
    | none => rfl
    | some e => exact absurd (hw.above _ _ e hfound) habove

/-- A plain path leads to a directory exactly when one is at its place. -/
theorem isDirectory_of_isPlain :
    w.isDirectory p = true ↔ w.tree.find? (w.place p) = some .directory := by
  unfold isDirectory
  rw [find?_of_isPlain hw hp]
  split
  · next h => exact ⟨fun _ ↦ h, fun _ ↦ rfl⟩
  · next h => exact ⟨nofun, fun hl ↦ absurd hl h⟩

end Onward

/-! ### Making directories -/

/-- The directories on the way to a place, and one at the place itself, are there now, and nothing
else has changed. -/
structure Opened (l : Location) (w v : Workspace) : Prop where
  here : v.here = w.here
  find? : ∀ m, v.tree.find? m = if m <:+ l then some .directory else w.tree.find? m

namespace Opened

/-- Where all directories are there nothing needs to change. -/
theorem refl (hw : w.Sound) (hl : w.tree.find? l = some .directory) : Opened l w w := by
  refine ⟨rfl, fun m ↦ ?_⟩
  split
  · next hm =>
      by_cases hne : m = l
      · exact hne ▸ hl
      · exact hw.directory_of_suffix hl hm hne
  · rfl

/-- What is opened stays sound. -/
theorem sound (h : Opened l w v) (hw : w.Sound)
    (hnames : ∀ name ∈ l, IsName name) : v.Sound where
  here := by
    rw [h.find?, h.here, hw.here]
    split
    · rfl
    · rfl
  above name m e hfound := by
    rw [h.find?] at hfound ⊢
    split
    · rfl
    · next hm =>
        rw [if_neg fun hsuffix ↦ hm ((List.suffix_cons name m).trans hsuffix)] at hfound
        exact hw.above name m e hfound
  named name m e hfound := by
    rw [h.find?] at hfound
    split at hfound
    · next hsuffix => exact hnames name (hsuffix.subset List.mem_cons_self)
    · exact hw.named name m e hfound

/-- A directory in an opened one is opened. -/
theorem cons (h : Opened l w v) (name : String) :
    Opened (name :: l) w { v with tree := v.tree.put (name :: l) .directory } := by
  refine ⟨h.here, fun m ↦ ?_⟩
  dsimp only
  rw [Tree.find?_put _ (List.cons_ne_nil _ _), h.find?]
  by_cases hm : m = name :: l
  · rw [if_pos hm, if_pos (hm ▸ List.suffix_rfl)]
  · have hsuffix : m <:+ name :: l ↔ m <:+ l := by
      rw [List.suffix_cons_iff]
      exact or_iff_right hm
    rw [if_neg hm]
    simp only [hsuffix]

end Opened

/-- The place of a plain path consists of names. -/
theorem Sound.isName_of_mem_place (hw : w.Sound) (hp : p.IsPlain) :
    ∀ name ∈ w.place p, IsName name := by
  intro name hname
  rw [place_of_isPlain w hp, List.mem_append, List.mem_reverse] at hname
  rcases hname with h | h
  · exact hp name h
  · exact hw.isName_of_mem (hw.start p) h

private theorem perform_makeDirectory_entry (hw : w.Sound) (hp : p.IsPlain) {name : String}
    (hname : IsName name) (h : w.tree.find? (w.place p) = some .directory) :
    perform (makeDirectory (p.entry name)) w = match w.tree.find? (name :: w.place p) with
      | some _ => (.error .alreadyExists, w)
      | none => (.ok (), { w with tree := w.tree.put (name :: w.place p) .directory }) := by
  have hmade := perform_makeDirectory (p.entry name) w
  rw [resolve_entry hw hp hname h] at hmade
  exact hmade

private theorem parts_ne_nil_of_blocked (hw : w.Sound) (h : w.Blocked (w.place p)) :
    p.parts ≠ [] := by
  intro hparts
  refine hw.not_blocked_of_directory ?_ h
  unfold place
  rw [hparts]
  exact hw.start p

/-- Making a plain directory is refused by a file on the way, and nothing is done. -/
theorem perform_makeDirectories_of_blocked (hw : w.Sound) (hp : p.IsPlain)
    (h : w.Blocked (w.place p)) :
    perform (makeDirectories p) w =
      (.error (.system (if (w.tree.find? (w.place p)).isSome then .alreadyExists
        else .notDirectory) p.text), w) := by
  have hparts := parts_ne_nil_of_blocked hw h
  have hq := hp.parent
  have hname := hp.isName_name hparts
  have hmade : perform (makeDirectory p) w = (.error
      (if (w.tree.find? (w.place p)).isSome then .alreadyExists else .notDirectory), w) := by
    rw [← Path.entry_parent hparts, place_entry w _ hname.ne_dots]
    by_cases hblocked : w.Blocked (w.place p.parent)
    · rw [hw.find?_eq_none_of_blocked hblocked, perform_makeDirectory,
        Path.entry_eq_onward, resolve_onward_of_blocked hw hq (List.cons_ne_nil _ _) hblocked]
      rfl
    · obtain ⟨m, bytes, hm, hfile⟩ := h
      rw [← Path.entry_parent hparts, place_entry w _ hname.ne_dots] at hm
      obtain rfl : m = p.name :: w.place p.parent := by
        rcases List.suffix_cons_iff.mp hm with h | h
        · exact h
        · exact absurd ⟨m, bytes, h, hfile⟩ hblocked
      rw [perform_makeDirectory_entry hw hq hname (hw.above _ _ _ hfile), hfile]
      rfl
  have hno : w.isDirectory p = false := by
    rw [Bool.eq_false_iff, ne_eq, isDirectory_of_isPlain hw hp]
    exact fun hl ↦ hw.not_blocked_of_directory hl h
  unfold makeDirectories
  cases hlength : p.parts.length with
  | zero => exact absurd (List.length_eq_zero_iff.mp hlength) hparts
  | succ n =>
      unfold makeDirectoriesUpTo
      rw [perform_tryCatch, perform_named, hmade]
      cases (w.tree.find? (w.place p)).isSome with
      | true => simp [perform_bind, hno]
      | false => simp [perform_bind, hno]

private theorem exists_makeDirectoriesUpTo_of_above (hw : w.Sound) (hp : p.IsPlain) {name : String}
    (hname : IsName name) (habove : w.tree.find? (w.place p) = some .directory)
    (hfree : ¬w.Blocked (name :: w.place p)) (n : Nat) :
    ∃ v, perform (makeDirectoriesUpTo (n + 1) (p.entry name)) w = (.ok (), v) ∧
      Opened (name :: w.place p) w v := by
  have hmade := perform_makeDirectory_entry hw hp hname habove
  rcases hfound : w.tree.find? (name :: w.place p) with _ | (bytes | _)
  · rw [hfound] at hmade
    refine ⟨_, ?_, (Opened.refl hw habove).cons name⟩
    rw [makeDirectoriesUpTo, perform_tryCatch, perform_named, hmade]
    rfl
  · exact absurd ⟨_, bytes, List.suffix_rfl, hfound⟩ hfree
  · rw [hfound] at hmade
    have hthere : w.isDirectory (p.entry name) = true := by
      rw [isDirectory_of_isPlain hw (hp.entry hname), place_entry w p hname.ne_dots, hfound]
    refine ⟨w, ?_, .refl hw hfound⟩
    rw [makeDirectoriesUpTo, perform_tryCatch, perform_named, hmade]
    simp [perform_bind, hthere]

private theorem Opened.exists_ensureDirectory (hw : w.Sound) (hp : p.IsPlain) {name : String}
    (hname : IsName name) (hmissing : w.tree.find? (w.place p) = none)
    (h : Opened (w.place p) w v) (text : String) :
    ∃ u, perform (ensureDirectory (p.entry name) text) v = (.ok (), u) ∧
      Opened (name :: w.place p) w u := by
  have hplace : v.place p = w.place p := place_congr h.here p
  have habove : v.tree.find? (v.place p) = some .directory := by
    rw [hplace, h.find?, if_pos List.suffix_rfl]
  have hnone : v.tree.find? (name :: v.place p) = none := by
    rw [hplace, h.find?, if_neg fun hsuffix ↦
      absurd hsuffix.length_le (Nat.not_succ_le_self _)]
    cases hfound : w.tree.find? (name :: w.place p) with
    | none => rfl
    | some e => cases hmissing.symm.trans (hw.above _ _ e hfound)
  have hmade := perform_makeDirectory_entry (h.sound hw (hw.isName_of_mem_place hp)) hp hname habove
  rw [hnone, hplace] at hmade
  refine ⟨_, ?_, h.cons name⟩
  rw [ensureDirectory, perform_tryCatch, perform_named, hmade]
  rfl

private theorem exists_perform_makeDirectoriesUpTo (hw : w.Sound) (n : Nat) (hp : p.IsPlain)
    (hn : p.parts.length = n) (h : ¬w.Blocked (w.place p)) :
    ∃ v, perform (makeDirectoriesUpTo n p) w = (.ok (), v) ∧ Opened (w.place p) w v := by
  induction n generalizing p with
  | zero =>
      have hplace : w.place p = w.start p := by
        unfold place
        rw [List.length_eq_zero_iff.mp hn]
        rfl
      have hthere : w.tree.find? (w.place p) = some .directory := hplace ▸ hw.start p
      refine ⟨w, ?_, .refl hw hthere⟩
      exact perform_ensureDirectory_of_isDirectory ((isDirectory_of_isPlain hw hp).mpr hthere)
  | succ n ih =>
      have hparts : p.parts ≠ [] := by
        intro hnil
        rw [hnil] at hn
        cases hn
      have hq := hp.parent
      have hname := hp.isName_name hparts
      have hplace : w.place p = p.name :: w.place p.parent := by
        rw [← place_entry w _ hname.ne_dots, Path.entry_parent hparts]
      have hfree : ¬w.Blocked (w.place p.parent) := by
        rintro ⟨m, bytes, hm, hfile⟩
        exact h ⟨m, bytes, hplace ▸ hm.trans (List.suffix_cons _ _), hfile⟩
      rcases hfound : w.tree.find? (w.place p.parent) with _ | (bytes | _)
      · have hrefused : perform (makeDirectory p) w = (.error .noEntry, w) := by
          rw [perform_makeDirectory, ← Path.entry_parent hparts,
            Path.entry_eq_onward, resolve_onward_of_missing hq (List.cons_ne_nil _ _) hfound hfree]
        have hlength : p.parent.parts.length = n := by
          rw [Path.parent, List.length_dropLast, hn, Nat.add_sub_cancel]
        obtain ⟨v, hv, hopened⟩ := ih hq hlength hfree
        obtain ⟨u, hu, hopened'⟩ := hopened.exists_ensureDirectory hw hq hname hfound p.text
        rw [Path.entry_parent hparts] at hu
        refine ⟨u, ?_, hplace ▸ hopened'⟩
        rw [makeDirectoriesUpTo, perform_tryCatch, perform_named, hrefused]
        dsimp only [mapError_error]
        rw [perform_bind, hv]
        exact hu
      · exact absurd ⟨_, bytes, List.suffix_rfl, hfound⟩ hfree
      · have hmade := exists_makeDirectoriesUpTo_of_above hw hq hname hfound (hplace ▸ h) n
        rwa [Path.entry_parent hparts, ← hplace] at hmade

/-- Making a plain directory with no file on the way makes all directories that are missing. -/
theorem exists_perform_makeDirectories (hw : w.Sound) (hp : p.IsPlain)
    (h : ¬w.Blocked (w.place p)) :
    ∃ v, perform (makeDirectories p) w = (.ok (), v) ∧ Opened (w.place p) w v :=
  exists_perform_makeDirectoriesUpTo hw p.parts.length hp rfl h

end Workspace
end Vendoring.Files
