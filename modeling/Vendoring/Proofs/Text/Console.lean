import Mathlib.Data.List.Basic
import Mathlib.Data.List.Count
import Vendoring.Proofs.Text.Styled

/-!
# Texts that a console takes as they stand

A console that shows lines with markup knows more than tags: a backslash escapes them, a word
between two colons may be the code of a picture, and control characters are dropped or moved to the
next column. Which codes there are belongs to the console. So its laws tell how it shows a line all
of whose texts are free of these, and that it does not show a line with a tag in a text as the line
is meant; they leave open what becomes of the others.
-/

namespace Vendoring.Text.Markup

/-- Whether a text may hold the code of a picture: two colons without a blank between them. -/
def HoldsCode (cs : List Char) : Prop :=
  ∃ before code after, cs = before ++ ':' :: (code ++ ':' :: after) ∧
    ∀ c ∈ code, isBlank c = false

/-- Whether a character is a control character. -/
def isControl (c : Char) : Bool :=
  c.toNat < 0x20 || (0x7F ≤ c.toNat && c.toNat ≤ 0x9F)

/-- A console takes a text as it stands: there is no tag in it, no backslash, no control character
and no code of a picture. -/
structure AsItStands (text : String) : Prop where
  noTag : ¬ HoldsTag text.toList
  noEscape : '\\' ∉ text.toList
  noControl : ∀ c ∈ text.toList, isControl c = false
  noCode : ¬ HoldsCode text.toList

/-- The laws of a console that shows lines with markup. -/
structure ShowsLines (shows : String → Except MarkupError String) : Prop where
  /-- A line is shown as it is meant if its texts are taken as they stand. -/
  verbatim : ∀ l : Line, (∀ text ∈ l.texts, AsItStands text) → shows l.markup = .ok l.verbatim
  /-- A tag in one of its texts is dropped, or else the line is refused for it. -/
  tagged : ∀ l : Line, ¬ l.IsPlain → shows l.markup ≠ .ok l.verbatim
  /-- A line is not broken. -/
  unbroken : ∀ (l : Line) (shown : String), (∀ text ∈ l.texts, '\n' ∉ text.toList) →
    shows l.markup = .ok shown → '\n' ∉ shown.toList

/-! ### Putting texts together -/

section

variable {cs lead rest : List Char}

/-- Text without a colon holds no code in front of other text. -/
theorem HoldsCode.of_append_left (h : HoldsCode (lead ++ cs)) (hlead : ':' ∉ lead) :
    HoldsCode cs := by
  obtain ⟨before, code, after, heq, hcode⟩ := h
  obtain ⟨more, _, hcs⟩ | ⟨more, hsplit, hmore⟩ := List.append_eq_append_iff.mp heq
  · exact ⟨more, code, after, hcs, hcode⟩
  · cases more with
    | nil => exact ⟨[], code, after, hmore.symm, hcode⟩
    | cons c more =>
        obtain ⟨rfl, _⟩ := List.cons.inj hmore
        rw [hsplit] at hlead
        simp at hlead

/-- Nor does it behind other text. -/
theorem HoldsCode.of_append_right (h : HoldsCode (cs ++ rest)) (hrest : ':' ∉ rest) :
    HoldsCode cs := by
  obtain ⟨before, code, after, heq, hcode⟩ := h
  have hends : cs ++ rest = (before ++ ':' :: code) ++ ':' :: after := by
    rw [heq, List.append_assoc, List.cons_append]
  obtain ⟨more, _, hmore⟩ | ⟨more, hcs, hmore⟩ := List.append_eq_append_iff.mp hends
  · rw [hmore] at hrest
    simp at hrest
  · cases more with
    | nil =>
        have hcolon : rest = ':' :: after := hmore.symm
        rw [hcolon] at hrest
        simp at hrest
    | cons c more =>
        obtain ⟨rfl, _⟩ := List.cons.inj hmore
        exact ⟨before, code, more, by rw [hcs, List.append_assoc, List.cons_append], hcode⟩

/-- A text with one colon at most holds no code. -/
theorem not_holdsCode_of_count (h : cs.count ':' ≤ 1) : ¬ HoldsCode cs := by
  rintro ⟨before, code, after, rfl, _⟩
  simp only [List.count_append, List.count_cons_self] at h
  omega

end

/-- A character that means nothing to a console. -/
def isOrdinary (c : Char) : Bool :=
  c != '[' && c != ']' && c != '\\' && c != ':' && !isControl c

/-- Digits are ordinary. -/
theorem isOrdinary_of_isDigit {c : Char} (h : c.isDigit = true) : isOrdinary c = true := by
  have hrange : 48 ≤ c.toNat ∧ c.toNat ≤ 57 := by
    simpa [Char.isDigit, UInt32.le_iff_toNat_le] using h
  have hne {d : Char} (hd : d.isDigit = false) : c ≠ d := by
    rintro rfl
    exact absurd (h.symm.trans hd) nofun
  simp only [isOrdinary, isControl, Bool.and_eq_true, bne_iff_ne, Bool.not_eq_true',
    Bool.or_eq_false_iff, Bool.and_eq_false_iff, decide_eq_false_iff_not]
  refine ⟨⟨⟨⟨hne rfl, hne rfl⟩, hne rfl⟩, hne rfl⟩, ?_⟩
  omega

/-- A text of ordinary characters. -/
def IsOrdinary (text : String) : Prop := ∀ c ∈ text.toList, isOrdinary c = true

instance (text : String) : Decidable (IsOrdinary text) :=
  decidable_of_iff (text.toList.all isOrdinary = true) List.all_eq_true

section

variable {text lead rest : String}

/-- Characters that mean something do not stand in an ordinary text. -/
theorem IsOrdinary.notMem (h : IsOrdinary text) {c : Char} (hc : isOrdinary c = false) :
    c ∉ text.toList := by
  intro hmem
  rw [h c hmem] at hc
  cases hc

/-- Ordinary characters are no control characters. -/
theorem IsOrdinary.noControl (h : IsOrdinary text) : ∀ c ∈ text.toList, isControl c = false := by
  intro c hc
  have hordinary := h c hc
  simp only [isOrdinary, Bool.and_eq_true, Bool.not_eq_true'] at hordinary
  exact hordinary.2

/-- A text without tags, escapes and control characters, and with one colon at most, is taken as it
stands. -/
theorem AsItStands.of_count (htag : ¬ HoldsTag text.toList) (hescape : '\\' ∉ text.toList)
    (hcontrol : text.toList.any isControl = false) (hcount : text.toList.count ':' ≤ 1) :
    AsItStands text where
  noTag := htag
  noEscape := hescape
  noControl c hc := eq_false_of_ne_true (List.any_eq_false.mp hcontrol c hc)
  noCode := not_holdsCode_of_count hcount

/-- An ordinary text is taken as it stands. -/
theorem IsOrdinary.asItStands (h : IsOrdinary text) : AsItStands text where
  noTag := not_holdsTag_of_notMem (h.notMem (by decide))
  noEscape := h.notMem (by decide)
  noControl := h.noControl
  noCode := by
    apply not_holdsCode_of_count
    rw [List.count_eq_zero_of_not_mem (h.notMem (by decide))]
    exact Nat.zero_le 1

/-- Ordinary text may stand in front of a text. -/
theorem AsItStands.ordinary_append (h : AsItStands text) (hlead : IsOrdinary lead) :
    AsItStands (lead ++ text) where
  noTag := by
    rw [String.toList_append, holdsTag_append_of_notMem (hlead.notMem (by decide))]
    exact h.noTag
  noEscape := by
    rw [String.toList_append, List.mem_append]
    exact not_or.mpr ⟨hlead.notMem (by decide), h.noEscape⟩
  noControl := by
    rw [String.toList_append, List.forall_mem_append]
    exact ⟨hlead.noControl, h.noControl⟩
  noCode := by
    rw [String.toList_append]
    exact fun hcode ↦ h.noCode (hcode.of_append_left (hlead.notMem (by decide)))

/-- Ordinary text may stand behind a text. -/
theorem AsItStands.append_ordinary (h : AsItStands text) (hrest : IsOrdinary rest) :
    AsItStands (text ++ rest) where
  noTag := by
    rw [String.toList_append, holdsTag_append_iff (seals_of_notMem (hrest.notMem (by decide)))]
    exact not_or.mpr ⟨h.noTag, hrest.asItStands.noTag⟩
  noEscape := by
    rw [String.toList_append, List.mem_append]
    exact not_or.mpr ⟨h.noEscape, hrest.notMem (by decide)⟩
  noControl := by
    rw [String.toList_append, List.forall_mem_append]
    exact ⟨h.noControl, hrest.noControl⟩
  noCode := by
    rw [String.toList_append]
    exact fun hcode ↦ h.noCode (hcode.of_append_right (hrest.notMem (by decide)))

/-- A text that is taken as it stands has no line breaks. -/
theorem AsItStands.lineBreak_notMem (h : AsItStands text) : '\n' ∉ text.toList := by
  intro hmem
  exact absurd (h.noControl _ hmem) (by decide)

end

/-! ### A console that knows nothing but tags -/

/-- What is shown of a text stands in it. -/
theorem mem_of_mem_plains {cs : List Char} {skip : Nat} {c : Char}
    (h : c ∈ plains (piecesFrom skip cs)) : c ∈ cs := by
  induction cs generalizing skip with
  | nil => simp [piecesFrom, plains] at h
  | cons d cs ih =>
      cases skip with
      | succ skip => exact List.mem_cons_of_mem _ (ih h)
      | zero =>
          have hplain (h : c ∈ plains (.plain d :: piecesFrom 0 cs)) : c ∈ d :: cs := by
            rw [plains] at h
            exact List.mem_cons.mpr ((List.mem_cons.mp h).imp id ih)
          rw [piecesFrom] at h
          split at h
          · cases htag : tag? cs with
            | none =>
                rw [htag] at h
                exact hplain h
            | some inner =>
                rw [htag] at h
                exact List.mem_cons_of_mem _ (ih h)
          · exact hplain h

/-- What is shown of a line stands in one of its texts. -/
theorem Line.exists_mem_of_render {l : Line} {shown : String} (h : render l.markup = .ok shown)
    {c : Char} (hc : c ∈ shown.toList) : ∃ text ∈ l.texts, c ∈ text.toList := by
  rw [eq_stripped_of_render h] at hc
  cases l with
  | bare text => exact ⟨text, List.mem_cons_self, mem_of_mem_plains hc⟩
  | styled lead style text rest =>
      rw [stripped_styled, List.mem_append, List.mem_append] at hc
      rcases hc with hc | hc | hc
      · exact ⟨lead, by simp [texts], mem_of_mem_plains hc⟩
      · exact ⟨text, by simp [texts], mem_of_mem_plains hc⟩
      · exact ⟨rest, by simp [texts], mem_of_mem_plains hc⟩

/-- A console that knows nothing but tags satisfies the laws. -/
theorem showsLines_render : ShowsLines render where
  verbatim _ h := Line.IsPlain.render_eq fun text ht ↦ (h text ht).noTag
  tagged l hl h := Nat.lt_irrefl _ (length_lt_of_render h hl)
  unbroken l shown hl h hbreak := by
    obtain ⟨text, htext, hmem⟩ := Line.exists_mem_of_render h hbreak
    exact hl text htext hmem

end Vendoring.Text.Markup
