import Vendoring.Proofs.Text.Tags

/-!
# Lines with texts in a style

A line for the console is a text, or a text in a style with other text before it and behind it. The
texts go into the markup of the line as they are, so each of them loses the tags it holds. A line is
shown verbatim, then, exactly when none of its texts holds a tag, and otherwise less of it is shown,
if anything.
-/

namespace Vendoring.Text.Markup

/-- A style for the console: a name of letters. -/
structure Style where
  /-- The name of the style. -/
  name : String
  /-- There is a name. -/
  nonempty : name.toList ≠ []
  /-- The name has small letters alone. -/
  letters : (name.toList.all fun c ↦ 'a' ≤ c && c ≤ 'z') = true

namespace Style

/-- For what is well. -/
def green : Style := ⟨"green", by decide, by decide⟩

/-- For what asks for attention. -/
def yellow : Style := ⟨"yellow", by decide, by decide⟩

/-- For what has failed. -/
def red : Style := ⟨"red", by decide, by decide⟩

/-- For what is said by the way. -/
def dim : Style := ⟨"dim", by decide, by decide⟩

end Style

/-- A line for the console. -/
inductive Line where
  /-- A text. -/
  | bare (text : String)
  /-- A text in a style, and what comes before it and behind it. -/
  | styled (lead : String) (style : Style) (text rest : String)

namespace Line

/-- The markup of a line. -/
def markup : Line → String
  | bare text => text
  | styled lead style text rest => lead ++ "[" ++ style.name ++ "]" ++ text ++ "[/]" ++ rest

/-- The line as it is meant. -/
def verbatim : Line → String
  | bare text => text
  | styled lead _ text rest => lead ++ text ++ rest

/-- The texts of a line. -/
def texts : Line → List String
  | bare text => [text]
  | styled lead _ text rest => [lead, text, rest]

/-- None of the texts of a line holds a tag. -/
def IsPlain (l : Line) : Prop := ∀ text ∈ l.texts, ¬ HoldsTag text.toList

end Line

/-! ### One line -/

/-- The name of a style makes a tag that closes none. -/
theorem Style.exists_name_eq (style : Style) : ∃ c body, style.name.toList = c :: body ∧
    startsTag c = true ∧ c ≠ '/' ∧ '[' ∉ body ∧ ']' ∉ body := by
  have hletters := List.all_eq_true.mp style.letters
  cases hname : style.name.toList with
  | nil => exact absurd hname style.nonempty
  | cons c body =>
      rw [hname] at hletters
      obtain ⟨hc, hbody⟩ := List.forall_mem_cons.mp hletters
      refine ⟨c, body, rfl, ?_, ?_, ?_, ?_⟩
      · unfold startsTag
        rw [hc]
        rfl
      · rintro rfl
        exact absurd hc (by decide)
      · exact fun h ↦ absurd (hbody _ h) (by decide)
      · exact fun h ↦ absurd (hbody _ h) (by decide)

/-- The pieces of a line with a text in a style. -/
theorem pieces_styled (lead : String) (style : Style) (text rest : String) :
    pieces (Line.styled lead style text rest).markup =
      piecesFrom 0 lead.toList ++ .tag style.name.toList ::
        (piecesFrom 0 text.toList ++ .tag ['/'] :: piecesFrom 0 rest.toList) := by
  obtain ⟨c, body, hname, hstarts, _, hopening, hclosing⟩ := style.exists_name_eq
  have hchars : (Line.styled lead style text rest).markup.toList = lead.toList ++ '[' :: c ::
      (body ++ ']' :: (text.toList ++ '[' :: '/' :: ([] ++ ']' :: rest.toList))) := by
    simp [Line.markup, String.toList_append, hname]
  unfold pieces
  rw [hchars, piecesFrom_append (seals_cons _) (Nat.zero_le _),
    piecesFrom_tag hstarts hopening hclosing, piecesFrom_append (seals_cons _) (Nat.zero_le _),
    piecesFrom_tag rfl List.not_mem_nil List.not_mem_nil, hname]

/-- What is shown of a text that can be shown is what is in none of its tags. -/
theorem eq_stripped_of_render {s shown : String} (h : render s = .ok shown) :
    shown.toList = stripped s.toList := by
  unfold render at h
  cases hshown : showFrom 0 [] (pieces s) with
  | error e =>
      rw [hshown] at h
      cases h
  | ok cs =>
      rw [hshown] at h
      cases h
      rw [String.toList_ofList]
      exact eq_plains_of_showFrom hshown

variable {l : Line} {shown : String}

/-- What is shown of a line with a text in a style is what is shown of its texts. -/
theorem stripped_styled (lead : String) (style : Style) (text rest : String) :
    stripped (Line.styled lead style text rest).markup.toList =
      stripped lead.toList ++ (stripped text.toList ++ stripped rest.toList) := by
  show plains (pieces (Line.styled lead style text rest).markup) = _
  rw [pieces_styled, plains_append, plains, plains_append, plains]
  rfl

/-- A line whose texts hold no tags is shown verbatim. -/
theorem Line.IsPlain.render_eq (h : l.IsPlain) : render l.markup = .ok l.verbatim := by
  cases l with
  | bare text =>
      have htext : pieces text = text.toList.map .plain :=
        piecesFrom_of_not_holdsTag (h text List.mem_cons_self)
      simp [render, Line.markup, Line.verbatim, htext, showFrom_map_plain, Functor.map, Except.map]
  | styled lead style text rest =>
      obtain ⟨hlead, h⟩ := List.forall_mem_cons.mp h
      obtain ⟨htext, h⟩ := List.forall_mem_cons.mp h
      have hrest := List.forall_mem_singleton.mp h
      obtain ⟨c, body, hname, _, hc, _⟩ := style.exists_name_eq
      have hopens name : style.name.toList ≠ '/' :: name := by
        rw [hname]
        exact fun h ↦ hc (List.cons.inj h).1
      have hcloses (position : Nat) (name : List Char) (ps : List Piece) :
          showFrom position [name] (.tag ['/'] :: ps) = showFrom (position + 3) [] ps := rfl
      unfold render
      rw [pieces_styled, piecesFrom_of_not_holdsTag hlead, showFrom_append_plain,
        showFrom_opening hopens, piecesFrom_of_not_holdsTag htext, showFrom_append_plain, hcloses,
        piecesFrom_of_not_holdsTag hrest, showFrom_map_plain]
      refine congrArg Except.ok (String.toList_injective ?_)
      simp [Line.verbatim, String.toList_append]

/-- Of a line with a tag in its texts less is shown than the line. -/
theorem length_lt_of_render (h : render l.markup = .ok shown) (hl : ¬ l.IsPlain) :
    shown.length < l.verbatim.length := by
  rw [← String.length_toList, ← String.length_toList, eq_stripped_of_render h]
  cases l with
  | bare text =>
      have htext : HoldsTag text.toList := by simpa [Line.IsPlain, Line.texts] using hl
      exact length_stripped_lt htext
  | styled lead style text rest =>
      have htexts : HoldsTag lead.toList ∨ HoldsTag text.toList ∨ HoldsTag rest.toList := by
        simpa [Line.IsPlain, Line.texts, imp_iff_not_or, or_assoc] using hl
      have hlead := length_stripped_le lead.toList
      have htext := length_stripped_le text.toList
      have hrest := length_stripped_le rest.toList
      rw [stripped_styled]
      simp only [Line.verbatim, String.toList_append, List.length_append]
      rcases htexts with h | h | h
      · have hlt := length_stripped_lt h
        omega
      · have hlt := length_stripped_lt h
        omega
      · have hlt := length_stripped_lt h
        omega

/-- The markup of a line whose texts hold no opening bracket can be shown. -/
theorem exists_render_of_eq {text : String} (l : Line) (hmarkup : text.toList = l.markup.toList)
    (h : ∀ text ∈ l.texts, '[' ∉ text.toList) : ∃ shown, render text = .ok shown := by
  rw [String.toList_inj.mp hmarkup]
  exact ⟨l.verbatim, Line.IsPlain.render_eq fun text ht ↦ not_holdsTag_of_notMem (h text ht)⟩

end Vendoring.Text.Markup
