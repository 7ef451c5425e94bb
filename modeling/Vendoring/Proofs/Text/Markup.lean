import Vendoring.Proofs.Text.Styled

/-!
# Lines without closing tags

A line whose text stands in a style up to its end can be shown whatever the text is, as long as it
holds no slash: such a text has no closing tag, and whatever tags it opens, the bare closing tag at
the end of the line has something to close.
-/

namespace Vendoring.Text.Markup

/-- A text without a slash has no closing tag. -/
theorem close_notMem_piecesFrom {cs : List Char} (h : '/' ∉ cs) (skip : Nat) (name : List Char) :
    .tag ('/' :: name) ∉ piecesFrom skip cs := by
  induction cs generalizing skip with
  | nil => simp [piecesFrom]
  | cons c cs ih =>
      have hcs : '/' ∉ cs := fun hmem ↦ h (List.mem_cons_of_mem c hmem)
      cases skip with
      | succ skip => exact ih hcs skip
      | zero =>
          rw [piecesFrom]
          split
          · cases htag : tag? cs with
            | none => simp [ih hcs 0]
            | some inner =>
                obtain ⟨d, body, after, rfl, rfl, _⟩ := tag?_eq_some_iff.mp htag
                have hd : d ≠ '/' := fun hd ↦ hcs (hd ▸ List.mem_cons_self)
                simp [ih hcs, Ne.symm hd]
          · simp [ih hcs 0]

/-- Where a tag is open, pieces without a closing tag can be shown up to a bare one. -/
theorem exists_showFrom_close {ps : List Piece} (hps : ∀ name, .tag ('/' :: name) ∉ ps)
    (position : Nat) {opened : List (List Char)} (hopened : opened ≠ []) :
    ∃ shown, showFrom position opened (ps ++ [.tag ['/']]) = .ok shown := by
  induction ps generalizing position opened with
  | nil =>
      cases opened with
      | nil => exact absurd rfl hopened
      | cons name opened => exact ⟨[], rfl⟩
  | cons p ps ih =>
      have hrest name : .tag ('/' :: name) ∉ ps := fun hmem ↦ hps name (List.mem_cons_of_mem p hmem)
      cases p with
      | plain c =>
          obtain ⟨shown, hshown⟩ := ih hrest (position + (Piece.plain c).width) hopened
          refine ⟨c :: shown, ?_⟩
          rw [List.cons_append, showFrom, hshown]
          rfl
      | tag inner =>
          have hopens name : inner ≠ '/' :: name := by
            rintro rfl
            exact hps name List.mem_cons_self
          rw [List.cons_append, showFrom_opening hopens]
          exact ih hrest _ (List.cons_ne_nil _ _)

/-- A line can be shown that opens a tag and ends by closing one, if there is no slash between. -/
theorem exists_render_dim {text : String} (htext : '/' ∉ text.toList) :
    ∃ shown, render ("  [dim]" ++ text ++ "[/]") = .ok shown := by
  have hmarkup : "  [dim]" ++ text ++ "[/]" = (Line.styled "  " .dim text "").markup :=
    String.toList_injective (by simp [Line.markup, Style.dim, String.toList_append])
  obtain ⟨shown, hshown⟩ := exists_showFrom_close (close_notMem_piecesFrom htext 0) 7
    (List.cons_ne_nil ['d', 'i', 'm'] [])
  refine ⟨String.ofList (' ' :: ' ' :: shown), ?_⟩
  unfold render
  rw [hmarkup, pieces_styled]
  show String.ofList <$> ((' ' :: ·) <$> ((' ' :: ·) <$>
    showFrom 7 [['d', 'i', 'm']] (piecesFrom 0 text.toList ++ [.tag ['/']]))) = _
  rw [hshown]
  rfl

end Vendoring.Text.Markup
