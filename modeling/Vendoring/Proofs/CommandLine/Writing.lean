import Vendoring.Proofs.CommandLine.Dump
import Vendoring.Proofs.Session.Frames
import Vendoring.Proofs.Text.Console
import Vendoring.Proofs.Text.Parts

/-!
# Writing lines

An action that writes lines and then gives a value appends each of them to the standard output as it
is shown, up to the first whose markup is refused, and ends with that error if there is one. How
lines are shown belongs to the host, whose console knows tags, escapes and codes of pictures; the
laws that it satisfies tell which lines are shown as they are meant.
-/

namespace Vendoring.CommandLine

open Vendoring.Text
open Vendoring.Action

/-- What writing lines ends with, and the text that it appends to the output. -/
def showLines (shows : String → Except Markup.MarkupError String) :
    List String → Except Failure Unit × String
  | [] => (.ok (), "")
  | line :: lines =>
    match shows line with
    | .ok shown => ((showLines shows lines).1, shown ++ "\n" ++ (showLines shows lines).2)
    | .error e => (.error (.markup e), "")

section Lines

variable {shows : String → Except Markup.MarkupError String} {line shown : String}
  {lines lines' : List String} {e : Markup.MarkupError}

/-- The text of a line and others. -/
theorem linesText_cons (line : String) (lines : List String) :
    linesText (line :: lines) = line ++ "\n" ++ linesText lines := by
  simp [linesText, String.join_cons]

/-- A line that can be shown is written, and then the others are. -/
theorem showLines_cons_of_ok (h : shows line = .ok shown) (lines : List String) :
    showLines shows (line :: lines) =
      ((showLines shows lines).1, shown ++ "\n" ++ (showLines shows lines).2) := by
  rw [showLines, h]

/-- Nothing is written from a line on whose markup is refused. -/
theorem showLines_cons_of_error (h : shows line = .error e) (lines : List String) :
    showLines shows (line :: lines) = (.error (.markup e), "") := by
  rw [showLines, h]

/-- Lines after others are written if none of these is refused. -/
theorem showLines_append (lines lines' : List String) :
    showLines shows (lines ++ lines') = match (showLines shows lines).1 with
      | .ok () =>
        ((showLines shows lines').1, (showLines shows lines).2 ++ (showLines shows lines').2)
      | .error e => (.error e, (showLines shows lines).2) := by
  induction lines with
  | nil => simp [showLines]
  | cons line lines ih =>
      cases hshown : shows line with
      | error e => simp only [List.cons_append, showLines_cons_of_error hshown]
      | ok shown =>
          simp only [List.cons_append, showLines_cons_of_ok hshown, ih]
          cases (showLines shows lines).1 with
          | error e => rfl
          | ok _ => simp [String.append_assoc]

/-- Lines are written without an error exactly when each of them can be shown, and then they are
written as they are shown. -/
theorem showLines_eq_ok (h : (showLines shows lines).1 = .ok ()) :
    ∃ shown, lines.mapM shows = .ok shown ∧ (showLines shows lines).2 = linesText shown := by
  induction lines with
  | nil => exact ⟨[], rfl, by simp [showLines, linesText]⟩
  | cons line lines ih =>
      cases hshown : shows line with
      | error e =>
          rw [showLines_cons_of_error hshown] at h
          cases h
      | ok shown =>
          rw [showLines_cons_of_ok hshown] at h ⊢
          obtain ⟨rest, hrest, htext⟩ := ih h
          refine ⟨shown :: rest, ?_, ?_⟩
          · rw [List.mapM_cons, hshown, hrest]
            rfl
          · rw [linesText_cons, ← htext]

/-- What gives a value after writing lines has written them all. -/
theorem fst_showLines_eq_ok {α : Type} {x y : α}
    (h : ((showLines shows lines).1.map fun _ ↦ x) = .ok y) :
    (showLines shows lines).1 = .ok () := by
  cases hfirst : (showLines shows lines).1 with
  | error e =>
      rw [hfirst] at h
      cases h
  | ok _ => rfl

end Lines

/-! ### Actions that write lines -/

section Writing

variable {α β : Type} {lines lines' : List String}

/-- An action writes lines and gives a value, and nothing else changes. -/
def Writes (lines : List String) (x : α) (a : Action α) : Prop :=
  ∀ around s, perform a around s =
    ((showLines around.shown lines).1.map fun _ ↦ x,
      { s with output := s.output ++ (showLines around.shown lines).2 })

namespace Writes

/-- Giving a value writes nothing. -/
theorem pure (x : α) : Writes [] x (Pure.pure x : Action α) := by
  intro around s
  simp [showLines, Except.map]

/-- Writing a line writes it. -/
theorem writeLine (text : String) : Writes [text] () (Action.writeLine text) := by
  intro around s
  rw [Action.writeLine, perform_bind, perform_read]
  dsimp only
  rw [perform_bind, perform_ofExcept]
  cases hshown : around.shown text with
  | error e => simp [showLines_cons_of_error hshown, Except.mapError, Except.map]
  | ok shown =>
      rw [showLines_cons_of_ok hshown]
      simp [showLines, Except.mapError, Except.map]
      rfl

/-- Two actions write their lines one after the other. -/
theorem bind {a : Action α} {x : α} {f : α → Action β} {y : β} (ha : Writes lines x a)
    (hf : Writes lines' y (f x)) : Writes (lines ++ lines') y (a >>= f) := by
  intro around s
  rw [perform_bind, ha around s, showLines_append]
  cases (showLines around.shown lines).1 with
  | error e => rfl
  | ok _ =>
      simp only [Except.map]
      rw [hf around _, String.append_assoc]
      rfl

/-- Giving a value in the end writes nothing more. -/
theorem giving {a : Action α} {x : α} (ha : Writes lines x a) (y : β) :
    Writes lines y (a >>= fun _ ↦ Pure.pure y) := by
  rw [← List.append_nil lines]
  exact ha.bind (pure y)

/-- Writing a line for each element of a list writes these lines. -/
theorem forIn (line : α → String) (l : List α) :
    Writes (l.map line) .unit (ForIn.forIn l PUnit.unit fun x _ ↦ do
      Action.writeLine (line x)
      return ForInStep.yield PUnit.unit) := by
  induction l with
  | nil => exact pure _
  | cons x l ih =>
      rw [List.forIn_cons, bind_assoc]
      exact bind (writeLine _) ih

end Writes

end Writing

/-! ### Lines as they are meant -/

section Meant

variable {shows : String → Except Markup.MarkupError String} {lines : List Markup.Line}

/-- A line that is meant has no line breaks if its texts have none. -/
private theorem lineBreak_notMem_verbatim {l : Markup.Line}
    (h : ∀ text ∈ l.texts, '\n' ∉ text.toList) : '\n' ∉ l.verbatim.toList := by
  cases l with
  | bare text => exact h text List.mem_cons_self
  | styled lead style text rest =>
      intro hmem
      simp only [Markup.Line.verbatim, String.toList_append, List.mem_append] at hmem
      rcases hmem with (hmem | hmem) | hmem
      · exact h lead (by simp [Markup.Line.texts]) hmem
      · exact h text (by simp [Markup.Line.texts]) hmem
      · exact h rest (by simp [Markup.Line.texts]) hmem

/-- Lines are written as they are meant if their texts are taken as they stand. -/
theorem showLines_eq_verbatim (laws : Markup.ShowsLines shows)
    (h : ∀ l ∈ lines, ∀ text ∈ l.texts, Markup.AsItStands text) :
    showLines shows (lines.map Markup.Line.markup) =
      (.ok (), linesText (lines.map Markup.Line.verbatim)) := by
  induction lines with
  | nil => simp [showLines, linesText]
  | cons l lines ih =>
      obtain ⟨hl, hlines⟩ := List.forall_mem_cons.mp h
      rw [List.map_cons, List.map_cons, showLines_cons_of_ok (laws.verbatim l hl), ih hlines,
        linesText_cons]

/-- Lines that are not broken and are written as they are meant hold no tags in their texts. -/
theorem isPlain_of_showLines_eq (laws : Markup.ShowsLines shows)
    (hunbroken : ∀ l ∈ lines, ∀ text ∈ l.texts, '\n' ∉ text.toList)
    (h : showLines shows (lines.map Markup.Line.markup) =
      (.ok (), linesText (lines.map Markup.Line.verbatim))) : ∀ l ∈ lines, l.IsPlain := by
  induction lines with
  | nil => exact nofun
  | cons l lines ih =>
      obtain ⟨hl, hlines⟩ := List.forall_mem_cons.mp hunbroken
      rw [List.map_cons, List.map_cons, linesText_cons] at h
      cases hshown : shows l.markup with
      | error e =>
          rw [showLines_cons_of_error hshown] at h
          cases h
      | ok shown =>
          rw [showLines_cons_of_ok hshown] at h
          obtain ⟨hgiven, htext⟩ := Prod.mk.inj h
          have htexts : shown.toList ++
              '\n' :: (showLines shows (lines.map Markup.Line.markup)).2.toList =
              l.verbatim.toList ++
                '\n' :: (linesText (lines.map Markup.Line.verbatim)).toList := by
            have htexts := congrArg String.toList htext
            rwa [String.toList_append, String.toList_append, String.toList_append,
              String.toList_append, List.append_assoc, List.append_assoc] at htexts
          -- Either text ends its first line at the first line break.
          have hsplit := congrArg (splitOn '\n') htexts
          rw [splitOn_append_cons, splitOn_append_cons,
            splitOn_of_notMem (laws.unbroken l shown hl hshown),
            splitOn_of_notMem (lineBreak_notMem_verbatim hl)] at hsplit
          have hfirst : shown.toList = l.verbatim.toList := (List.cons.inj hsplit).1
          rw [hfirst] at htexts
          have hrest := (List.cons.inj (List.append_cancel_left htexts)).2
          refine List.forall_mem_cons.mpr ⟨?_, ?_⟩
          · by_contra htag
            exact laws.tagged l htag (hshown.trans (congrArg _ (String.toList_injective hfirst)))
          · exact ih hlines (Prod.ext hgiven (String.toList_injective hrest))

end Meant
end Vendoring.CommandLine
