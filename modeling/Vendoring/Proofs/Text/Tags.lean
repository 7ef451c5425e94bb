import Mathlib.Data.List.TakeWhile
import Vendoring.Text.Markup

/-!
# Tags in a text

A text holds a tag where an opening bracket is followed by a character that may start one and then,
before any other opening bracket, by a closing bracket. What is shown of a text are the characters
that are in none of its tags, so it is shown as it is exactly when it holds none. A text that stands
in a line keeps its own tags, as long as what follows cannot close a tag that the text has begun.
-/

namespace Vendoring.Text.Markup

/-- Whether a text holds a tag. -/
def HoldsTag (cs : List Char) : Prop :=
  ∃ before c body after, cs = before ++ '[' :: c :: (body ++ ']' :: after) ∧
    startsTag c = true ∧ '[' ∉ body

/-- Whether a text cannot close a tag that has begun before it: every closing bracket comes after an
opening one. -/
def Seals (rest : List Char) : Prop := ∀ body after, rest = body ++ ']' :: after → '[' ∈ body

/-- The characters among some pieces. -/
def plains : List Piece → List Char
  | [] => []
  | .plain c :: ps => c :: plains ps
  | .tag _ :: ps => plains ps

/-- The characters of a text that are in none of its tags. -/
def stripped (cs : List Char) : List Char := plains (piecesFrom 0 cs)

variable {cs rest body inner : List Char} {c : Char}

/-- Text that starts with an opening bracket cannot close a tag that has begun before it. -/
theorem seals_cons (rest : List Char) : Seals ('[' :: rest) := by
  intro body after h
  cases body with
  | nil => cases h
  | cons c body =>
      rw [(List.cons.inj h).1]
      exact List.mem_cons_self

/-- Text without a closing bracket cannot close a tag that has begun before it. -/
theorem seals_of_notMem (h : ']' ∉ rest) : Seals rest := by
  rintro body after rfl
  simp at h

/-! ### The tag at a bracket -/

/-- A tag goes up to the first closing bracket, and no opening one comes before that. -/
theorem tag?_eq_some_iff :
    tag? cs = some inner ↔ ∃ c body after, cs = c :: (body ++ ']' :: after) ∧ inner = c :: body ∧
      startsTag c = true ∧ '[' ∉ body ∧ ']' ∉ body := by
  cases cs with
  | nil => simp [tag?]
  | cons d ds =>
      unfold tag?
      generalize hp : (fun d : Char ↦ d != ']' && d != '[') = p
      dsimp only
      have hsplit : ds = ds.takeWhile p ++ ds.dropWhile p := List.takeWhile_append_dropWhile.symm
      have hdrop : ds.drop (ds.takeWhile p).length = ds.dropWhile p :=
        (congrArg (List.drop _) hsplit).trans List.drop_left
      rw [hdrop]
      constructor
      · intro h
        split at h
        · next hends =>
            cases h
            obtain ⟨hstarts, hhead⟩ := (Bool.and_eq_true _ _).mp hends
            obtain ⟨after, hafter⟩ := List.head?_eq_some_iff.mp (eq_of_beq hhead)
            have hplain : ∀ d ∈ ds.takeWhile p, d ≠ ']' ∧ d ≠ '[' := by
              intro d hd
              subst hp
              simpa using List.mem_takeWhile_imp hd
            refine ⟨d, ds.takeWhile p, after, ?_, rfl, hstarts, ?_, ?_⟩
            · rw [← hafter, ← hsplit]
            · exact fun hopening ↦ (hplain _ hopening).2 rfl
            · exact fun hclosing ↦ (hplain _ hclosing).1 rfl
        · cases h
      · rintro ⟨c, body, after, heq, rfl, hstarts, hopening, hclosing⟩
        obtain ⟨rfl, rfl⟩ := List.cons.inj heq
        have hbody : ∀ d ∈ body, p d = true := by
          intro d hd
          subst hp
          have hne : d ≠ ']' ∧ d ≠ '[' := by
            constructor <;> rintro rfl <;> contradiction
          simpa using hne
        have hstop : p ']' = false := by
          subst hp
          rfl
        rw [List.takeWhile_append_of_pos hbody, List.dropWhile_append_of_pos hbody,
          List.takeWhile_cons_of_neg (by simp [hstop]),
          List.dropWhile_cons_of_neg (by simp [hstop])]
        simp [hstarts]

/-- A tag is shorter than what it is read from. -/
theorem length_lt_of_tag? (h : tag? cs = some inner) : inner.length < cs.length := by
  obtain ⟨c, body, after, rfl, rfl, _⟩ := tag?_eq_some_iff.mp h
  simp

/-- There is a tag at a bracket wherever a text that may be one is closed. -/
theorem exists_tag?_iff :
    (∃ inner, tag? cs = some inner) ↔ ∃ c body after, cs = c :: (body ++ ']' :: after) ∧
      startsTag c = true ∧ '[' ∉ body := by
  constructor
  · rintro ⟨inner, h⟩
    obtain ⟨c, body, after, heq, _, hstarts, hopening, _⟩ := tag?_eq_some_iff.mp h
    exact ⟨c, body, after, heq, hstarts, hopening⟩
  · rintro ⟨c, body, after, rfl, hstarts, hopening⟩
    -- The tag ends at the first closing bracket, which may come before this one.
    by_cases hclosing : ']' ∈ body
    · obtain ⟨first, more, rfl, hfirst⟩ := List.eq_append_cons_of_mem hclosing
      refine ⟨c :: first, tag?_eq_some_iff.mpr ⟨c, first, more ++ ']' :: after, by simp, rfl,
        hstarts, ?_, hfirst⟩⟩
      exact fun h ↦ hopening (List.mem_append_left _ h)
    · exact ⟨c :: body,
        tag?_eq_some_iff.mpr ⟨c, body, after, rfl, rfl, hstarts, hopening, hclosing⟩⟩

/-- What seals a text does not change the tag at a bracket of it. -/
theorem tag?_append (hrest : Seals rest) : tag? (cs ++ rest) = tag? cs := by
  ext inner
  rw [tag?_eq_some_iff, tag?_eq_some_iff]
  constructor
  · rintro ⟨c, body, after, heq, rfl, hstarts, hopening, hclosing⟩
    cases cs with
    | nil =>
        obtain h | h := List.mem_cons.mp (hrest (c :: body) after heq)
        · subst h
          cases hstarts
        · exact absurd h hopening
    | cons d ds =>
        rw [List.cons_append] at heq
        obtain ⟨rfl, htail⟩ := List.cons.inj heq
        obtain ⟨more, rfl, hmore⟩ | ⟨more, rfl, hmore⟩ := List.append_eq_append_iff.mp htail
        · exact absurd (List.mem_append_right ds (hrest more after hmore)) hopening
        · cases more with
          | nil => cases hrest [] after hmore.symm
          | cons e more =>
              obtain ⟨rfl, rfl⟩ := List.cons.inj hmore
              exact ⟨d, body, more, rfl, rfl, hstarts, hopening, hclosing⟩
  · rintro ⟨c, body, after, rfl, rfl, hstarts, hopening, hclosing⟩
    exact ⟨c, body, after ++ rest, by simp, rfl, hstarts, hopening, hclosing⟩

/-! ### Pieces -/

/-- A text and what seals it are cut one after the other. -/
theorem piecesFrom_append (hrest : Seals rest) {skip : Nat} (hskip : skip ≤ cs.length) :
    piecesFrom skip (cs ++ rest) = piecesFrom skip cs ++ piecesFrom 0 rest := by
  induction cs generalizing skip with
  | nil =>
      obtain rfl : skip = 0 := Nat.le_zero.mp hskip
      rfl
  | cons c cs ih =>
      cases skip with
      | succ skip => exact ih (Nat.le_of_succ_le_succ hskip)
      | zero =>
          have hplain := ih (Nat.zero_le _)
          rw [List.cons_append, piecesFrom, piecesFrom, tag?_append hrest]
          split
          · cases htag : tag? cs with
            | none => simp [hplain]
            | some inner => simp [ih (length_lt_of_tag? htag)]
          · simp [hplain]

/-- What is skipped is not cut. -/
theorem piecesFrom_length (cs rest : List Char) :
    piecesFrom cs.length (cs ++ rest) = piecesFrom 0 rest := by
  induction cs with
  | nil => rfl
  | cons c cs ih => exact ih

/-- A tag at the start of a text is the first piece, and what follows it is cut on its own. -/
theorem piecesFrom_tag (hstarts : startsTag c = true) (hopening : '[' ∉ body)
    (hclosing : ']' ∉ body) (rest : List Char) :
    piecesFrom 0 ('[' :: c :: (body ++ ']' :: rest)) = .tag (c :: body) :: piecesFrom 0 rest := by
  have htag : tag? (c :: (body ++ ']' :: rest)) = some (c :: body) :=
    tag?_eq_some_iff.mpr ⟨c, body, rest, rfl, rfl, hstarts, hopening, hclosing⟩
  have hskip := piecesFrom_length (c :: (body ++ [']'])) rest
  rw [piecesFrom, if_pos rfl, htag]
  simpa using hskip

/-! ### What is shown -/

/-- The characters among pieces and others are those among the pieces and then those among the
others. -/
theorem plains_append (ps qs : List Piece) : plains (ps ++ qs) = plains ps ++ plains qs := by
  induction ps with
  | nil => rfl
  | cons p ps ih => cases p <;> simp [plains, ih]

/-- The characters among characters are these. -/
theorem plains_map_plain (cs : List Char) : plains (cs.map .plain) = cs := by
  induction cs with
  | nil => rfl
  | cons c cs ih => simp [plains, ih]

/-- What is shown of pieces that can be shown are the characters among them. -/
theorem eq_plains_of_showFrom {position : Nat} {opened : List (List Char)} {ps : List Piece}
    {shown : List Char} (h : showFrom position opened ps = .ok shown) : shown = plains ps := by
  induction ps generalizing position opened shown with
  | nil =>
      cases h
      rfl
  | cons p ps ih =>
      cases p with
      | plain c =>
          rw [showFrom] at h
          cases hrest : showFrom (position + (Piece.plain c).width) opened ps with
          | error e =>
              rw [hrest] at h
              cases h
          | ok rest =>
              rw [hrest] at h
              cases h
              rw [ih hrest]
              rfl
      | tag inner =>
          suffices hrest : ∃ position opened, showFrom position opened ps = .ok shown by
            obtain ⟨_, _, hrest⟩ := hrest
            exact ih hrest
          rw [showFrom.eq_def] at h
          dsimp only at h
          split at h
          · next heq => cases heq
          · -- A closing tag closes one that is open, or there is nothing to show.
            split at h
            · split at h
              · cases h
              · exact ⟨_, _, h⟩
            · split at h
              · exact ⟨_, _, h⟩
              · cases h
          · exact ⟨_, _, h⟩

/-- Characters in front of pieces are shown in front of them. -/
theorem showFrom_append_plain (position : Nat) (opened : List (List Char)) (cs : List Char)
    (ps : List Piece) :
    showFrom position opened (cs.map .plain ++ ps) =
      (cs ++ ·) <$> showFrom (position + cs.length) opened ps := by
  induction cs generalizing position with
  | nil => simp
  | cons c cs ih =>
      rw [List.map_cons, List.cons_append, showFrom, ih, Functor.map_map, List.length_cons,
        Nat.add_comm cs.length, ← Nat.add_assoc]
      rfl

/-- A tag that closes none is open from there on. -/
theorem showFrom_opening (hinner : ∀ name, inner ≠ '/' :: name) (position : Nat)
    (opened : List (List Char)) (ps : List Piece) :
    showFrom position opened (.tag inner :: ps) =
      showFrom (position + (Piece.tag inner).width) (tagName inner :: opened) ps := by
  rw [showFrom]
  exact hinner

/-- Not more than the text is shown of it, and what is skipped is not. -/
theorem length_plains_le {skip : Nat} (hskip : skip ≤ cs.length) :
    (plains (piecesFrom skip cs)).length + skip ≤ cs.length := by
  induction cs generalizing skip with
  | nil => simpa [piecesFrom, plains] using hskip
  | cons c cs ih =>
      cases skip with
      | succ skip => exact Nat.succ_le_succ (ih (Nat.le_of_succ_le_succ hskip))
      | zero =>
          have hplain := ih (Nat.zero_le _)
          rw [piecesFrom]
          split
          · cases htag : tag? cs with
            | none => simpa [plains] using hplain
            | some inner =>
                have htagged : (plains (piecesFrom (inner.length + 1) cs)).length +
                    (inner.length + 1) ≤ cs.length := ih (length_lt_of_tag? htag)
                simp only [plains, List.length_cons]
                omega
          · simpa [plains] using hplain

/-- Less than what follows a bracket is shown of it if there is a tag at the bracket. -/
theorem length_plains_tag_lt (h : tag? cs = some inner) :
    (plains (.tag inner :: piecesFrom (inner.length + 1) cs)).length < cs.length := by
  have hle : (plains (piecesFrom (inner.length + 1) cs)).length + (inner.length + 1) ≤ cs.length :=
    length_plains_le (length_lt_of_tag? h)
  rw [plains]
  omega

/-- A text without a tag is cut into its characters. -/
theorem piecesFrom_of_not_holdsTag (h : ¬ HoldsTag cs) : piecesFrom 0 cs = cs.map .plain := by
  induction cs with
  | nil => rfl
  | cons c cs ih =>
      have hrest : ¬ HoldsTag cs := by
        rintro ⟨before, d, body, after, rfl, hstarts, hopening⟩
        exact h ⟨c :: before, d, body, after, rfl, hstarts, hopening⟩
      rw [piecesFrom, ih hrest]
      split
      · next hc =>
          cases htag : tag? cs with
          | none => rfl
          | some inner =>
              obtain ⟨d, body, after, rfl, hstarts, hopening⟩ := exists_tag?_iff.mp ⟨inner, htag⟩
              exact absurd ⟨[], d, body, after, by rw [hc]; rfl, hstarts, hopening⟩ h
      · rfl

/-- Less than the text is shown of a text that holds a tag. -/
theorem length_stripped_lt (h : HoldsTag cs) : (stripped cs).length < cs.length := by
  obtain ⟨before, c, body, after, rfl, hstarts, hopening⟩ := h
  unfold stripped
  induction before with
  | nil =>
      obtain ⟨inner, htag⟩ := exists_tag?_iff.mpr ⟨c, body, after, rfl, hstarts, hopening⟩
      have hlt := length_plains_tag_lt htag
      rw [List.nil_append, piecesFrom, if_pos rfl, htag]
      exact Nat.lt_succ_of_lt hlt
  | cons b before ih =>
      rw [List.cons_append, piecesFrom]
      split
      · cases htag : tag? (before ++ '[' :: c :: (body ++ ']' :: after)) with
        | none => simpa [plains] using ih
        | some inner =>
            exact Nat.lt_succ_of_lt (length_plains_tag_lt htag)
      · simpa [plains] using ih

/-- A text is what is shown of it exactly when it holds no tag. -/
theorem stripped_eq_self_iff : stripped cs = cs ↔ ¬ HoldsTag cs := by
  constructor
  · intro h htag
    have hlt := length_stripped_lt htag
    rw [h] at hlt
    exact Nat.lt_irrefl _ hlt
  · intro h
    rw [stripped, piecesFrom_of_not_holdsTag h, plains_map_plain]

instance (cs : List Char) : Decidable (HoldsTag cs) :=
  decidable_of_iff (¬ stripped cs = cs) (not_iff_comm.mp stripped_eq_self_iff.symm)

/-- Not more than a text is shown of it. -/
theorem length_stripped_le (cs : List Char) : (stripped cs).length ≤ cs.length :=
  length_plains_le (Nat.zero_le _)

/-- What is shown of a text and what seals it is shown of the one and then of the other. -/
theorem stripped_append (hrest : Seals rest) :
    stripped (cs ++ rest) = stripped cs ++ stripped rest := by
  unfold stripped
  rw [piecesFrom_append hrest (Nat.zero_le _), plains_append]

/-- A text and what seals it hold no tag but those of the one and of the other. -/
theorem holdsTag_append_iff (hrest : Seals rest) :
    HoldsTag (cs ++ rest) ↔ HoldsTag cs ∨ HoldsTag rest := by
  constructor
  · intro h
    by_contra hnone
    obtain ⟨hcs, hnot⟩ := not_or.mp hnone
    refine stripped_eq_self_iff.mp ?_ h
    rw [stripped_append hrest, stripped_eq_self_iff.mpr hcs, stripped_eq_self_iff.mpr hnot]
  · rintro (⟨before, c, body, after, rfl, htag⟩ | ⟨before, c, body, after, rfl, htag⟩)
    · exact ⟨before, c, body, after ++ rest, by simp, htag⟩
    · exact ⟨cs ++ before, c, body, after, by simp, htag⟩

/-- A text without an opening bracket holds no tag. -/
theorem not_holdsTag_of_notMem (h : '[' ∉ cs) : ¬ HoldsTag cs := by
  rintro ⟨before, c, body, after, rfl, _⟩
  simp at h

/-- Text without an opening bracket holds no tag in front of other text. -/
theorem holdsTag_append_of_notMem (h : '[' ∉ cs) : HoldsTag (cs ++ rest) ↔ HoldsTag rest := by
  constructor
  · rintro ⟨before, c, body, after, heq, htag⟩
    obtain ⟨more, _, hrest⟩ | ⟨more, hcs, hmore⟩ := List.append_eq_append_iff.mp heq
    · exact ⟨more, c, body, after, hrest, htag⟩
    · cases more with
      | nil => exact ⟨[], c, body, after, hmore.symm, htag⟩
      | cons d more =>
          cases (List.cons.inj hmore).1
          exact absurd (by simp [hcs]) h
  · rintro ⟨before, c, body, after, rfl, htag⟩
    exact ⟨cs ++ before, c, body, after, by simp, htag⟩

end Vendoring.Text.Markup
