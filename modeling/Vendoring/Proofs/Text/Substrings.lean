import Vendoring.Proofs.Text.Utf8

/-!
# Texts in bytes

Of the bytes of a character the first, and only the first, is one that a character begins with. So
where bytes of a text are cut in front of such a byte, the text is cut in front of a character, and
the bytes of a text that is not empty occur in those of another only where it stands in it.
-/

namespace Vendoring.Text.Utf8

/-- Bytes that begin with a character's first byte, unless there are none. -/
def BeginsCharacter (bytes : List UInt8) : Prop := ∀ b ∈ bytes.head?, b.IsUTF8FirstByte

variable {u v : List UInt8} {part cs : List Char}

/-- The first of some bytes is the first of those before others, too. -/
theorem BeginsCharacter.of_append (h : BeginsCharacter (u ++ v)) : BeginsCharacter u := by
  intro b hb
  refine h b ?_
  rw [List.head?_append, Option.mem_def.mp hb]
  rfl

/-- The bytes of a character begin with its first byte. -/
theorem beginsCharacter_utf8EncodeChar (c : Char) (rest : List UInt8) :
    BeginsCharacter (String.utf8EncodeChar c ++ rest) := by
  have hpos : 0 < (String.utf8EncodeChar c).length :=
    List.length_pos_iff.mpr String.utf8EncodeChar_ne_nil
  have hfirst : (String.utf8EncodeChar c)[0].IsUTF8FirstByte :=
    UInt8.isUTF8FirstByte_getElem_utf8EncodeChar.mpr rfl
  intro b hb
  rw [List.head?_append, List.head?_eq_getElem?, List.getElem?_eq_getElem hpos] at hb
  cases hb
  exact hfirst

/-- What is left of the bytes of a character after some of them begins with no character's first
byte. -/
theorem eq_nil_of_utf8EncodeChar_eq {c : Char} (h : String.utf8EncodeChar c = u ++ v)
    (hu : u ≠ []) (hv : BeginsCharacter v) : v = [] := by
  cases v with
  | nil => rfl
  | cons b rest =>
      have hlength : u.length < (String.utf8EncodeChar c).length := by simp [h]
      have hb : (String.utf8EncodeChar c)[u.length] = b := by simp [h]
      have hfirst : b.IsUTF8FirstByte := hv b rfl
      rw [← hb, UInt8.isUTF8FirstByte_getElem_utf8EncodeChar] at hfirst
      exact absurd (List.length_eq_zero_iff.mp hfirst) hu

/-- Where the bytes of characters are cut in front of a character's first byte, the characters are
cut. -/
theorem exists_append_of_beginsCharacter (h : cs.flatMap String.utf8EncodeChar = u ++ v)
    (hv : BeginsCharacter v) :
    ∃ before after, cs = before ++ after ∧ before.flatMap String.utf8EncodeChar = u ∧
      after.flatMap String.utf8EncodeChar = v := by
  induction cs generalizing u with
  | nil =>
      obtain ⟨rfl, rfl⟩ := List.append_eq_nil_iff.mp h.symm
      exact ⟨[], [], rfl, rfl, rfl⟩
  | cons c cs ih =>
      rw [List.flatMap_cons] at h
      rcases List.append_eq_append_iff.mp h with ⟨u', rfl, hrest⟩ | ⟨v', hc, rfl⟩
      · -- The cut lies behind the first character.
        obtain ⟨before, after, rfl, hbefore, hafter⟩ := ih hrest
        exact ⟨c :: before, after, rfl, by rw [List.flatMap_cons, hbefore], hafter⟩
      · -- The cut lies within its bytes, so it is at one of their ends.
        by_cases hu : u = []
        · subst hu
          exact ⟨[], c :: cs, rfl, rfl, by rw [List.flatMap_cons, hc]; rfl⟩
        · obtain rfl := eq_nil_of_utf8EncodeChar_eq hc hu hv.of_append
          rw [List.append_nil] at hc
          exact ⟨[c], cs, rfl, by rw [List.flatMap_singleton, hc], rfl⟩

/-- Decoding bytes after those of some characters gives these characters first. -/
theorem decodeFrom_flatMap_append (position : Nat) (cs : List Char) (rest : List UInt8) :
    ∃ position', decodeFrom position none (cs.flatMap String.utf8EncodeChar ++ rest) =
      (cs ++ ·) <$> decodeFrom position' none rest := by
  induction cs generalizing position with
  | nil =>
      refine ⟨position, ?_⟩
      rw [List.flatMap_nil, List.nil_append]
      cases decodeFrom position none rest <;> rfl
  | cons c cs ih =>
      obtain ⟨position', hrest⟩ := ih (position + (String.utf8EncodeChar c).length)
      refine ⟨position', ?_⟩
      rw [List.flatMap_cons, List.append_assoc, decodeFrom_utf8EncodeChar, hrest]
      cases decodeFrom position' none rest <;> rfl

/-- Characters whose bytes begin with those of others begin with these. -/
theorem exists_append_of_flatMap_eq
    (h : cs.flatMap String.utf8EncodeChar = part.flatMap String.utf8EncodeChar ++ v) :
    ∃ after, cs = part ++ after := by
  obtain ⟨position, hdecode⟩ := decodeFrom_flatMap_append 0 part v
  rw [← h, decodeFrom_flatMap] at hdecode
  cases hafter : decodeFrom position none v with
  | error e =>
      rw [hafter] at hdecode
      cases hdecode
  | ok after =>
      rw [hafter] at hdecode
      exact ⟨after, Except.ok.inj hdecode⟩

/-- Between any bytes, the bytes of a text hold those of what stands in it. -/
theorem encode_infix_around {part text : String} (h : part.toList <:+: text.toList)
    (u v : List UInt8) : encode part <:+: u ++ encode text ++ v := by
  obtain ⟨before, after, hcs⟩ := h
  refine ⟨u ++ before.flatMap String.utf8EncodeChar,
    after.flatMap String.utf8EncodeChar ++ v, ?_⟩
  unfold encode
  rw [← hcs]
  simp

/-- The bytes of a text occur in those of another exactly when it stands in it. -/
theorem encode_infix_iff {part text : String} :
    encode part <:+: encode text ↔ part.toList <:+: text.toList := by
  constructor
  · rintro ⟨u, v, h⟩
    cases hpart : part.toList with
    | nil => exact List.nil_infix
    | cons c cs =>
        unfold encode at h
        rw [List.append_assoc] at h
        have hbegins : BeginsCharacter (part.toList.flatMap String.utf8EncodeChar ++ v) := by
          rw [hpart, List.flatMap_cons, List.append_assoc]
          exact beginsCharacter_utf8EncodeChar c _
        obtain ⟨before, later, htext, _, hlater⟩ :=
          exists_append_of_beginsCharacter h.symm hbegins
        obtain ⟨after, rfl⟩ := exists_append_of_flatMap_eq hlater
        rw [htext, ← hpart]
        exact ⟨before, after, List.append_assoc _ _ _⟩
  · intro h
    simpa using encode_infix_around h [] []

end Vendoring.Text.Utf8
