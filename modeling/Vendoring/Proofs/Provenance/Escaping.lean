import Vendoring.Proofs.Text.Parts
import Vendoring.Proofs.Toml.Reading
import Vendoring.Provenance.Document

/-!
# Escaped texts

What a record's document writes for a text is read back as the text, and for texts as the array of
them, whatever characters they hold. What is written holds no control character, so that neither
the line endings of a file nor those of a document can be taken for a part of it.
-/

namespace Vendoring.Provenance

open Vendoring.Text Vendoring.Data

private theorem upperHexDigits_read : ∀ n : Nat, n < 0x80 →
    (upperHexDigits 4 n).length = 4 ∧
      ((upperHexDigits 4 n).filterMap hexDigit?).length = 4 ∧
      ofDigits 16 ((upperHexDigits 4 n).filterMap hexDigit?) = n := by
  decide

/-- An escape by digits is read as the control character it was written for. -/
theorem hexEscape_upperHexDigits {c : Char} (h : c.toNat < 0x80) (rest : List Char) :
    Toml.hexEscape 4 (upperHexDigits 4 c.toNat ++ rest) = .ok ([c], rest) := by
  obtain ⟨hl, hd, hv⟩ := upperHexDigits_read c.toNat h
  unfold Toml.hexEscape
  simp only [List.take_left' hl, List.drop_left' hl]
  rw [if_pos hd, if_pos (by rw [hv]; omega), hv, Char.ofNat_toNat]

/-- A character is written either as an escape that is read as the character, or as itself, and
then it may stand in a basic string as it is. -/
theorem escapedChar_cases (c : Char) :
    (∃ escape, escapedChar c = '\\' :: escape ∧
      ∀ rest, Toml.basicEscape false (escape ++ rest) = .ok ([c], rest)) ∨
    (escapedChar c = [c] ∧ c ≠ '\\' ∧ c ≠ '"' ∧ Toml.isControl c = false) := by
  unfold escapedChar
  split
  · next h => exact .inl ⟨['\\'], rfl, fun _ ↦ by rw [h]; rfl⟩
  split
  · next h => exact .inl ⟨['"'], rfl, fun _ ↦ by rw [h]; rfl⟩
  split
  · next h => exact .inl ⟨['b'], rfl, fun _ ↦ by rw [h]; rfl⟩
  split
  · next h => exact .inl ⟨['t'], rfl, fun _ ↦ by rw [h]; rfl⟩
  split
  · next h => exact .inl ⟨['n'], rfl, fun _ ↦ by rw [h]; rfl⟩
  split
  · next h => exact .inl ⟨['f'], rfl, fun _ ↦ by rw [h]; rfl⟩
  split
  · next h => exact .inl ⟨['r'], rfl, fun _ ↦ by rw [h]; rfl⟩
  split
  · next h =>
    refine .inl ⟨'u' :: upperHexDigits 4 c.toNat, rfl, fun rest ↦ ?_⟩
    have hu (digits : List Char) :
        Toml.basicEscape false ('u' :: digits) = Toml.hexEscape 4 digits := rfl
    rw [List.cons_append, hu, hexEscape_upperHexDigits (by omega)]
  · next hb hq _ _ _ _ _ hp =>
    refine .inr ⟨rfl, hb, hq, ?_⟩
    rw [not_or] at hp
    simp [Toml.isControl, hp.1, hp.2]

/-- The body of a basic string is read character by character: what is written for a character is
read as that character. -/
theorem basicBody_escapedChar (c : Char) (fuel : Nat) (rest : List Char) :
    Toml.basicBody false (fuel + 1) (escapedChar c ++ rest) = do
      let (body, after) ← Toml.basicBody false fuel rest
      return (c :: body, after) := by
  rcases escapedChar_cases c with ⟨escape, he, hr⟩ | ⟨he, hb, hq, hc⟩
  · rw [he, List.cons_append, Toml.basicBody, hr]
    rfl
  · rw [he, List.singleton_append, Toml.basicBody]
    · simp [hc]
    · exact hb
    · exact hq

/-- The body of a text is read up to its closing quote, whatever follows. -/
theorem basicBody_flatMap_escapedChar {cs : List Char} {fuel : Nat} (h : cs.length < fuel)
    (rest : List Char) :
    Toml.basicBody false fuel (cs.flatMap escapedChar ++ '"' :: rest) = .ok (cs, rest) := by
  obtain ⟨fuel, rfl⟩ : ∃ n, fuel = n + 1 := ⟨fuel - 1, by omega⟩
  induction cs generalizing fuel with
  | nil => rfl
  | cons c cs ih =>
    obtain ⟨fuel, rfl⟩ : ∃ n, fuel = n + 1 := ⟨fuel - 1, by simp at h; omega⟩
    rw [List.flatMap_cons, List.append_assoc, basicBody_escapedChar, ih fuel (by simpa using h)]
    rfl

private theorem length_le_length_flatMap_escapedChar (cs : List Char) :
    cs.length ≤ (cs.flatMap escapedChar).length := by
  induction cs with
  | nil => exact Nat.le_refl _
  | cons c cs ih =>
    have hc : 1 ≤ (escapedChar c).length := by
      rcases escapedChar_cases c with ⟨escape, he, _⟩ | ⟨he, _⟩ <;> rw [he] <;> simp
    rw [List.flatMap_cons, List.length_append, List.length_cons]
    omega

/-- A text starts and ends with a quote. -/
theorem toList_basicString (s : String) :
    (basicString s).toList = '"' :: (s.toList.flatMap escapedChar ++ ['"']) := by
  rw [basicString, String.toList_ofList, List.cons_append]

/-- A text between quotes is read back, whatever follows. -/
theorem read_basicString (s : String) (rest : List Char) :
    Toml.basicString (s.toList.flatMap escapedChar ++ '"' :: rest) = .ok (s, rest) := by
  have hl := length_le_length_flatMap_escapedChar s.toList
  rw [Toml.basicString, basicBody_flatMap_escapedChar (by rw [List.length_append]; omega)]
  show Except.ok (String.ofList s.toList, rest) = _
  rw [String.ofList_toList]

/-- A text in quotes is read as the text wherever it stands, unless a third quote makes its quotes
those of a string that spans lines. -/
theorem reads_basicString (s : String) : Toml.Reads (basicString s).toList (.text s) := by
  intro fuel rest hf hrest
  rw [toList_basicString] at hf ⊢
  obtain ⟨fuel, rfl⟩ : ∃ n, fuel = n + 1 := ⟨fuel - 1, by simp at hf; omega⟩
  have hread := read_basicString s rest
  rw [List.cons_append, List.append_assoc, List.singleton_append, Toml.valueUpTo]
  · rw [hread]
    rfl
  · -- A second quote would be the closing one of the empty text, and no third one follows it.
    intro tail htail
    cases hs : s.toList with
    | nil =>
      rw [hs, List.flatMap_nil, List.nil_append] at htail
      exact hrest (by rw [(List.cons.inj htail).2, List.head?_cons])
    | cons c cs =>
      rw [hs, List.flatMap_cons, List.append_assoc] at htail
      rcases escapedChar_cases c with ⟨escape, he, _⟩ | ⟨he, _, hq, _⟩
      · rw [he, List.cons_append] at htail
        exact absurd (List.cons.inj htail).1 (by decide)
      · rw [he, List.singleton_append] at htail
        exact hq (List.cons.inj htail).1

/-- The characters of an array of texts. -/
theorem toList_stringArray (items : List String) :
    (stringArray items).toList =
      '[' :: ([',', ' '].intercalate (items.map fun s ↦ (basicString s).toList) ++ [']']) := by
  have hopen : "[".toList = ['['] := rfl
  have hclose : "]".toList = [']'] := rfl
  have hcomma : ", ".toList = [',', ' '] := rfl
  rw [stringArray, String.toList_append, String.toList_append, String.toList_intercalate, hopen,
    hclose, hcomma, List.map_map, List.singleton_append, List.cons_append]
  rfl

/-- An array of texts is read as the list of them. -/
theorem reads_stringArray (items : List String) :
    Toml.Reads (stringArray items).toList (.texts items) := by
  rw [toList_stringArray]
  exact Toml.reads_array reads_basicString (fun s ↦ ⟨_, toList_basicString s⟩) items

/-- A character that is no control character. -/
def IsPrinted (c : Char) : Prop := 0x20 ≤ c.toNat ∧ c.toNat ≠ 0x7F

instance : DecidablePred IsPrinted := fun _ ↦ inferInstanceAs (Decidable (_ ∧ _))

/-- A list of characters that was checked holds no control character. -/
theorem isPrinted_of_all {cs : List Char} (hcs : cs.all (fun c ↦ decide (IsPrinted c)) = true)
    {c : Char} (h : c ∈ cs) : IsPrinted c :=
  of_decide_eq_true (List.all_eq_true.mp hcs c h)

private theorem isPrinted_of_isBareKeyChar_ofNat : ∀ n : Nat, n < 0x80 →
    Toml.isBareKeyChar (Char.ofNat n) = true → IsPrinted (Char.ofNat n) := by
  decide

/-- A character of a bare key is no control character. -/
theorem isPrinted_of_isBareKeyChar {c : Char} (h : Toml.isBareKeyChar c = true) :
    IsPrinted c := by
  by_cases hlow : c.toNat < 0x80
  · have hprinted := isPrinted_of_isBareKeyChar_ofNat c.toNat hlow
    rw [Char.ofNat_toNat] at hprinted
    exact hprinted h
  · unfold IsPrinted
    omega

private theorem isPrinted_upperHexDigits : ∀ n : Nat, n < 0x80 →
    (upperHexDigits 4 n).all (fun c ↦ decide (IsPrinted c)) = true := by
  decide

/-- Nothing that is written for a character is a control character. -/
theorem isPrinted_of_mem_escapedChar {c d : Char} (h : d ∈ escapedChar c) : IsPrinted d := by
  unfold escapedChar at h
  split at h
  · exact isPrinted_of_all (by decide) h
  split at h
  · exact isPrinted_of_all (by decide) h
  split at h
  · exact isPrinted_of_all (by decide) h
  split at h
  · exact isPrinted_of_all (by decide) h
  split at h
  · exact isPrinted_of_all (by decide) h
  split at h
  · exact isPrinted_of_all (by decide) h
  split at h
  · exact isPrinted_of_all (by decide) h
  split at h
  · next hc =>
    rcases List.mem_cons.1 h with rfl | h
    · decide
    rcases List.mem_cons.1 h with rfl | h
    · decide
    · exact isPrinted_of_all (isPrinted_upperHexDigits c.toNat (by omega)) h
  · next hc =>
    obtain rfl := List.mem_singleton.1 h
    rw [not_or, Nat.not_lt] at hc
    exact hc

/-- Nothing in a text in quotes is a control character. -/
theorem isPrinted_of_mem_basicString {s : String} {c : Char} (h : c ∈ (basicString s).toList) :
    IsPrinted c := by
  rw [toList_basicString] at h
  rcases List.mem_cons.1 h with rfl | h
  · decide
  rcases List.mem_append.1 h with h | h
  · obtain ⟨d, _, hd⟩ := List.mem_flatMap.1 h
    exact isPrinted_of_mem_escapedChar hd
  · obtain rfl := List.mem_singleton.1 h
    decide

/-- Nothing in an array of texts is a control character. -/
theorem isPrinted_of_mem_stringArray {items : List String} {c : Char}
    (h : c ∈ (stringArray items).toList) : IsPrinted c := by
  rw [toList_stringArray] at h
  rcases List.mem_cons.1 h with rfl | h
  · decide
  rcases List.mem_append.1 h with h | h
  · rcases mem_or_mem_of_mem_intercalate h with h | ⟨part, hp, h⟩
    · exact isPrinted_of_all (by decide) h
    · obtain ⟨s, _, rfl⟩ := List.mem_map.1 hp
      exact isPrinted_of_mem_basicString h
  · obtain rfl := List.mem_singleton.1 h
    decide

end Vendoring.Provenance
