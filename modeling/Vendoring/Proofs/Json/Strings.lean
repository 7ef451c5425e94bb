import Vendoring.Json.Printer
import Vendoring.Json.Reader

/-!
# Strings in JSON

What is written for a text is read back as the text, whatever characters it holds: an escape by the
units of a character is read as the character, and the two units of a pair are joined again. All of
it is ASCII.
-/

namespace Vendoring.Json

open Vendoring.Text

/-! ### Digits -/

/-- The last of at least two hexadecimal digits is that of the remainder. -/
theorem hexDigits_succ {width : Nat} (hwidth : 0 < width) (n : Nat) :
    hexDigits (width + 1) n = hexDigits width (n / 16) ++ [Nat.digitChar (n % 16)] := by
  obtain ⟨width, rfl⟩ : ∃ k, width = k + 1 := ⟨width - 1, by omega⟩
  unfold hexDigits
  by_cases hn : n < 16
  · have hzero : n / 16 = 0 := Nat.div_eq_of_lt hn
    rw [hzero, Nat.mod_eq_of_lt hn, Nat.toDigits_of_lt_base hn]
    simp [List.replicate_succ', Nat.toDigits_zero]
  · rw [Nat.toDigits_of_base_le (by decide) (Nat.le_of_not_lt hn)]
    simp

/-- A unit has four digits. -/
theorem hexDigits_four {n : Nat} (hn : n < 0x10000) :
    hexDigits 4 n = [Nat.digitChar (n / 16 / 16 / 16), Nat.digitChar (n / 16 / 16 % 16),
      Nat.digitChar (n / 16 % 16), Nat.digitChar (n % 16)] := by
  have hfirst : n / 16 / 16 / 16 < 16 := by omega
  have hone : hexDigits 1 (n / 16 / 16 / 16) = [Nat.digitChar (n / 16 / 16 / 16)] := by
    rw [hexDigits, Nat.toDigits_of_lt_base hfirst]
    rfl
  rw [hexDigits_succ (by decide), hexDigits_succ (by decide), hexDigits_succ (by decide), hone]
  rfl

private theorem hexDigit?_digitChar : ∀ d < 16, hexDigit? (Nat.digitChar d) = some d := by
  decide

private theorem digitChar_lt : ∀ d < 16, (Nat.digitChar d).toNat < 128 := by
  decide

/-- The digits of a unit are read as the unit. -/
theorem readUnit?_hexDigits {n : Nat} (hn : n < 0x10000) (rest : List Char) :
    readUnit? (hexDigits 4 n ++ rest) = some (n, rest) := by
  have hvalue : ofDigits 16 [n / 16 / 16 / 16, n / 16 / 16 % 16, n / 16 % 16, n % 16] = n := by
    simp only [ofDigits, List.foldl_cons, List.foldl_nil]
    omega
  rw [hexDigits_four hn]
  simp only [List.cons_append, List.nil_append, readUnit?]
  rw [hexDigit?_digitChar _ (by omega), hexDigit?_digitChar _ (Nat.mod_lt _ (by decide)),
    hexDigit?_digitChar _ (Nat.mod_lt _ (by decide)),
    hexDigit?_digitChar _ (Nat.mod_lt _ (by decide))]
  simp only [Option.bind_eq_bind, Option.bind_some, Option.pure_def, hvalue]

/-! ### Characters -/

private theorem stripStart?_unitEscape (n : Nat) (rest : List Char) :
    stripStart? ['\\', 'u'] (unitEscape n ++ rest) = some (hexDigits 4 n ++ rest) := rfl

private theorem readEscape?_unit (digits : List Char) :
    readEscape? ('u' :: digits) = readEscapedUnits? digits := rfl

/-- Two units of a pair are joined. -/
theorem readEscapedUnits?_pair {high low : Nat} (hhigh : 0xD800 ≤ high ∧ high < 0xDC00)
    (hlow : 0xDC00 ≤ low ∧ low < 0xE000) (rest : List Char) :
    readEscapedUnits? (hexDigits 4 high ++ unitEscape low ++ rest) =
      some (Char.ofNat (0x10000 + (high - 0xD800) * 0x400 + (low - 0xDC00)), rest) := by
  unfold readEscapedUnits?
  rw [List.append_assoc, readUnit?_hexDigits (by omega)]
  simp only [Option.bind_eq_bind, Option.bind_some]
  rw [if_pos hhigh, stripStart?_unitEscape, Option.bind_some, readUnit?_hexDigits (by omega)]
  dsimp only
  rw [if_pos hlow]
  rfl

/-- A unit stands for a character of the first plane. -/
theorem readEscapedUnits?_single {c : Char} (hc : c.toNat < 0x10000) (rest : List Char) :
    readEscapedUnits? (hexDigits 4 c.toNat ++ rest) = some (c, rest) := by
  have hvalid : c.toNat < 0xD800 ∨ 0xDFFF < c.toNat ∧ c.toNat < 0x110000 := c.valid
  unfold readEscapedUnits?
  rw [readUnit?_hexDigits hc]
  simp only [Option.bind_eq_bind, Option.bind_some]
  rw [if_neg (by omega), if_neg (by omega), Char.ofNat_toNat]
  rfl

/-- A character is written either as an escape that is read as the character, or as itself, and
then it may stand in a string as it is. -/
theorem escapedChar_cases (c : Char) :
    (∃ escape, escapedChar c = '\\' :: escape ∧
      ∀ rest, readEscape? (escape ++ rest) = some (c, rest)) ∨
    (escapedChar c = [c] ∧ c ≠ '\\' ∧ c ≠ '"' ∧ ¬c.toNat < 0x20) := by
  unfold escapedChar
  split
  · next h =>
      refine .inl ⟨[c], rfl, fun rest ↦ ?_⟩
      rcases h with rfl | rfl
      · rfl
      · rfl
  next hplain =>
  rw [not_or] at hplain
  split
  · next h => exact .inl ⟨['n'], rfl, fun _ ↦ by rw [h]; rfl⟩
  split
  · next h => exact .inl ⟨['r'], rfl, fun _ ↦ by rw [h]; rfl⟩
  split
  · next h => exact .inl ⟨['t'], rfl, fun _ ↦ by rw [h]; rfl⟩
  split
  · next h => exact .inl ⟨['b'], rfl, fun _ ↦ by rw [h]; rfl⟩
  split
  · next h => exact .inl ⟨['f'], rfl, fun _ ↦ by rw [h]; rfl⟩
  dsimp only
  split
  · next h => exact .inr ⟨rfl, hplain.2, hplain.1, by omega⟩
  split
  · next h =>
      refine .inl ⟨'u' :: hexDigits 4 c.toNat, rfl, fun rest ↦ ?_⟩
      rw [List.cons_append, readEscape?_unit, readEscapedUnits?_single h]
  · next h =>
      have hvalid : c.toNat < 0xD800 ∨ 0xDFFF < c.toNat ∧ c.toNat < 0x110000 := c.valid
      have hvalue : 0x10000 + (0xD800 + (c.toNat - 0x10000) / 0x400 - 0xD800) * 0x400 +
          (0xDC00 + (c.toNat - 0x10000) % 0x400 - 0xDC00) = c.toNat := by omega
      refine .inl ⟨_, List.cons_append .., fun rest ↦ ?_⟩
      rw [List.cons_append, List.cons_append, readEscape?_unit,
        readEscapedUnits?_pair (by omega) (by omega), hvalue, Char.ofNat_toNat]

/-- What is written for a character is read as that character. -/
theorem readString?_escapedChar (c : Char) (fuel : Nat) (rest : List Char) :
    readString? (fuel + 1) (escapedChar c ++ rest) = do
      let (s, rest) ← readString? fuel rest
      return (c :: s, rest) := by
  rcases escapedChar_cases c with ⟨escape, he, hr⟩ | ⟨he, hb, hq, hc⟩
  · rw [he, List.cons_append, readString?]
    simp only [hr, Option.bind_eq_bind, Option.bind_some]
  · rw [he, List.singleton_append, readString?]
    · rw [if_neg hc]
    · exact hq
    · exact hb

/-! ### Texts -/

/-- The characters of a text are read up to its closing quote, whatever follows. -/
theorem readString?_flatMap_escapedChar {cs : List Char} {fuel : Nat} (h : cs.length < fuel)
    (rest : List Char) :
    readString? fuel (cs.flatMap escapedChar ++ '"' :: rest) = some (cs, rest) := by
  obtain ⟨fuel, rfl⟩ : ∃ n, fuel = n + 1 := ⟨fuel - 1, by omega⟩
  induction cs generalizing fuel with
  | nil => rfl
  | cons c cs ih =>
      obtain ⟨fuel, rfl⟩ : ∃ n, fuel = n + 1 := ⟨fuel - 1, by simp at h; omega⟩
      rw [List.flatMap_cons, List.append_assoc, readString?_escapedChar,
        ih fuel (by simpa using h)]
      rfl

private theorem length_le_length_flatMap_escapedChar (cs : List Char) :
    cs.length ≤ (cs.flatMap escapedChar).length := by
  induction cs with
  | nil => exact Nat.le_refl _
  | cons c cs ih =>
      have hc : 1 ≤ (escapedChar c).length := by
        rcases escapedChar_cases c with ⟨escape, he, _⟩ | ⟨he, _⟩
        · simp [he]
        · simp [he]
      rw [List.flatMap_cons, List.length_append, List.length_cons]
      omega

/-- A text between quotes is read back, whatever follows, with the fuel that a reader of values
gives. -/
theorem readString?_string (s : String) (rest : List Char) :
    let body := s.toList.flatMap escapedChar ++ '"' :: rest
    string s ++ rest = '"' :: body ∧
      readString? (body.length + 1) body = some (s.toList, rest) := by
  have hlength := length_le_length_flatMap_escapedChar s.toList
  refine ⟨?_, readString?_flatMap_escapedChar ?_ rest⟩
  · simp [string]
  · rw [List.length_append]
    omega

/-! ### ASCII -/

/-- A character of seven bits. -/
def IsAscii (c : Char) : Prop := c.toNat < 0x80

instance : DecidablePred IsAscii := fun _ ↦ inferInstanceAs (Decidable (_ < _))

private theorem isAscii_of_mem_hexDigits {n : Nat} (hn : n < 0x10000) {c : Char}
    (hc : c ∈ hexDigits 4 n) : IsAscii c := by
  have hdigit {d : Nat} (hd : d < 16) (hcd : c = Nat.digitChar d) : IsAscii c :=
    hcd ▸ digitChar_lt d hd
  rw [hexDigits_four hn] at hc
  simp only [List.mem_cons, List.not_mem_nil, or_false] at hc
  rcases hc with hc | hc | hc | hc
  · exact hdigit (by omega) hc
  · exact hdigit (Nat.mod_lt _ (by decide)) hc
  · exact hdigit (Nat.mod_lt _ (by decide)) hc
  · exact hdigit (Nat.mod_lt _ (by decide)) hc

private theorem isAscii_of_mem_unitEscape {n : Nat} (hn : n < 0x10000) {c : Char}
    (hc : c ∈ unitEscape n) : IsAscii c := by
  rcases List.mem_cons.mp hc with rfl | hc
  · decide
  rcases List.mem_cons.mp hc with rfl | hc
  · decide
  · exact isAscii_of_mem_hexDigits hn hc

/-- Whether characters are ASCII can be computed. -/
theorem isAscii_of_all {cs : List Char} (hcs : cs.all (fun c ↦ decide (IsAscii c)) = true)
    {c : Char} (h : c ∈ cs) : IsAscii c :=
  of_decide_eq_true (List.all_eq_true.mp hcs c h)

/-- All that is written for a character is ASCII. -/
theorem isAscii_of_mem_escapedChar {c d : Char} (h : d ∈ escapedChar c) : IsAscii d := by
  unfold escapedChar at h
  split at h
  · next hc =>
      rcases hc with rfl | rfl
      · exact isAscii_of_all (by decide) h
      · exact isAscii_of_all (by decide) h
  split at h
  · exact isAscii_of_all (by decide) h
  split at h
  · exact isAscii_of_all (by decide) h
  split at h
  · exact isAscii_of_all (by decide) h
  split at h
  · exact isAscii_of_all (by decide) h
  split at h
  · exact isAscii_of_all (by decide) h
  dsimp only at h
  split at h
  · next hc =>
      obtain rfl := List.mem_singleton.mp h
      show _ < _
      omega
  split at h
  · next hc => exact isAscii_of_mem_unitEscape hc h
  · have hvalid : c.toNat < 0xD800 ∨ 0xDFFF < c.toNat ∧ c.toNat < 0x110000 := c.valid
    rcases List.mem_append.mp h with h | h
    · exact isAscii_of_mem_unitEscape (by omega) h
    · exact isAscii_of_mem_unitEscape (by omega) h

/-- All that is written for a text is ASCII. -/
theorem isAscii_of_mem_string {s : String} {c : Char} (h : c ∈ string s) : IsAscii c := by
  unfold string at h
  rw [List.cons_append, List.mem_cons, List.mem_append, List.mem_singleton, List.mem_flatMap] at h
  rcases h with rfl | ⟨d, _, hd⟩ | rfl
  · decide
  · exact isAscii_of_mem_escapedChar hd
  · decide

end Vendoring.Json
