import Vendoring.Proofs.Data.Reading
import Vendoring.Toml.Document

/-!
# Reading plain documents

The plainest document is a row of assignments of bare keys, each on a line of its own, with single
blanks around the equals sign. If its keys differ, and each text on the right is read as a value
wherever it stands, then the document is read as the table of its keys and values, in order.
-/

namespace Vendoring.Toml

open Vendoring.Text Vendoring.Data

/-- Whether a text is read as a value whatever follows it, as long as no quote does. -/
def Reads (cs : List Char) (v : Value) : Prop :=
  ∀ fuel rest, cs.length ≤ fuel → rest.head? ≠ some '"' →
    valueUpTo fuel (cs ++ rest) = .ok (v, rest)

/-- A name that may stand as a key without quotes. -/
def IsBareKey (name : String) : Prop := name ≠ "" ∧ name.toList.all isBareKeyChar = true

instance : DecidablePred IsBareKey := fun _ ↦ inferInstanceAs (Decidable (_ ∧ _))

/-- A bare key, the text on the right of its equals sign, and the value that the text is read as. -/
structure Assignment where
  name : String
  text : List Char
  value : Value
  isBareKey : IsBareKey name
  reads : Reads text value
  not_isBlank : ∀ c ∈ text.head?, isBlank c = false

/-- The line of an assignment. -/
def Assignment.line (a : Assignment) : List Char :=
  a.name.toList ++ ' ' :: '=' :: ' ' :: (a.text ++ ['\n'])

/-- The entry that an assignment adds to a table. -/
def Assignment.entry (a : Assignment) : String × Value := (a.name, a.value)

/-- A bare key has a first character. -/
theorem IsBareKey.exists_cons {name : String} (h : IsBareKey name) :
    ∃ c part, name.toList = c :: part := by
  cases hn : name.toList with
  | nil => exact absurd (String.toList_eq_nil_iff.1 hn) h.1
  | cons c part => exact ⟨c, part, rfl⟩

/-- There is no filler in front of a character that starts none. -/
theorem skipFiller_cons {c : Char} (hb : isBlankOrNewline c = false) (hc : c ≠ '#')
    (rest : List Char) : skipFiller (c :: rest) = .ok (c :: rest) := by
  unfold skipFiller
  rw [List.length_cons, skipFillerUpTo, List.dropWhile_cons_of_neg (by simp [hb])]
  split
  · next h => exact absurd (List.cons.inj h).1 hc
  · rfl

/-- One blank in front of a character that starts no filler is skipped. -/
theorem skipFiller_blank_cons {c : Char} (hb : isBlankOrNewline c = false) (hc : c ≠ '#')
    (rest : List Char) : skipFiller (' ' :: c :: rest) = .ok (c :: rest) := by
  unfold skipFiller
  rw [List.length_cons, skipFillerUpTo, List.dropWhile_cons_of_pos (by decide),
    List.dropWhile_cons_of_neg (by simp [hb])]
  split
  · next h => exact absurd (List.cons.inj h).1 hc
  · rfl

/-- A closing bracket after an item ends the items. -/
theorem itemsUpTo_of_bracket {fuel : Nat} {cs rest : List Char} {v : Value}
    (h : valueUpTo fuel cs = .ok (v, ']' :: rest)) :
    itemsUpTo (fuel + 1) cs = .ok ([v], rest) := by
  rw [itemsUpTo, h]
  simp only [bind, Except.bind, skipFiller_cons (by decide : isBlankOrNewline ']' = false)
    (by decide : ']' ≠ '#')]
  rfl

/-- After an item, a comma, a blank and a quote, the other items come. -/
theorem itemsUpTo_of_comma {fuel : Nat} {cs rest : List Char} {v : Value}
    (h : valueUpTo fuel cs = .ok (v, ',' :: ' ' :: '"' :: rest)) :
    itemsUpTo (fuel + 1) cs = do
      let (items, after) ← itemsUpTo fuel ('"' :: rest)
      return (v :: items, after) := by
  rw [itemsUpTo, h]
  simp only [bind, Except.bind, skipFiller_cons (by decide : isBlankOrNewline ',' = false)
    (by decide : ',' ≠ '#'), skipFiller_blank_cons (by decide : isBlankOrNewline '"' = false)
    (by decide : '"' ≠ '#')]
  rfl

/-- An array whose first item starts with a quote holds the items that follow. -/
theorem valueUpTo_array (fuel : Nat) (rest : List Char) :
    valueUpTo (fuel + 1) ('[' :: '"' :: rest) = do
      let (items, after) ← itemsUpTo fuel ('"' :: rest)
      return (.list items, after) := by
  rw [valueUpTo]
  simp only [bind, Except.bind, skipFiller_cons (by decide : isBlankOrNewline '"' = false)
    (by decide : '"' ≠ '#')]
  rfl

section Arrays

variable {α : Type} {shown : α → List Char} {value : α → Value}

/-- Joined texts start as the first of them does. -/
private theorem intercalate_eq_quote_cons (hq : ∀ a, ∃ cs, shown a = '"' :: cs) (a : α)
    (items : List α) : ∃ cs, [',', ' '].intercalate ((a :: items).map shown) = '"' :: cs := by
  obtain ⟨cs, ha⟩ := hq a
  cases items with
  | nil => exact ⟨cs, by rw [List.map_singleton, List.intercalate_singleton, ha]⟩
  | cons b items => exact ⟨_, by rw [List.map_cons, ha]; rfl⟩

/-- The items of an array are read one after the other, a comma and a blank between them. Each
starts with a quote, so that no bracket or filler is in its place. -/
theorem itemsUpTo_intercalate (hr : ∀ a, Reads (shown a) (value a))
    (hq : ∀ a, ∃ cs, shown a = '"' :: cs) (a : α) (items : List α) {fuel : Nat}
    (hf : ([',', ' '].intercalate ((a :: items).map shown)).length < fuel) (rest : List Char) :
    itemsUpTo fuel ([',', ' '].intercalate ((a :: items).map shown) ++ ']' :: rest) =
      .ok ((a :: items).map value, rest) := by
  obtain ⟨fuel, rfl⟩ : ∃ n, fuel = n + 1 := ⟨fuel - 1, by omega⟩
  induction items generalizing a fuel with
  | nil =>
    rw [List.map_singleton, List.intercalate_singleton] at hf ⊢
    exact itemsUpTo_of_bracket (hr a fuel _ (by omega) (by simp))
  | cons b items ih =>
    have hjoin : [',', ' '].intercalate ((a :: b :: items).map shown) =
        shown a ++ [',', ' '] ++ [',', ' '].intercalate ((b :: items).map shown) :=
      List.intercalate_cons_cons
    rw [hjoin] at hf ⊢
    simp only [List.length_append, List.length_cons, List.length_nil] at hf
    obtain ⟨cs, hcs⟩ := intercalate_eq_quote_cons hq b items
    have hfirst : valueUpTo fuel ((shown a ++ [',', ' '] ++
        [',', ' '].intercalate ((b :: items).map shown)) ++ ']' :: rest) =
        .ok (value a, ',' :: ' ' :: '"' :: (cs ++ ']' :: rest)) := by
      rw [hcs, List.append_assoc, List.append_assoc]
      exact hr a fuel _ (by omega) (by simp)
    obtain ⟨fuel, rfl⟩ : ∃ n, fuel = n + 1 := ⟨fuel - 1, by omega⟩
    have hothers := ih b fuel (by omega)
    rw [hcs, List.cons_append] at hothers
    rw [itemsUpTo_of_comma hfirst, hothers]
    rfl

/-- An array of texts in quotes on one line is read as the list of them. -/
theorem reads_array (hr : ∀ a, Reads (shown a) (value a)) (hq : ∀ a, ∃ cs, shown a = '"' :: cs)
    (items : List α) :
    Reads ('[' :: ([',', ' '].intercalate (items.map shown) ++ [']']))
      (.list (items.map value)) := by
  intro fuel rest hf _
  obtain ⟨fuel, rfl⟩ : ∃ n, fuel = n + 1 := ⟨fuel - 1, by simp at hf; omega⟩
  cases items with
  | nil =>
    show valueUpTo (fuel + 1) ('[' :: ']' :: rest) = _
    rw [valueUpTo]
    simp only [bind, Except.bind, skipFiller_cons (by decide : isBlankOrNewline ']' = false)
      (by decide : ']' ≠ '#')]
    rfl
  | cons a items =>
    have hlength : ([',', ' '].intercalate ((a :: items).map shown)).length < fuel := by
      simp only [List.length_cons, List.length_append, List.length_nil] at hf
      omega
    have hitems := itemsUpTo_intercalate hr hq a items hlength rest
    obtain ⟨cs, hcs⟩ := intercalate_eq_quote_cons hq a items
    rw [hcs, List.cons_append] at hitems
    rw [hcs, List.cons_append, List.append_assoc, List.singleton_append, List.cons_append,
      valueUpTo_array, hitems]
    rfl

end Arrays

/-- A bare key in front of a blank and an equals sign is read whole. -/
theorem key_of_isBareKey {name : String} (h : IsBareKey name) (rest : List Char) :
    key (name.toList ++ ' ' :: '=' :: rest) = .ok ([name], '=' :: rest) := by
  obtain ⟨c, part, hname⟩ := h.exists_cons
  have hall := h.2
  rw [hname, List.all_cons, Bool.and_eq_true] at hall
  have hpart : keyPart (c :: (part ++ ' ' :: '=' :: rest)) = .ok (name, ' ' :: '=' :: rest) := by
    rw [keyPart_bare hall.1 hall.2 (by simp; decide), ← hname, String.ofList_toList]
  unfold key
  rw [hname, List.cons_append, keyUpTo, hpart]
  rfl

/-- An assignment is read up to the end of its line. -/
theorem pair_line (a : Assignment) (rest : List Char) :
    pair (a.line ++ rest) = .ok ([a.name], a.value, '\n' :: rest) := by
  have hcut : a.line ++ rest =
      a.name.toList ++ ' ' :: '=' :: (' ' :: (a.text ++ '\n' :: rest)) := by
    simp [Assignment.line]
  have hvalue : skipBlanks (' ' :: (a.text ++ '\n' :: rest)) = a.text ++ '\n' :: rest := by
    cases ht : a.text with
    | nil => rfl
    | cons c cs => exact skipBlanks_of_not_isBlank (a.not_isBlank c (by simp [ht]))
  have hlength : a.text.length ≤ 2 * (a.line ++ rest).length + 1 := by
    simp only [hcut, List.length_append, List.length_cons]
    omega
  unfold pair
  rw [pairUpTo, hcut, key_of_isBareKey a.isBareKey]
  simp only [bind, Except.bind]
  rw [hvalue, ← hcut, a.reads _ _ hlength (by simp)]
  rfl

/-- Nothing but assignments to keys outside any table has been made. -/
def Draft.IsPlain (d : Draft) : Prop := d.header = [] ∧ d.declared = []

/-- In a plain document an assignment to a new key adds it to the content. -/
theorem Draft.assign_of_isPlain {d : Draft} (hd : d.IsPlain) {name : String} (v : Value)
    (hn : d.entries.get? name = none) (rest : List Char) :
    ∃ d', d.assign [name] v rest = .ok d' ∧ d'.IsPlain ∧
      d'.entries = d.entries ++ [(name, v)] := by
  obtain ⟨entries, header, declared, pending, frozen⟩ := d
  obtain ⟨rfl, rfl⟩ : header = [] ∧ declared = [] := hd
  have hadd : changeNest true (addNew name v) [] entries = some (entries ++ [(name, v)]) := by
    rw [changeNest, addNew_of_get?_eq_none v hn, Entries.set_of_get?_eq_none v hn]
  refine ⟨⟨entries ++ [(name, v)], [], [], pending ++ [],
    if isContainer v then frozen ++ [[name]] else frozen⟩, ?_, ⟨rfl, rfl⟩, rfl⟩
  have hpassed : passedKeys [] [name] = [] := rfl
  have hfrozen : Draft.isFrozen ⟨entries, [], [], pending, frozen⟩ [name].dropLast = false := rfl
  have hplace : changeNest true (addNew ([name].getLast?.getD "") v) [name].dropLast entries =
      some (entries ++ [(name, v)]) := hadd
  unfold Draft.assign
  simp only [hpassed, List.find?_nil, List.nil_append, hfrozen, hplace, Bool.false_eq_true,
    if_false]

/-- A statement that starts with a character of a bare key is an assignment. -/
theorem statement_of_isBareKeyChar (d : Draft) {c : Char} (h : isBareKeyChar c = true)
    (rest : List Char) :
    statement d (c :: rest) = do
      let (k, value, after) ← pair (c :: rest)
      let d ← d.assign k value after
      return (d, skipBlanks after) := by
  have hk : startsKey c = true := by simp [startsKey, h]
  unfold statement
  split
  · next he => cases he; exact absurd h (by decide)
  · next he => cases he; exact absurd h (by decide)
  · next he => cases he; exact absurd h (by decide)
  · next he => cases he; rw [if_pos hk]
  · next he => cases he

/-- The line of an assignment to a new key adds its entry to the content of a plain document. -/
theorem linesUpTo_line {d : Draft} (hd : d.IsPlain) (a : Assignment)
    (hn : d.entries.get? a.name = none) (fuel : Nat) (rest : List Char) :
    ∃ d' : Draft, d'.IsPlain ∧ d'.entries = d.entries ++ [a.entry] ∧
      linesUpTo (fuel + 1) d (a.line ++ rest) = linesUpTo fuel d' rest := by
  obtain ⟨d', ha, hp, he⟩ := Draft.assign_of_isPlain hd a.value hn ('\n' :: rest)
  refine ⟨d', hp, he, ?_⟩
  have hpair := pair_line a rest
  obtain ⟨c, part, hname⟩ := a.isBareKey.exists_cons
  have hline : a.line ++ rest = c :: (part ++ ' ' :: '=' :: ' ' :: (a.text ++ ['\n']) ++ rest) := by
    rw [Assignment.line, hname, List.cons_append, List.cons_append]
  have hc : isBareKeyChar c = true := by
    have hall := a.isBareKey.2
    rw [hname, List.all_cons, Bool.and_eq_true] at hall
    exact hall.1
  have hblank : isBlank c = false := by
    cases hb : isBlank c with
    | false => rfl
    | true =>
      simp only [isBlank, Bool.or_eq_true, beq_iff_eq] at hb
      rcases hb with rfl | rfl <;> exact absurd hc (by decide)
  rw [hline] at hpair ⊢
  rw [linesUpTo, skipBlanks_of_not_isBlank hblank]
  split
  · next heq => cases heq
  · next heq => cases heq; exact absurd hc (by decide)
  · next heq =>
    rw [statement_of_isBareKeyChar d hc, hpair]
    simp only [bind, Except.bind, ha]
    rfl

/-- The lines of assignments to different new keys add their entries in order. -/
theorem linesUpTo_flatMap_line (as : List Assignment) {d : Draft} (hd : d.IsPlain)
    (hdistinct : (as.map Assignment.name).Nodup)
    (hnew : ∀ a ∈ as, d.entries.get? a.name = none) {fuel : Nat} (hf : as.length < fuel) :
    ∃ d', linesUpTo fuel d (as.flatMap Assignment.line) = .ok d' ∧
      d'.entries = d.entries ++ as.map Assignment.entry := by
  obtain ⟨fuel, rfl⟩ : ∃ n, fuel = n + 1 := ⟨fuel - 1, by omega⟩
  induction as generalizing d fuel with
  | nil => exact ⟨d, rfl, (List.append_nil _).symm⟩
  | cons a as ih =>
    rw [List.map_cons, List.nodup_cons] at hdistinct
    obtain ⟨d₁, hp, he, hstep⟩ := linesUpTo_line hd a (hnew a List.mem_cons_self) fuel
      (as.flatMap Assignment.line)
    have hrest : ∀ b ∈ as, d₁.entries.get? b.name = none := by
      intro b hb
      have hne : b.name ≠ a.name := fun h ↦ hdistinct.1 (h ▸ List.mem_map_of_mem hb)
      rw [he, Assignment.entry, ← Entries.set_of_get?_eq_none a.value (hnew a List.mem_cons_self),
        Entries.get?_set_of_ne _ _ hne]
      exact hnew b (List.mem_cons_of_mem a hb)
    obtain ⟨fuel, rfl⟩ : ∃ n, fuel = n + 1 := ⟨fuel - 1, by simp at hf; omega⟩
    obtain ⟨d', hrun, hentries⟩ := ih hp hdistinct.2 hrest fuel (by simpa using hf)
    refine ⟨d', ?_, ?_⟩
    · rw [List.flatMap_cons, hstep, hrun]
    · rw [hentries, he, List.append_assoc, List.singleton_append, List.map_cons]

private theorem length_le_length_flatMap_line (as : List Assignment) :
    as.length ≤ (as.flatMap Assignment.line).length := by
  induction as with
  | nil => exact Nat.le_refl _
  | cons a as ih =>
    rw [List.flatMap_cons, List.length_append, Assignment.line]
    simp only [List.length_append, List.length_cons]
    omega

/-- A document of assignments to different keys is read as the table of their entries, in order. -/
theorem parse_flatMap_line (as : List Assignment) (hdistinct : (as.map Assignment.name).Nodup)
    (hr : '\r' ∉ as.flatMap Assignment.line) {s : String}
    (hs : s.toList = as.flatMap Assignment.line) :
    parse s = .ok (as.map Assignment.entry) := by
  obtain ⟨d, hrun, hentries⟩ := linesUpTo_flatMap_line as (d := .empty) ⟨rfl, rfl⟩ hdistinct
    (fun _ _ ↦ rfl) (Nat.lt_succ_of_le (length_le_length_flatMap_line as))
  unfold parse
  rw [hs, joinNewlinePairs_eq_self hr]
  simp only [hrun]
  rw [hentries]
  rfl

end Vendoring.Toml
