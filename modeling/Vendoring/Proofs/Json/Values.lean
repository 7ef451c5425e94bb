import Mathlib.Data.List.Basic
import Vendoring.Proofs.Data.Reading
import Vendoring.Proofs.Json.Numbers
import Vendoring.Text.Utf8

/-!
# Documents in JSON

What is written for a value is read back as the value, in every layout that puts nothing but blanks
around its items, and it is ASCII. Infinities and what is not a number are written as words that no
reader knows, and moments as texts; the values without them, whose tables hold each key once, are
those that JSON can hold.
-/

namespace Vendoring.Json

open Vendoring.Text Vendoring.Data

/-- A value that JSON can hold. -/
inductive IsJson : Value → Prop where
  | null : IsJson .null
  | bool (b : Bool) : IsJson (.bool b)
  | int (n : Int) : IsJson (.int n)
  | decimal (d : Decimal) : IsJson (.decimal d)
  | text (s : String) : IsJson (.text s)
  | list {items : List Value} (h : ∀ v ∈ items, IsJson v) : IsJson (.list items)
  | table {entries : Entries} (hkeys : (entries.map Prod.fst).Nodup)
      (h : ∀ e ∈ entries, IsJson e.2) : IsJson (.table entries)

/-- All characters are blanks. -/
def AllBlank (cs : List Char) : Prop := ∀ c ∈ cs, isBlank c = true

/-- A layout puts nothing but blanks around items, and a colon after keys. -/
structure Layout.IsBlank (layout : Layout) : Prop where
  lineBreak : ∀ depth, AllBlank (layout.lineBreak depth)
  colon : ∃ blanks, layout.colon = ':' :: blanks ∧ AllBlank blanks

/-- The indented layout has line feeds and spaces. -/
theorem Layout.isBlank_indented : Layout.indented.IsBlank where
  lineBreak depth c hc := by
    rcases List.mem_cons.mp hc with rfl | hc
    · rfl
    · rw [(List.mem_replicate.mp hc).2]
      rfl
  colon := ⟨[' '], rfl, by simp [AllBlank, Json.isBlank]⟩

variable {layout : Layout} {blanks rest text : List Char} {v : Value} {c : Char} {fuel depth : Nat}

/-! ### Blanks -/

/-- Blanks are skipped. -/
theorem skipBlanks_append (hblanks : AllBlank blanks) (cs : List Char) :
    skipBlanks (blanks ++ cs) = skipBlanks cs :=
  List.dropWhile_append_of_pos hblanks

/-- Blanks end where another character stands. -/
theorem skipBlanks_cons (hc : isBlank c = false) (cs : List Char) :
    skipBlanks (c :: cs) = c :: cs :=
  List.dropWhile_cons_of_neg (by simp [hc])

/-- Blanks before a value are skipped. -/
theorem readValue?_blanks (hblanks : AllBlank blanks) (fuel : Nat) (cs : List Char) :
    readValue? fuel (blanks ++ cs) = readValue? fuel cs := by
  cases fuel with
  | zero => rw [readValue?, readValue?]
  | succ fuel => rw [readValue?, readValue?, skipBlanks_append hblanks]

/-- Blanks before an item are skipped. -/
theorem readItems?_blanks (hblanks : AllBlank blanks) (fuel : Nat) (cs : List Char) :
    readItems? fuel (blanks ++ cs) = readItems? fuel cs := by
  cases fuel with
  | zero => rw [readItems?, readItems?]
  | succ fuel => rw [readItems?, readItems?, readValue?_blanks hblanks]

/-- Blanks before a key are skipped. -/
theorem readEntries?_blanks (hblanks : AllBlank blanks) (fuel : Nat) (entries : Entries)
    (cs : List Char) : readEntries? fuel entries (blanks ++ cs) = readEntries? fuel entries cs := by
  cases fuel with
  | zero => rw [readEntries?, readEntries?]
  | succ fuel => rw [readEntries?, readEntries?, skipBlanks_append hblanks]

/-- A character that does not occur in numbers ends one. -/
theorem endsNumber_cons (hc : isNumberChar c = false) (cs : List Char) : EndsNumber (c :: cs) := by
  rintro _ ⟨⟩
  exact hc

private theorem isNumberChar_of_isBlank (hc : isBlank c = true) : isNumberChar c = false := by
  simp only [isBlank, Bool.or_eq_true, beq_iff_eq] at hc
  rcases hc with ((rfl | rfl) | rfl) | rfl
  all_goals rfl

/-- So does the end of the text. -/
theorem endsNumber_nil : EndsNumber [] := by
  rintro _ ⟨⟩

/-- Blanks end a number. -/
theorem EndsNumber.blanks_append (hblanks : AllBlank blanks) (hrest : EndsNumber rest) :
    EndsNumber (blanks ++ rest) := by
  cases blanks with
  | nil => exact hrest
  | cons c blanks =>
      exact endsNumber_cons (isNumberChar_of_isBlank (hblanks c List.mem_cons_self)) _

/-! ### Scalars -/

/-- A text that is read as a value whatever follows, unless this could belong to a number. It
starts neither with a blank nor as what closes a list. -/
structure Reads (text : List Char) (v : Value) : Prop where
  head : ∃ c tail, text = c :: tail ∧ isBlank c = false ∧ c ≠ ']'
  reads : ∀ {fuel rest}, text.length ≤ fuel → EndsNumber rest →
    readValue? fuel (text ++ rest) = some (v, rest)

/-- It is enough to read a text with some fuel, since it has a first character. -/
theorem reads_cons {tail : List Char} (hblank : isBlank c = false) (hc : c ≠ ']')
    (h : ∀ {fuel rest}, tail.length ≤ fuel → EndsNumber rest →
      readValue? (fuel + 1) (c :: (tail ++ rest)) = some (v, rest)) : Reads (c :: tail) v where
  head := ⟨c, tail, rfl, hblank, hc⟩
  reads {fuel rest} hfuel hrest := by
    cases fuel with
    | zero => cases hfuel
    | succ fuel => exact h (Nat.le_of_succ_le_succ hfuel) hrest

/-- What is read as a number starts with a character of one. -/
theorem head_of_readNumber? {cs : List Char} {result : Value × List Char}
    (h : readNumber? cs = some result) :
    ∃ c tail, cs = c :: tail ∧ isNumberChar c = true := by
  cases cs with
  | nil => cases h
  | cons c tail =>
      refine ⟨c, tail, rfl, Classical.byContradiction fun hc ↦ ?_⟩
      rw [Bool.not_eq_true] at hc
      have hdigit : c.isDigit = false := (endsNumber_cons hc tail).isDigit c rfl
      have hnone : readDigits? (c :: tail) = none := by
        simp [readDigits?, hdigit]
      unfold readNumber? at h
      split at h
      next heq =>
      split at heq
      · next hminus =>
          rw [(List.cons.inj hminus).1] at hc
          cases hc
      · cases heq
        rw [hnone] at h
        cases h

/-- A text that is read as a number is read as that value. -/
theorem reads_of_readNumber?
    (h : ∀ {rest}, EndsNumber rest → readNumber? (text ++ rest) = some (v, rest)) :
    Reads text v := by
  obtain ⟨c, tail, htext, hc⟩ := head_of_readNumber? (h endsNumber_nil)
  rw [List.append_nil] at htext
  subst htext
  have hblank : isBlank c = false := by
    rw [Bool.eq_false_iff]
    intro hb
    rw [isNumberChar_of_isBlank hb] at hc
    cases hc
  have hbracket : c ≠ ']' := by
    rintro rfl
    exact absurd hc (by decide)
  refine reads_cons hblank hbracket fun _ hrest ↦ ?_
  rw [readValue?, skipBlanks_cons hblank]
  split
  · next heq => cases heq; exact absurd hc (by decide)
  · next heq => cases heq; exact absurd hc (by decide)
  · next heq => cases heq; exact absurd hc (by decide)
  · next heq => cases heq; exact absurd hc (by decide)
  · next heq => cases heq; exact absurd hc (by decide)
  · next heq => cases heq; exact absurd hc (by decide)
  · exact h hrest

private theorem readValue?_quote (fuel : Nat) (cs : List Char) :
    readValue? (fuel + 1) ('"' :: cs) =
      (readString? (cs.length + 1) cs).bind fun p ↦ some (.text (String.ofList p.1), p.2) := rfl

/-- A string is read as its text. -/
theorem reads_string (s : String) : Reads (string s) (.text s) := by
  refine reads_cons rfl (by decide) fun {fuel rest} _ _ ↦ ?_
  obtain ⟨htext, hread⟩ := readString?_string s rest
  refine (congrArg (readValue? (fuel + 1)) htext).trans ?_
  rw [readValue?_quote, hread, Option.bind_some, String.ofList_toList]

/-- A flag is read back. -/
theorem reads_bool (b : Bool) : Reads (if b then "true".toList else "false".toList) (.bool b) := by
  cases b with
  | true => exact reads_cons rfl (by decide) fun _ _ ↦ rfl
  | false => exact reads_cons rfl (by decide) fun _ _ ↦ rfl

/-- Nothing is read back. -/
theorem reads_null : Reads "null".toList .null :=
  reads_cons rfl (by decide) fun _ _ ↦ rfl

/-! ### Lists -/

section Lists

variable {cs : List Char} {item : Value} {items : List Value}

private theorem readItems?_eq (fuel : Nat) (cs : List Char) :
    readItems? (fuel + 1) cs = (readValue? fuel cs).bind fun p ↦
      match skipBlanks p.2 with
      | ',' :: rest => (readItems? fuel rest).bind fun q ↦ some (p.1 :: q.1, q.2)
      | ']' :: rest => some ([p.1], rest)
      | _ => none := rfl

/-- After a comma the items go on. -/
theorem readItems?_comma (h : readValue? fuel cs = some (item, ',' :: rest)) :
    readItems? (fuel + 1) cs = (readItems? fuel rest).bind fun q ↦ some (item :: q.1, q.2) := by
  rw [readItems?_eq, h]
  rfl

/-- With the closing bracket they end. -/
theorem readItems?_bracket (h : readValue? fuel cs = some (item, blanks ++ ']' :: rest))
    (hblanks : AllBlank blanks) : readItems? (fuel + 1) cs = some ([item], rest) := by
  rw [readItems?_eq, h, Option.bind_some, skipBlanks_append hblanks]
  rfl

/-- The items of a list are read one after the other. -/
theorem readItems?_writeItems (hlayout : layout.IsBlank)
    (hitems : ∀ v ∈ item :: items, Reads (write layout depth v) v) (hblanks : AllBlank blanks)
    (hfuel : (write layout depth item).length + (writeItems layout depth items).length < fuel)
    (rest : List Char) :
    readItems? fuel (write layout depth item ++
        (writeItems layout depth items ++ (blanks ++ ']' :: rest))) =
      some (item :: items, rest) := by
  obtain ⟨fuel, rfl⟩ : ∃ n, fuel = n + 1 := ⟨fuel - 1, by omega⟩
  induction items generalizing item fuel with
  | nil =>
      have hend : EndsNumber (blanks ++ ']' :: rest) :=
        (endsNumber_cons rfl rest).blanks_append hblanks
      rw [writeItems, List.nil_append]
      exact readItems?_bracket
        ((hitems item List.mem_cons_self).reads (by omega) hend) hblanks
  | cons next items ih =>
      rw [writeItems] at hfuel ⊢
      simp only [List.length_append, List.length_cons] at hfuel
      obtain ⟨fuel, rfl⟩ : ∃ n, fuel = n + 1 := ⟨fuel - 1, by omega⟩
      have hitem {tail : List Char} (htail : EndsNumber tail) :
          readValue? (fuel + 1) (write layout depth item ++ tail) = some (item, tail) :=
        (hitems item List.mem_cons_self).reads (by omega) htail
      have hrest := ih (fun v hv ↦ hitems v (List.mem_cons_of_mem item hv)) fuel (by omega)
      simp only [List.cons_append, List.append_assoc]
      rw [readItems?_comma (hitem (endsNumber_cons rfl _)),
        readItems?_blanks (hlayout.lineBreak depth), hrest, Option.bind_some]

private theorem readValue?_list {c : Char} (hblank : isBlank c = false) (hc : c ≠ ']')
    (hblanks : AllBlank blanks) (fuel : Nat) (tail : List Char) :
    readValue? (fuel + 1) ('[' :: (blanks ++ c :: tail)) =
      (readItems? fuel (c :: tail)).bind fun p ↦ some (.list p.1, p.2) := by
  have hbracket (cs : List Char) : skipBlanks ('[' :: cs) = '[' :: cs := rfl
  rw [readValue?]
  simp only [hbracket, skipBlanks_append hblanks, skipBlanks_cons hblank]
  split
  · next h => exact absurd (List.cons.inj h).1 hc
  · rfl

/-- A list is read from what its items are read from. -/
theorem reads_list (hlayout : layout.IsBlank)
    (hitems : ∀ depth, ∀ v ∈ items, Reads (write layout depth v) v) (depth : Nat) :
    Reads (write layout depth (.list items)) (.list items) := by
  cases items with
  | nil => exact reads_cons rfl (by decide) fun _ _ ↦ rfl
  | cons item items =>
      obtain ⟨c, tail, htext, hblank, hc⟩ :=
        (hitems (depth + 1) item List.mem_cons_self).head
      rw [write, List.cons_append, List.cons_append, List.cons_append, List.cons_append]
      refine reads_cons rfl (by decide) fun {fuel rest} hfuel _ ↦ ?_
      simp only [List.length_append, List.length_cons] at hfuel
      have hitems := readItems?_writeItems hlayout (hitems (depth + 1)) (hlayout.lineBreak depth)
        (show _ < fuel by omega) rest
      simp only [List.cons_append, List.append_assoc, List.nil_append]
      rw [htext, List.cons_append] at hitems ⊢
      rw [readValue?_list hblank hc (hlayout.lineBreak _), hitems, Option.bind_some]

end Lists

/-! ### Tables -/

section Tables

variable {cs : List Char} {key : String} {value : Value} {entries before : Entries}

private theorem readEntries?_key (fuel : Nat) (before : Entries) (key : String) (cs : List Char) :
    readEntries? (fuel + 1) before (string key ++ ':' :: cs) =
      (readValue? fuel cs).bind fun p ↦
        match skipBlanks p.2 with
        | ',' :: rest => readEntries? fuel (before.set key p.1) rest
        | '\x7d' :: rest => some (before.set key p.1, rest)
        | _ => none := by
  obtain ⟨htext, hread⟩ := readString?_string key (':' :: cs)
  refine (congrArg (readEntries? (fuel + 1) before) htext).trans ?_
  show (readString? _ _).bind _ = _
  rw [hread, Option.bind_some]
  dsimp only
  rw [String.ofList_toList]
  rfl

/-- After a comma the entries go on. -/
theorem readEntries?_comma (h : readValue? fuel cs = some (value, ',' :: rest)) :
    readEntries? (fuel + 1) before (string key ++ ':' :: cs) =
      readEntries? fuel (before.set key value) rest := by
  rw [readEntries?_key, h]
  rfl

/-- With the closing brace they end. -/
theorem readEntries?_brace (h : readValue? fuel cs = some (value, blanks ++ '\x7d' :: rest))
    (hblanks : AllBlank blanks) :
    readEntries? (fuel + 1) before (string key ++ ':' :: cs) =
      some (before.set key value, rest) := by
  rw [readEntries?_key, h, Option.bind_some, skipBlanks_append hblanks]
  rfl

/-- The entries of a table are read one after the other, and added in their order to those before,
none of which has their keys. -/
theorem readEntries?_writeEntries (hlayout : layout.IsBlank) (before : Entries)
    (hvalues : ∀ e ∈ (key, value) :: entries, Reads (write layout depth e.2) e.2)
    (hkeys : ((before ++ (key, value) :: entries).map Prod.fst).Nodup) (hblanks : AllBlank blanks)
    (hfuel : (write layout depth value).length + (writeEntries layout depth entries).length <
      fuel) (rest : List Char) :
    readEntries? fuel before (string key ++ (layout.colon ++ (write layout depth value ++
        (writeEntries layout depth entries ++ (blanks ++ '\x7d' :: rest))))) =
      some (before ++ (key, value) :: entries, rest) := by
  obtain ⟨fuel, rfl⟩ : ∃ n, fuel = n + 1 := ⟨fuel - 1, by omega⟩
  obtain ⟨spaces, hcolon, hspaces⟩ := hlayout.colon
  have hfirst : Reads (write layout depth value) value := hvalues _ List.mem_cons_self
  induction entries generalizing key value before fuel with
  | nil =>
      have hend : EndsNumber (blanks ++ '\x7d' :: rest) :=
        (endsNumber_cons rfl rest).blanks_append hblanks
      have hvalue : readValue? fuel _ = _ := hfirst.reads (by omega) hend
      rw [writeEntries, List.nil_append, hcolon, List.cons_append,
        readEntries?_brace ((readValue?_blanks hspaces fuel _).trans hvalue) hblanks,
        Entries.set_of_get?_eq_none value (Entries.get?_eq_none_of_nodup hkeys)]
  | cons next entries ih =>
      obtain ⟨nextKey, nextValue⟩ := next
      rw [writeEntries] at hfuel ⊢
      simp only [List.length_append, List.length_cons] at hfuel
      obtain ⟨fuel, rfl⟩ : ∃ n, fuel = n + 1 := ⟨fuel - 1, by omega⟩
      have hvalue {tail : List Char} (htail : EndsNumber tail) :
          readValue? (fuel + 1) (write layout depth value ++ tail) = some (value, tail) :=
        hfirst.reads (by omega) htail
      have hrest := ih (before ++ [(key, value)])
        (fun e he ↦ hvalues e (List.mem_cons_of_mem _ he))
        (by rwa [List.append_assoc, List.singleton_append]) fuel (by omega)
        (hvalues _ (List.mem_cons_of_mem _ List.mem_cons_self))
      rw [List.append_assoc, List.singleton_append] at hrest
      simp only [List.cons_append, List.append_assoc]
      rw [hcolon, List.cons_append,
        readEntries?_comma ((readValue?_blanks hspaces _ _).trans
          (hvalue (endsNumber_cons rfl _))),
        readEntries?_blanks (hlayout.lineBreak depth),
        Entries.set_of_get?_eq_none value (Entries.get?_eq_none_of_nodup hkeys), ← hcolon, hrest]

private theorem readValue?_table (hblanks : AllBlank blanks) (fuel : Nat) (key : String)
    (cs : List Char) :
    readValue? (fuel + 1) ('\x7b' :: (blanks ++ string key ++ cs)) =
      (readEntries? fuel [] (string key ++ cs)).bind fun p ↦ some (.table p.1, p.2) := by
  have hbrace (cs : List Char) : skipBlanks ('\x7b' :: cs) = '\x7b' :: cs := rfl
  have hquote : skipBlanks (string key ++ cs) = string key ++ cs := rfl
  rw [readValue?, List.append_assoc]
  simp only [hbrace, skipBlanks_append hblanks, hquote]
  split
  · next h => cases h
  · rfl

/-- A table is read from what its values are read from, if it holds each key once. -/
theorem reads_table (hlayout : layout.IsBlank) (hkeys : (entries.map Prod.fst).Nodup)
    (hvalues : ∀ depth, ∀ e ∈ entries, Reads (write layout depth e.2) e.2) (depth : Nat) :
    Reads (write layout depth (.table entries)) (.table entries) := by
  cases entries with
  | nil => exact reads_cons rfl (by decide) fun _ _ ↦ rfl
  | cons first entries =>
      obtain ⟨key, value⟩ := first
      rw [write, List.cons_append, List.cons_append, List.cons_append, List.cons_append,
        List.cons_append, List.cons_append]
      refine reads_cons rfl (by decide) fun {fuel rest} hfuel _ ↦ ?_
      simp only [List.length_append, List.length_cons] at hfuel
      have hentries := readEntries?_writeEntries hlayout [] (hvalues (depth + 1)) hkeys
        (hlayout.lineBreak depth) (show _ < fuel by omega) rest
      have hbrace := readValue?_table (hlayout.lineBreak (depth + 1)) fuel key
      simp only [List.cons_append, List.append_assoc, List.nil_append] at hentries hbrace ⊢
      rw [hbrace, hentries, Option.bind_some]

end Tables

/-! ### Documents -/

/-- What is written for a value that JSON can hold is read as that value. -/
theorem IsJson.reads_write (hlayout : layout.IsBlank) (hv : IsJson v) (depth : Nat) :
    Reads (write layout depth v) v := by
  induction hv generalizing depth with
  | null => exact reads_null
  | bool b =>
      rw [write]
      exact reads_bool b
  | int n =>
      rw [write]
      exact reads_of_readNumber? fun hrest ↦ readNumber?_intText n hrest
  | decimal d =>
      rw [write]
      exact reads_of_readNumber? fun hrest ↦ readNumber?_decimal d hrest
  | text s =>
      rw [write]
      exact reads_string s
  | list _ ih => exact reads_list hlayout (fun depth v hv ↦ ih v hv depth) depth
  | table hkeys _ ih => exact reads_table hlayout hkeys (fun depth e he ↦ ih e he depth) depth

/-- A document is read as the value it was written for. -/
theorem read?_write (hlayout : layout.IsBlank) (hv : IsJson v) (depth : Nat) :
    read? (String.ofList (write layout depth v)) = some v := by
  have hread := (hv.reads_write hlayout depth).reads
    (Nat.le_succ (write layout depth v).length) endsNumber_nil
  unfold read?
  dsimp only
  rw [List.append_nil] at hread
  rw [String.toList_ofList, hread]
  rfl

/-! ### ASCII -/

private theorem isAscii_of_isNumberChar (hc : isNumberChar c = true) : IsAscii c := by
  simp only [isNumberChar, Bool.or_eq_true, beq_iff_eq] at hc
  rcases hc with ((((hc | rfl) | rfl) | rfl) | rfl) | rfl
  · simp only [Char.isDigit, Bool.and_eq_true, decide_eq_true_eq, UInt32.le_iff_toNat_le] at hc
    exact Nat.lt_of_le_of_lt hc.2 (by decide)
  all_goals decide

private theorem isAscii_of_isBlank (hc : isBlank c = true) : IsAscii c := by
  simp only [isBlank, Bool.or_eq_true, beq_iff_eq] at hc
  rcases hc with ((rfl | rfl) | rfl) | rfl
  all_goals decide

private theorem isAscii_colon (hlayout : layout.IsBlank) : ∀ c ∈ layout.colon, IsAscii c := by
  obtain ⟨blanks, hcolon, hblanks⟩ := hlayout.colon
  rw [hcolon, List.forall_mem_cons]
  exact ⟨by decide, fun c hc ↦ isAscii_of_isBlank (hblanks c hc)⟩

private theorem isAscii_lineBreak (hlayout : layout.IsBlank) (depth : Nat) :
    ∀ c ∈ layout.lineBreak depth, IsAscii c :=
  fun c hc ↦ isAscii_of_isBlank (hlayout.lineBreak depth c hc)

private theorem isAscii_writeItems (hlayout : layout.IsBlank) {items : List Value}
    (hitems : ∀ v ∈ items, ∀ c ∈ write layout depth v, IsAscii c) :
    ∀ c ∈ writeItems layout depth items, IsAscii c := by
  induction items with
  | nil => simp [writeItems]
  | cons item items ih =>
      rw [List.forall_mem_cons] at hitems
      simp only [writeItems, List.forall_mem_append, List.forall_mem_cons]
      exact ⟨⟨⟨by decide, isAscii_lineBreak hlayout depth⟩, hitems.1⟩, ih hitems.2⟩

private theorem isAscii_writeEntries (hlayout : layout.IsBlank) {entries : Entries}
    (hvalues : ∀ e ∈ entries, ∀ c ∈ write layout depth e.2, IsAscii c) :
    ∀ c ∈ writeEntries layout depth entries, IsAscii c := by
  induction entries with
  | nil => simp [writeEntries]
  | cons first entries ih =>
      rw [List.forall_mem_cons] at hvalues
      simp only [writeEntries, List.forall_mem_append, List.forall_mem_cons]
      exact ⟨⟨⟨⟨⟨by decide, isAscii_lineBreak hlayout depth⟩, fun _ ↦ isAscii_of_mem_string⟩,
        isAscii_colon hlayout⟩, hvalues.1⟩, ih hvalues.2⟩

/-- All that is written for a value is ASCII. -/
theorem IsJson.isAscii_of_mem_write (hlayout : layout.IsBlank) (hv : IsJson v) (depth : Nat) :
    ∀ c ∈ write layout depth v, IsAscii c := by
  induction hv generalizing depth with
  | null =>
      rw [write]
      exact fun c hc ↦ isAscii_of_all (by decide) hc
  | bool b =>
      rw [write]
      cases b
      · exact fun c hc ↦ isAscii_of_all (by decide) hc
      · exact fun c hc ↦ isAscii_of_all (by decide) hc
  | int n => exact fun c hc ↦ isAscii_of_isNumberChar (isNumberChar_of_mem_intText hc)
  | decimal d => exact fun c hc ↦ isAscii_of_isNumberChar (isNumberChar_of_mem_text hc)
  | text s => exact fun c hc ↦ isAscii_of_mem_string hc
  | @list items _ ih =>
      cases items with
      | nil =>
          rw [write]
          exact fun c hc ↦ isAscii_of_all (by decide) hc
      | cons item items =>
          have hitems := List.forall_mem_cons.mp fun v hv ↦ ih v hv (depth + 1)
          simp only [write, List.forall_mem_append, List.forall_mem_cons]
          exact ⟨⟨⟨⟨⟨by decide, isAscii_lineBreak hlayout _⟩, hitems.1⟩,
            isAscii_writeItems hlayout hitems.2⟩, isAscii_lineBreak hlayout _⟩,
            by decide, by simp⟩
  | @table entries _ _ ih =>
      cases entries with
      | nil =>
          rw [write]
          exact fun c hc ↦ isAscii_of_all (by decide) hc
      | cons first entries =>
          have hvalues := List.forall_mem_cons.mp fun e he ↦ ih e he (depth + 1)
          simp only [write, List.forall_mem_append, List.forall_mem_cons]
          exact ⟨⟨⟨⟨⟨⟨⟨by decide, isAscii_lineBreak hlayout _⟩, fun _ ↦ isAscii_of_mem_string⟩,
            isAscii_colon hlayout⟩, hvalues.1⟩, isAscii_writeEntries hlayout hvalues.2⟩,
            isAscii_lineBreak hlayout _⟩, by decide, by simp⟩

/-! ### Files -/

private theorem utf8EncodeChar_of_isAscii (hc : IsAscii c) :
    String.utf8EncodeChar c = [UInt8.ofNat c.toNat] := by
  have hle : c.val.toNat ≤ 0x7f := Nat.le_of_lt_succ hc
  rw [String.utf8EncodeChar.eq_1]
  exact if_pos hle

/-- The bytes of a document are ASCII. -/
theorem IsJson.lt_of_mem_encode (hlayout : layout.IsBlank) (hv : IsJson v) {b : UInt8}
    (hb : b ∈ Utf8.encode (String.ofList (write layout depth v))) : b.toNat < 0x80 := by
  rw [Utf8.encode, String.toList_ofList, List.mem_flatMap] at hb
  obtain ⟨c, hc, hb⟩ := hb
  have hascii := hv.isAscii_of_mem_write hlayout depth c hc
  rw [utf8EncodeChar_of_isAscii hascii, List.mem_singleton] at hb
  have hlt : c.toNat < 0x80 := hascii
  rw [hb, UInt8.toNat_ofNat_of_lt' (by show c.toNat < 256; omega)]
  exact hlt

/-- The bytes of a document hold the value it was written for. -/
theorem IsJson.read?_of_encode (hlayout : layout.IsBlank) (hv : IsJson v) (depth : Nat) :
    ∃ text, Utf8.decode (Utf8.encode (String.ofList (write layout depth v))) = .ok text ∧
      read? text = some v :=
  ⟨_, Utf8.decode_encode _, read?_write hlayout hv depth⟩

end Vendoring.Json
