import Vendoring.Data.Value

/-!
# Reading JSON

`read?` reads a whole text as one value. A number with neither a point nor an exponent is an
integer, any other a decimal. A key that occurs again in a table replaces the earlier value. Escaped
surrogate pairs are joined; a surrogate that stands alone becomes the replacement character.
-/

namespace Vendoring.Json

open Vendoring.Text Vendoring.Data

/-- Blanks between tokens. -/
def isBlank (c : Char) : Bool := c == ' ' || c == '\n' || c == '\r' || c == '\t'

/-- The text after leading blanks. -/
def skipBlanks (cs : List Char) : List Char := cs.dropWhile isBlank

/-- The text after a given start. -/
def stripStart? (start cs : List Char) : Option (List Char) :=
  if start.isPrefixOf cs then some (cs.drop start.length) else none

/-- A UTF-16 unit of four hexadecimal digits. -/
def readUnit? : List Char → Option (Nat × List Char)
  | a :: b :: c :: d :: rest => do
    let value := ofDigits 16 [← hexDigit? a, ← hexDigit? b, ← hexDigit? c, ← hexDigit? d]
    return (value, rest)
  | _ => none

/-- The character that one or two units stand for, given those after the backslash and `u`. -/
def readEscapedUnits? (cs : List Char) : Option (Char × List Char) := do
  let (high, rest) ← readUnit? cs
  if 0xD800 ≤ high ∧ high < 0xDC00 then
    match (stripStart? ['\\', 'u'] rest).bind readUnit? with
    | some (low, rest') =>
      if 0xDC00 ≤ low ∧ low < 0xE000 then
        return (Char.ofNat (0x10000 + (high - 0xD800) * 0x400 + (low - 0xDC00)), rest')
      else return ('\uFFFD', rest)
    | none => return ('\uFFFD', rest)
  else if 0xDC00 ≤ high ∧ high < 0xE000 then return ('\uFFFD', rest)
  else return (Char.ofNat high, rest)

/-- The character that an escape stands for, given what follows the backslash. -/
def readEscape? : List Char → Option (Char × List Char)
  | '"' :: rest => some ('"', rest)
  | '\\' :: rest => some ('\\', rest)
  | '/' :: rest => some ('/', rest)
  | 'b' :: rest => some ('\x08', rest)
  | 'f' :: rest => some ('\x0c', rest)
  | 'n' :: rest => some ('\n', rest)
  | 'r' :: rest => some ('\r', rest)
  | 't' :: rest => some ('\t', rest)
  | 'u' :: rest => readEscapedUnits? rest
  | _ => none

/-- The characters of a string up to its closing quote, and what follows it. The fuel bounds the
number of characters. -/
def readString? : Nat → List Char → Option (List Char × List Char)
  | 0, _ => none
  | fuel + 1, cs => match cs with
    | [] => none
    | '"' :: rest => some ([], rest)
    | '\\' :: rest => do
      let (c, rest) ← readEscape? rest
      let (s, rest) ← readString? fuel rest
      return (c :: s, rest)
    | c :: rest =>
      if c.toNat < 0x20 then none
      else do
        let (s, rest) ← readString? fuel rest
        return (c :: s, rest)

/-- Whether a character may occur in a number. -/
def isNumberChar (c : Char) : Bool :=
  c.isDigit || c == '-' || c == '+' || c == '.' || c == 'e' || c == 'E'

/-- At least one digit, and what follows the run of digits. -/
def readDigits? (cs : List Char) : Option (List Nat × List Char) :=
  let digits := (cs.takeWhile Char.isDigit).filterMap asciiDigit?
  if digits.isEmpty then none else some (digits, cs.dropWhile Char.isDigit)

/-- The digits after a point, if there is one. -/
def readFraction? : List Char → Option (List Nat × List Char)
  | '.' :: rest => readDigits? rest
  | cs => some ([], cs)

/-- The exponent, if there is one. -/
def readExponent? (cs : List Char) : Option (Option Int × List Char) :=
  match cs with
  | c :: rest =>
    if c = 'e' ∨ c = 'E' then do
      let (negative, rest) := splitSign rest
      let (digits, rest) ← readDigits? rest
      return (some (signed negative (ofDigits 10 digits)), rest)
    else some (none, cs)
  | [] => some (none, cs)

/-- A number, and what follows it. -/
def readNumber? (cs : List Char) : Option (Value × List Char) := do
  let (negative, cs) := match cs with
    | '-' :: rest => (true, rest)
    | cs => (false, cs)
  let (whole, cs) ← readDigits? cs
  if whole.length > 1 && whole.head? == some 0 then none
  let (fraction, cs) ← readFraction? cs
  let (exponent, cs) ← readExponent? cs
  if fraction.isEmpty && exponent.isNone then
    return (.int (signed negative (ofDigits 10 whole)), cs)
  else
    let coefficient := ofDigits 10 (whole ++ fraction)
    return (.decimal (.make negative coefficient (exponent.getD 0 - fraction.length)), cs)

mutual

/-- A value and what follows it. The fuel bounds the number of characters. -/
def readValue? : Nat → List Char → Option (Value × List Char)
  | 0, _ => none
  | fuel + 1, cs =>
    match skipBlanks cs with
    | '"' :: rest => do
      let (s, rest) ← readString? (rest.length + 1) rest
      return (.text (String.ofList s), rest)
    | '[' :: rest =>
      match skipBlanks rest with
      | ']' :: rest => some (.list [], rest)
      | rest => do
        let (items, rest) ← readItems? fuel rest
        return (.list items, rest)
    | '\x7b' :: rest =>
      match skipBlanks rest with
      | '\x7d' :: rest => some (.table [], rest)
      | rest => do
        let (entries, rest) ← readEntries? fuel [] rest
        return (.table entries, rest)
    | 'n' :: rest => (stripStart? "ull".toList rest).map (.null, ·)
    | 't' :: rest => (stripStart? "rue".toList rest).map (.bool true, ·)
    | 'f' :: rest => (stripStart? "alse".toList rest).map (.bool false, ·)
    | rest => readNumber? rest

/-- One item and those after it, up to the closing bracket. -/
def readItems? : Nat → List Char → Option (List Value × List Char)
  | 0, _ => none
  | fuel + 1, cs => do
    let (item, rest) ← readValue? fuel cs
    match skipBlanks rest with
    | ',' :: rest =>
      let (items, rest) ← readItems? fuel rest
      return (item :: items, rest)
    | ']' :: rest => return ([item], rest)
    | _ => none

/-- One entry and those after it, up to the closing brace, added to those read before. -/
def readEntries? : Nat → Entries → List Char → Option (Entries × List Char)
  | 0, _, _ => none
  | fuel + 1, entries, cs =>
    match skipBlanks cs with
    | '"' :: rest => do
      let (key, rest) ← readString? (rest.length + 1) rest
      match skipBlanks rest with
      | ':' :: rest =>
        let (value, rest) ← readValue? fuel rest
        let entries := entries.set (String.ofList key) value
        match skipBlanks rest with
        | ',' :: rest => readEntries? fuel entries rest
        | '\x7d' :: rest => return (entries, rest)
        | _ => none
      | _ => none
    | _ => none

end

/-- The value that a whole text stands for. -/
def read? (s : String) : Option Value := do
  let cs := s.toList
  let (value, rest) ← readValue? (cs.length + 1) cs
  if (skipBlanks rest).isEmpty then some value else none

end Vendoring.Json
