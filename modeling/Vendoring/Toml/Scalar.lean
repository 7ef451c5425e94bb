import Vendoring.Data.Value
import Vendoring.Toml.Error

/-!
# Numbers, dates and times

A number or a moment is read as far as its form reaches; what follows is left to the reader of the
statement, which refuses it unless it may stand there. Underscores in numbers stand singly between
digits. Dates have to exist in the calendar.
-/

namespace Vendoring.Toml

open Vendoring.Text Vendoring.Data

/-- Digits of a class after a digit, each at most one underscore away from the one before. -/
def digitsAfter (digit : Char → Bool) : List Char → List Char × List Char
  | [] => ([], [])
  | '_' :: rest =>
    match rest with
    | d :: rest' =>
      if digit d then
        let (digits, after) := digitsAfter digit rest'
        (d :: digits, after)
      else ([], '_' :: rest)
    | [] => ([], ['_'])
  | d :: rest =>
    if digit d then
      let (digits, after) := digitsAfter digit rest
      (d :: digits, after)
    else ([], d :: rest)

/-- At least one digit of a class, with single underscores between digits. -/
def digits? (digit : Char → Bool) : List Char → Option (List Char × List Char)
  | d :: rest =>
    if digit d then
      let (digits, after) := digitsAfter digit rest
      some (d :: digits, after)
    else none
  | [] => none

/-- Whether a character is a hexadecimal digit. -/
def isHexDigit (c : Char) : Bool := (hexDigit? c).isSome

/-- Whether a character is a binary digit. -/
def isBinaryDigit (c : Char) : Bool := c == '0' || c == '1'

/-- Whether a character is an octal digit. -/
def isOctalDigit (c : Char) : Bool := '0' ≤ c && c ≤ '7'

/-- The number that digits stand for in a base. -/
def valueOf (base : Nat) (digits : List Char) : Nat := ofDigits base (digits.filterMap hexDigit?)

/-- An integer in base sixteen, two or eight. -/
def basedInteger? : List Char → Option (Value × List Char)
  | '0' :: b :: rest =>
    let read (base : Nat) (digit : Char → Bool) := (digits? digit rest).map
      fun (digits, after) ↦ (Value.int (valueOf base digits), after)
    if b = 'x' then read 16 isHexDigit
    else if b = 'b' then read 2 isBinaryDigit
    else if b = 'o' then read 8 isOctalDigit
    else none
  | _ => none

/-- The whole part of a decimal number: a single zero, or digits that do not start with one. -/
def wholePart? (cs : List Char) : Option (List Char × List Char) :=
  match cs with
  | '0' :: rest => some (['0'], rest)
  | cs => digits? Char.isDigit cs

/-- The digits after a point, if a point and a digit come next. -/
def fractionPart (cs : List Char) : List Char × List Char :=
  match cs with
  | '.' :: rest => (digits? Char.isDigit rest).getD ([], cs)
  | cs => ([], cs)

/-- The exponent, if a marker, a sign or none, and a digit come next. -/
def exponentPart (cs : List Char) : Option Int × List Char :=
  match cs with
  | e :: rest =>
    if e = 'e' ∨ e = 'E' then
      let (negative, rest) := splitSign rest
      match digits? Char.isDigit rest with
      | some (digits, after) => (some (signed negative (valueOf 10 digits)), after)
      | none => (none, cs)
    else (none, cs)
  | [] => (none, [])

/-- A decimal number: an integer unless it has a fraction or an exponent. -/
def decimalNumber? (cs : List Char) : Option (Parse (Value × List Char)) := do
  let (negative, rest) := splitSign cs
  let (whole, rest) ← wholePart? rest
  let (fraction, rest) := fractionPart rest
  let (exponent, rest) := exponentPart rest
  if fraction.isEmpty && exponent.isNone then
    if digitLimit < whole.length then
      return .error (.oversizedInteger (.tooLong whole.length))
    else return .ok (.int (signed negative (valueOf 10 whole)), rest)
  else
    let coefficient := valueOf 10 (whole ++ fraction)
    return .ok (.decimal (.make negative coefficient (exponent.getD 0 - fraction.length)), rest)

/-- An infinity or a value that is not a number, with a sign or none. -/
def specialNumber? (cs : List Char) : Option (Value × List Char) :=
  let (negative, rest) := splitSign cs
  if "inf".toList.isPrefixOf rest then some (.infinite negative, rest.drop 3)
  else if "nan".toList.isPrefixOf rest then some (.notANumber, rest.drop 3)
  else none

/-- A number of exactly so many digits. -/
def fixedDigits? (width : Nat) (cs : List Char) : Option (Nat × List Char) :=
  let digits := (cs.take width).filterMap asciiDigit?
  if digits.length = width then some (ofDigits 10 digits, cs.drop width) else none

/-- The text after a character that has to come next. -/
def expect? (c : Char) : List Char → Option (List Char)
  | d :: rest => if d = c then some rest else none
  | [] => none

/-- The year, month and day at the start of a text, the month and day in their ranges. -/
def date? (cs : List Char) : Option ((Nat × Nat × Nat) × List Char) := do
  let (year, cs) ← fixedDigits? 4 cs
  let cs ← expect? '-' cs
  let (month, cs) ← fixedDigits? 2 cs
  let cs ← expect? '-' cs
  let (day, cs) ← fixedDigits? 2 cs
  if 1 ≤ month ∧ month ≤ 12 ∧ 1 ≤ day ∧ day ≤ 31 then some ((year, month, day), cs) else none

/-- The text after a time of day, which may have a fraction of a second. -/
def time? (cs : List Char) : Option (List Char) := do
  let (hour, cs) ← fixedDigits? 2 cs
  let cs ← expect? ':' cs
  let (minute, cs) ← fixedDigits? 2 cs
  let cs ← expect? ':' cs
  let (second, cs) ← fixedDigits? 2 cs
  if 23 < hour ∨ 59 < minute ∨ 59 < second then none
  match cs with
  | '.' :: d :: rest => if d.isDigit then rest.dropWhile Char.isDigit else cs
  | cs => cs

/-- The text after the offset from universal time, if there is one. -/
def skipOffset (cs : List Char) : List Char :=
  match cs with
  | [] => []
  | c :: rest =>
    if c = 'Z' ∨ c = 'z' then rest
    else if c = '+' ∨ c = '-' then
      let offset : Option (List Char) := do
        let (hour, rest) ← fixedDigits? 2 rest
        let rest ← expect? ':' rest
        let (minute, rest) ← fixedDigits? 2 rest
        if 23 < hour ∨ 59 < minute then none else some rest
      offset.getD cs
    else cs

/-- How many days a month has. -/
def daysInMonth (year month : Nat) : Nat :=
  if month = 2 then
    if year % 4 = 0 ∧ (year % 100 ≠ 0 ∨ year % 400 = 0) then 29 else 28
  else if month = 4 ∨ month = 6 ∨ month = 9 ∨ month = 11 then 30
  else 31

/-- Whether a date exists. -/
def isCalendarDate (date : Nat × Nat × Nat) : Bool :=
  1 ≤ date.1 && date.2.2 ≤ daysInMonth date.1 date.2.1

/-- The text after the time and offset that may follow a date. -/
def skipTimeAfterDate (cs : List Char) : List Char :=
  match cs with
  | c :: rest =>
    if c = 'T' ∨ c = 't' ∨ c = ' ' then ((time? rest).map skipOffset).getD cs else cs
  | [] => []

/-- The value of the characters of a text before the rest of it. -/
def momentBefore (cs rest : List Char) : Value × List Char :=
  (.moment (String.ofList (cs.take (cs.length - rest.length))), rest)

/-- A date with a time or without one, or a time. -/
def moment? (cs : List Char) : Option (Parse (Value × List Char)) :=
  match date? cs with
  | some (date, rest) =>
    if isCalendarDate date then some (.ok (momentBefore cs (skipTimeAfterDate rest)))
    else some (refuse .invalidMoment cs)
  | none => (time? cs).map fun rest ↦ .ok (momentBefore cs rest)

/-- A moment or a number. -/
def scalar (cs : List Char) : Parse (Value × List Char) :=
  match moment? cs with
  | some parsed => parsed
  | none =>
    match basedInteger? cs with
    | some parsed => .ok parsed
    | none =>
      match decimalNumber? cs with
      | some parsed => parsed
      | none =>
        match specialNumber? cs with
        | some parsed => .ok parsed
        | none => refuse .invalidValue cs

end Vendoring.Toml
