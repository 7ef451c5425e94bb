import Vendoring.Toml.Error

/-!
# Blanks, comments and strings

The lexical parts of a document. Basic strings stand between double quotes and know escapes,
literal strings stand between single quotes and know none; both have a form with tripled quotes
that may span lines, whose first line feed is dropped if it follows the opening quotes at once.
-/

namespace Vendoring.Toml

open Vendoring.Text

/-- A space or a tab. -/
def isBlank (c : Char) : Bool := c == ' ' || c == '\t'

/-- A space, a tab or a line feed. -/
def isBlankOrNewline (c : Char) : Bool := isBlank c || c == '\n'

/-- The text after leading spaces and tabs. -/
def skipBlanks (cs : List Char) : List Char := cs.dropWhile isBlank

/-- A control character other than the tab. -/
def isControl (c : Char) : Bool := (c.toNat < 0x20 && c != '\t') || c.toNat == 0x7F

/-- A control character other than the tab and the line feed. -/
def isControlInLines (c : Char) : Bool := isControl c && c != '\n'

/-- Refuse the first character of a class, the text after it being at hand. -/
def refuseAny (p : Char → Bool) : List Char → List Char → Parse Unit
  | [], _ => .ok ()
  | c :: rest, after =>
    if p c then refuse (.invalidCharacter c) (c :: rest ++ after) else refuseAny p rest after

/-- The text after a comment, if there is one: it extends to the end of the line. -/
def skipComment : List Char → Parse (List Char)
  | '#' :: rest => do
    let body := rest.takeWhile (· != '\n')
    let after := rest.dropWhile (· != '\n')
    refuseAny isControl body after
    return after
  | cs => .ok cs

/-- The text after blanks, line feeds and comments. The fuel bounds the number of comments. -/
def skipFillerUpTo : Nat → List Char → Parse (List Char)
  | 0, cs => .ok cs
  | fuel + 1, cs =>
    match cs.dropWhile isBlankOrNewline with
    | '#' :: rest => do skipFillerUpTo fuel (← skipComment ('#' :: rest))
    | cs => .ok cs

/-- The text after blanks, line feeds and comments. -/
def skipFiller (cs : List Char) : Parse (List Char) := skipFillerUpTo cs.length cs

/-- The text before the first occurrence of a delimiter and the text after it. -/
def splitAt? (delimiter : List Char) : List Char → Option (List Char × List Char)
  | [] => if delimiter.isEmpty then some ([], []) else none
  | c :: rest =>
    if delimiter.isPrefixOf (c :: rest) then some ([], (c :: rest).drop delimiter.length)
    else (splitAt? delimiter rest).map fun (before, after) ↦ (c :: before, after)

/-- The rest of a literal string up to its delimiter, without the characters of a class. -/
def literalBody (delimiter : List Char) (bad : Char → Bool) (cs : List Char) :
    Parse (List Char × List Char) :=
  match splitAt? delimiter cs with
  | none => refuse (.unterminatedLiteral (String.ofList delimiter)) []
  | some (body, after) => do
    refuseAny bad body (delimiter ++ after)
    return (body, after)

/-- The character that an escape of a fixed number of hexadecimal digits stands for. -/
def hexEscape (width : Nat) (cs : List Char) : Parse (List Char × List Char) :=
  let digits := (cs.take width).filterMap hexDigit?
  if digits.length = width then
    let value := ofDigits 16 digits
    let after := cs.drop width
    if value < 0xD800 ∨ (0xE000 ≤ value ∧ value < 0x110000) then
      .ok ([Char.ofNat value], after)
    else refuse .notScalar after
  else refuse .invalidHex cs

/-- The text after a line that a backslash ends: the blanks up to its end, and all blanks and line
feeds after it. -/
def lineContinuation (cs : List Char) : Parse (List Char × List Char) :=
  match skipBlanks cs with
  | [] => .ok ([], [])
  | '\n' :: rest => .ok ([], rest.dropWhile isBlankOrNewline)
  | cs => refuse .invalidEscape cs

/-- What an escape stands for, given the text after its backslash. -/
def basicEscape (multiline : Bool) : List Char → Parse (List Char × List Char)
  | [] => refuse .invalidEscape []
  | c :: rest =>
    if multiline && c == '\n' then .ok ([], rest.dropWhile isBlankOrNewline)
    else if multiline && isBlank c then lineContinuation rest
    else if c = 'u' then hexEscape 4 rest
    else if c = 'U' then hexEscape 8 rest
    else if c = 'b' then .ok (['\x08'], rest)
    else if c = 't' then .ok (['\t'], rest)
    else if c = 'n' then .ok (['\n'], rest)
    else if c = 'f' then .ok (['\x0c'], rest)
    else if c = 'r' then .ok (['\r'], rest)
    else if c = '"' then .ok (['"'], rest)
    else if c = '\\' then .ok (['\\'], rest)
    else refuse .invalidEscape rest

/-- The rest of a basic string, and what follows its closing quotes. The fuel bounds the number of
characters and escapes. -/
def basicBody (multiline : Bool) : Nat → List Char → Parse (List Char × List Char)
  | 0, cs => refuse .unterminatedString cs
  | fuel + 1, cs =>
    match cs with
    | [] => refuse .unterminatedString []
    | '\\' :: rest => do
      let (escaped, rest) ← basicEscape multiline rest
      let (body, rest) ← basicBody multiline fuel rest
      return (escaped ++ body, rest)
    | '"' :: rest =>
      if !multiline then .ok ([], rest)
      else if ['"', '"'].isPrefixOf rest then .ok ([], rest.drop 2)
      else do
        let (body, rest) ← basicBody multiline fuel rest
        return ('"' :: body, rest)
    | c :: rest =>
      if (if multiline then isControlInLines c else isControl c) then
        refuse (.illegalCharacter c) (c :: rest)
      else do
        let (body, rest) ← basicBody multiline fuel rest
        return (c :: body, rest)

/-- A basic string on one line, given the text after its opening quote. -/
def basicString (cs : List Char) : Parse (String × List Char) := do
  let (body, rest) ← basicBody false (cs.length + 1) cs
  return (String.ofList body, rest)

/-- A literal string on one line, given the text after its opening quote. -/
def literalString (cs : List Char) : Parse (String × List Char) := do
  let (body, rest) ← literalBody ['\''] isControl cs
  return (String.ofList body, rest)

/-- Up to two quotes right after closing quotes belong to the string. -/
def takeExtraQuotes (quote : Char) (body cs : List Char) : String × List Char :=
  match cs with
  | a :: b :: rest =>
    if a = quote ∧ b = quote then (String.ofList (body ++ [quote, quote]), rest)
    else if a = quote then (String.ofList (body ++ [quote]), b :: rest)
    else (String.ofList body, cs)
  | [a] => if a = quote then (String.ofList (body ++ [quote]), []) else (String.ofList body, cs)
  | [] => (String.ofList body, [])

/-- A string that may span lines, given the text after its opening quotes. -/
def multilineString (literal : Bool) (cs : List Char) : Parse (String × List Char) := do
  let cs := match cs with
    | '\n' :: rest => rest
    | cs => cs
  if literal then
    let (body, rest) ← literalBody ['\'', '\'', '\''] isControlInLines cs
    return takeExtraQuotes '\'' body rest
  else
    let (body, rest) ← basicBody true (cs.length + 1) cs
    return takeExtraQuotes '"' body rest

/-- Blanks are skipped, and nothing else is. -/
theorem skipBlanks_of_not_isBlank {c : Char} {rest : List Char} (h : isBlank c = false) :
    skipBlanks (c :: rest) = c :: rest := by
  simp [skipBlanks, h]

end Vendoring.Toml
