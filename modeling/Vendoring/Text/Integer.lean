import Vendoring.Text.Blank
import Vendoring.Text.Digit
import Vendoring.Text.Quoted

/-!
# Integers as text

`parseInt` reads an integer as an environment variable holds it: blanks around it, a sign, digits
of any script, and single underscores between digits. A numeral of more than `digitLimit` digits
is neither read nor written. `digitRun` is the part shared with the other notations: digits with
single underscores between them.
-/

namespace Vendoring.Text

/-- The most digits a decimal numeral may have. -/
def digitLimit : Nat := 4300

/-- Why an integer is unusable. -/
inductive IntegerError where
  /-- The text, whole, is not an integer. -/
  | malformed (text : String)
  /-- The numeral has too many digits. -/
  | tooLong (digits : Nat)
  /-- The integer has too many digits to be written. -/
  | unwritable
  /-- The integer is out of the range of what it is used for, in the host's wording. -/
  | outOfRange (wording : String)
  deriving DecidableEq, Repr

/-- What every refusal for too many digits begins with. -/
def digitLimitText : String :=
  "Exceeds the limit (" ++ toString digitLimit ++ " digits) for integer string conversion"

/-- What every refusal for too many digits ends with. -/
def digitLimitAdvice : String := "; use sys.set_int_max_str_digits() to increase the limit"

/-- The wording of an error. -/
def IntegerError.message : IntegerError → String
  | .malformed text => "invalid literal for int() with base 10: " ++ quoted text
  | .tooLong digits =>
    digitLimitText ++ ": value has " ++ toString digits ++ " digits" ++ digitLimitAdvice
  | .unwritable => digitLimitText ++ digitLimitAdvice
  | .outOfRange wording => wording

/-- The number that digits stand for in a base, the first being the most significant. -/
def ofDigits (base : Nat) (digits : List Nat) : Nat :=
  digits.foldl (fun value d ↦ value * base + d) 0

/-- Take the longest run of digits and underscores. The first component holds the values of the
digits, or nothing when an underscore does not stand between two digits. -/
def digitRun (digit? : Char → Option Nat) (cs : List Char) : Option (List Nat) × List Char :=
  let run := cs.takeWhile fun c ↦ (digit? c).isSome || c == '_'
  (if wellSpaced false run then some (run.filterMap digit?) else none,
    cs.dropWhile fun c ↦ (digit? c).isSome || c == '_')
where
  /-- Whether every underscore stands between two digits; the flag tells whether a digit has just
  been read. -/
  wellSpaced : Bool → List Char → Bool
    | afterDigit, [] => afterDigit
    | afterDigit, c :: rest =>
      if c == '_' then afterDigit && wellSpaced false rest else wellSpaced true rest

/-- A leading sign, and what follows it. -/
def splitSign : List Char → Bool × List Char
  | '-' :: rest => (true, rest)
  | '+' :: rest => (false, rest)
  | cs => (false, cs)

/-- The integer with a sign and a magnitude. -/
def signed (negative : Bool) (magnitude : Nat) : Int :=
  if negative then -(magnitude : Int) else magnitude

/-- Read an integer with blanks around it. -/
def parseInt (s : String) : Except IntegerError Int :=
  let (negative, cs) := splitSign (s.toList.dropWhile isBlank)
  match digitRun decimalDigit? cs with
  | (none, _) => .error (.malformed s)
  | (some digits, rest) =>
    if digitLimit < digits.length then .error (.tooLong digits.length)
    else if rest.all isBlank then .ok (signed negative (ofDigits 10 digits))
    else .error (.malformed s)

/-- The text of an integer in decimal digits, after a minus sign if it is negative. -/
def intText (n : Int) : String :=
  match n with
  | .ofNat m => String.ofList (Nat.toDigits 10 m)
  | .negSucc m => String.ofList ('-' :: Nat.toDigits 10 (m + 1))

/-- The text of an integer, unless it has too many digits. -/
def writtenInt (n : Int) : Except IntegerError String :=
  if digitLimit < (Nat.toDigits 10 n.natAbs).length then .error .unwritable else .ok (intText n)

end Vendoring.Text
