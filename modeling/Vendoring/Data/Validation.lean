import Vendoring.Data.Value

/-!
# Validating fields

A field reader takes the value offered for a field and gives the field's content or the issues
found. Reading a record reads every field, whatever the others give, and lists the issues in field
order; each issue carries the path to the offending value. Readers are lenient where a value has an
obvious reading: an integer may come as a text or as a decimal without fraction, a flag as one of
the usual words or as zero or one.
-/

namespace Vendoring.Data

open Vendoring.Text

/-- One step of a path into a value. -/
inductive Step where
  | field (name : String)
  | index (i : Nat)
  deriving DecidableEq, Repr

/-- What is wrong with an offered value. -/
inductive Problem where
  | missing
  | notText
  | unreadableFlag
  | notFlag
  | unreadableInteger
  | oversizedInteger
  | fractionalInteger
  | notFinite
  | notInteger
  | unreadableNumber
  | notNumber
  | notList
  | notTuple
  | notSet
  | notChoice (choices : List String)
  | notPath
  | notRecord (name : String)
  | frozen
  deriving DecidableEq, Repr

/-- A problem and where it is. -/
structure Issue where
  path : List Step
  problem : Problem
  deriving DecidableEq, Repr

/-- The issues found in a record. -/
structure ValidationError where
  record : String
  issues : List Issue
  deriving DecidableEq, Repr

namespace Problem

/-- The short name of a problem. -/
def code : Problem → String
  | missing => "missing"
  | notText => "string_type"
  | unreadableFlag => "bool_parsing"
  | notFlag => "bool_type"
  | unreadableInteger => "int_parsing"
  | oversizedInteger => "int_parsing_size"
  | fractionalInteger => "int_from_float"
  | notFinite => "finite_number"
  | notInteger => "int_type"
  | unreadableNumber => "float_parsing"
  | notNumber => "float_type"
  | notList => "list_type"
  | notTuple => "tuple_type"
  | notSet => "frozen_set_type"
  | notChoice _ => "enum"
  | notPath => "path_type"
  | notRecord _ => "model_type"
  | frozen => "frozen_instance"

/-- Quoted choices with commas between them and `or` before the last. -/
def alternatives : List String → String
  | [] => ""
  | [a] => quoted a
  | [a, b] => quoted a ++ " or " ++ quoted b
  | a :: rest => quoted a ++ ", " ++ alternatives rest

/-- The wording of a problem. -/
def message : Problem → String
  | missing => "Field required"
  | notText => "Input should be a valid string"
  | unreadableFlag => "Input should be a valid boolean, unable to interpret input"
  | notFlag => "Input should be a valid boolean"
  | unreadableInteger => "Input should be a valid integer, unable to parse string as an integer"
  | oversizedInteger => "Unable to parse input string as an integer, exceeded maximum size"
  | fractionalInteger => "Input should be a valid integer, got a number with a fractional part"
  | notFinite => "Input should be a finite number"
  | notInteger => "Input should be a valid integer"
  | unreadableNumber => "Input should be a valid number, unable to parse string as a number"
  | notNumber => "Input should be a valid number"
  | notList => "Input should be a valid list"
  | notTuple => "Input should be a valid tuple"
  | notSet => "Input should be a valid frozenset"
  | notChoice choices => "Input should be " ++ alternatives choices
  | notPath => "Input is not a valid path for <class 'pathlib.Path'>"
  | notRecord name => "Input should be a valid dictionary or instance of " ++ name
  | frozen => "Instance is frozen"

end Problem

/-- The outcome of reading: content, or the issues that prevent it. -/
inductive Checked (α : Type) where
  | valid (a : α)
  | invalid (issues : List Issue)
  deriving Repr

namespace Checked

variable {α β : Type}

/-- The issues of an outcome. -/
def issues : Checked α → List Issue
  | valid _ => []
  | invalid is => is

/-- Apply a function to valid content. -/
def map (f : α → β) : Checked α → Checked β
  | valid a => valid (f a)
  | invalid is => invalid is

/-- Apply read functions to read content; the issues of both sides are kept, in order. -/
def seq : Checked (α → β) → Checked α → Checked β
  | valid f, valid a => valid (f a)
  | f, a => invalid (f.issues ++ a.issues)

instance : Functor Checked where map := map

instance : Applicative Checked where
  pure := valid
  seq f a := f.seq (a ())

/-- Move the issues below a step. -/
def under (step : Step) : Checked α → Checked α
  | valid a => valid a
  | invalid is => invalid (is.map fun i ↦ { i with path := step :: i.path })

/-- An outcome with a single problem at its root. -/
def fail (problem : Problem) : Checked α := invalid [⟨[], problem⟩]

/-- The content, or the issues as a record's error. -/
def toExcept (record : String) : Checked α → Except ValidationError α
  | valid a => .ok a
  | invalid is => .error ⟨record, is⟩

/-- Two outcomes are applied to each other exactly when both are valid. -/
theorem seq_eq_valid_iff {f : Checked (α → β)} {a : Checked α} {b : β} :
    f.seq a = valid b ↔ ∃ g x, f = valid g ∧ a = valid x ∧ g x = b := by
  cases f <;> cases a <;> simp [seq]

/-- Moving issues below a step keeps valid content. -/
theorem under_eq_valid_iff {step : Step} {c : Checked α} {a : α} :
    c.under step = valid a ↔ c = valid a := by
  cases c <;> simp [under]

end Checked

/-- Reads one value. -/
abbrev Reader (α : Type) := Value → Checked α

namespace Reader

variable {α : Type}

/-- A text. -/
def text : Reader String
  | .text s => .valid s
  | _ => .fail .notText

/-- The flag that a word stands for, in any case. -/
def flagWord? (s : String) : Option Bool :=
  let w := s.map Char.toLower
  if w ∈ ["1", "t", "true", "y", "yes", "on"] then some true
  else if w ∈ ["0", "f", "false", "n", "no", "off"] then some false
  else none

/-- The flag that a number stands for: zero and one are flags, other numbers of a machine word are
unreadable, and all others are no flags. -/
def flagNumber (n : Int) : Checked Bool :=
  if n = 0 then .valid false
  else if n = 1 then .valid true
  else if Int64.minValue.toInt ≤ n ∧ n ≤ Int64.maxValue.toInt then .fail .unreadableFlag
  else .fail .notFlag

/-- A flag. -/
def flag : Reader Bool
  | .bool b => .valid b
  | .int n => flagNumber n
  | .decimal d => match d.toInt? with
    | some n => flagNumber n
    | none => .fail .notFlag
  | .text s => match flagWord? s with
    | some b => .valid b
    | none => .fail .unreadableFlag
  | _ => .fail .notFlag

/-- The integer that a text stands for: a sign, ASCII digits with single underscores between them,
and a fraction of zeros, with white space around. -/
def integerText (s : String) : Checked Int :=
  let cs := trim isWhiteSpace s.toList
  if digitLimit < cs.length then .fail .oversizedInteger
  else
    let (negative, rest) := splitSign cs
    match digitRun asciiDigit? rest with
    | (some digits, rest) =>
      let whole : Checked Int := .valid (signed negative (ofDigits 10 digits))
      match rest with
      | [] => whole
      | '.' :: zeros => if zeros.all (· == '0') then whole else .fail .unreadableInteger
      | _ => .fail .unreadableInteger
    | (none, _) => .fail .unreadableInteger

/-- An integer. -/
def integer : Reader Int
  | .int n => .valid n
  | .bool b => .valid (if b then 1 else 0)
  | .decimal d => match d.toInt? with
    | some n =>
      if Int64.minValue.toInt < n ∧ n ≤ Int64.maxValue.toInt then .valid n
      else .fail .oversizedInteger
    | none => .fail .fractionalInteger
  | .infinite _ | .notANumber => .fail .notFinite
  | .text s => integerText s
  | _ => .fail .notInteger

/-- The decimal that a numeral stands for: a sign, digits, a point with digits on at least one of
its sides, and an exponent. -/
def numeral? (cs : List Char) : Option Decimal := do
  let (negative, cs) := splitSign cs
  let whole := cs.takeWhile Char.isDigit
  let cs := cs.dropWhile Char.isDigit
  let (fraction, cs) := match cs with
    | '.' :: rest => (rest.takeWhile Char.isDigit, rest.dropWhile Char.isDigit)
    | cs => ([], cs)
  let digits := (whole ++ fraction).filterMap asciiDigit?
  if digits.isEmpty then none
  let exponent ← match cs with
    | [] => some (0 : Int)
    | c :: rest =>
      if c = 'e' ∨ c = 'E' then
        let (negative, rest) := splitSign rest
        if rest.isEmpty || !rest.all Char.isDigit then none
        else some (signed negative (ofDigits 10 (rest.filterMap asciiDigit?)))
      else none
  return .make negative (ofDigits 10 digits) (exponent - fraction.length)

/-- The decimal that a text stands for, with white space around it and single underscores within. -/
def numberText (s : String) : Checked Decimal :=
  let cs := trim isWhiteSpace s.toList
  match numeral? cs with
  | some d => .valid d
  | none =>
    if wellSpaced cs then
      match numeral? (cs.filter (· != '_')) with
      | some d => .valid d
      | none => .fail .unreadableNumber
    else .fail .unreadableNumber
where
  /-- Whether underscores stand neither at the ends nor next to each other. -/
  wellSpaced (cs : List Char) : Bool :=
    cs.head? != some '_' && cs.getLast? != some '_' && apart cs
  /-- Whether no two underscores stand next to each other. -/
  apart : List Char → Bool
    | '_' :: '_' :: _ => false
    | _ :: rest => apart rest
    | [] => true

/-- A number. -/
def number : Reader Decimal
  | .decimal d => .valid d
  | .int n => .valid (.ofInt n)
  | .bool b => .valid (.ofInt (if b then 1 else 0))
  | .text s => numberText s
  | _ => .fail .notNumber

/-- One of a fixed set of words. -/
def choice (choices : List String) (ofWord? : String → Option α) : Reader α
  | .text s => match ofWord? s with
    | some a => .valid a
    | none => .fail (.notChoice choices)
  | _ => .fail (.notChoice choices)

/-- The items of a list from an index on. -/
def itemsFrom (reader : Reader α) (i : Nat) : List Value → Checked (List α)
  | [] => .valid []
  | item :: rest =>
    ((reader item).under (.index i)).map List.cons |>.seq (itemsFrom reader (i + 1) rest)

/-- A list, every item by the same reader; other values have the given problem. -/
def items (problem : Problem) (reader : Reader α) : Reader (List α)
  | .list vs => itemsFrom reader 0 vs
  | _ => .fail problem

/-- Null, or what a reader accepts. -/
def optional (reader : Reader α) : Reader (Option α)
  | .null => .valid none
  | v => (reader v).map some

/-- A nested record. -/
def record (name : String) (fields : Entries → Checked α) : Reader α
  | .table entries => fields entries
  | _ => .fail (.notRecord name)

end Reader

namespace Entries

variable {α : Type}

/-- Read a field that has to be present. -/
def required (entries : Entries) (name : String) (reader : Reader α) : Checked α :=
  match entries.get? name with
  | some v => (reader v).under (.field name)
  | none => .invalid [⟨[.field name], .missing⟩]

/-- Read a field that has a default. -/
def withDefault (entries : Entries) (name : String) (reader : Reader α) (default : α) :
    Checked α :=
  match entries.get? name with
  | some v => (reader v).under (.field name)
  | none => .valid default

end Entries
end Vendoring.Data
