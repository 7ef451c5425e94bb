import Vendoring.Text.Blank
import Vendoring.Text.Split

/-!
# Files of variable assignments

A file holds bindings `NAME=value`, one to a line unless a quoted value spans several. `parse` is
lenient: a line that cannot be read is skipped. A name without an equals sign is a binding without a
value. Values may refer to variables by `$` and a name in braces, with a default after `:-`;
`expand` replaces the references, looking a name up in the environment first and then in the
bindings before. The last binding of a name decides.
-/

namespace Vendoring.Settings.EnvFile

open Vendoring.Text

/-- A name, and a value unless the name stands alone. -/
abbrev Binding := String × Option String

/-- A character that may stand in a plain name. -/
def isNameChar (c : Char) : Bool := c != '=' && c != '#' && !isBlank c

/-- A character within a line. -/
def isLineChar (c : Char) : Bool := c != '\n' && c != '\r'

/-- Leave out the word `export` and the blanks after it. -/
def skipExport (cs : List Char) : List Char :=
  if "export".toList.isPrefixOf cs then
    let rest := cs.drop 6
    if (rest.head?.map isInlineBlank).getD false then rest.dropWhile isInlineBlank else cs
  else cs

/-- A name at the start of a text, and the text after it; the error is where reading stopped. A
comment has no name. -/
def readName (cs : List Char) : Except (List Char) (Option String × List Char) :=
  match cs with
  | '#' :: _ => .ok (none, cs)
  | '\'' :: rest =>
    let name := rest.takeWhile (· != '\'')
    match rest.dropWhile (· != '\'') with
    | _ :: after => if name.isEmpty then .error cs else .ok (some (String.ofList name), after)
    | [] => .error cs
  | cs =>
    let name := cs.takeWhile isNameChar
    if name.isEmpty then .error cs else .ok (some (String.ofList name), cs.dropWhile isNameChar)

/-- Split a quoted text at the first quote that no backslash precedes. -/
def splitQuoted (quote : Char) : List Char → Option (List Char × List Char)
  | [] => none
  | [c] => if c = quote then some ([], []) else none
  | c :: d :: rest =>
    if c = quote then some ([], d :: rest)
    else if c = '\\' ∧ d = quote then
      (splitQuoted quote rest).map fun (inside, after) ↦ (c :: d :: inside, after)
    else (splitQuoted quote (d :: rest)).map fun (inside, after) ↦ (c :: inside, after)

/-- Split a text at the last occurrence of a quote. -/
def splitLast (quote : Char) (cs : List Char) : Option (List Char × List Char) :=
  let after := (cs.reverse.takeWhile (· != quote)).reverse
  if after.length = cs.length then none
  else some (cs.take (cs.length - after.length - 1), after)

/-- The inside of a quoted text and the text after it. When a backslash precedes every quote, the
last one ends the text. -/
def quotedValue (quote : Char) (cs : List Char) : Option (List Char × List Char) :=
  match splitQuoted quote cs with
  | some split => some split
  | none => splitLast quote cs

/-- What a backslash and a character stand for between double quotes. -/
def doubleEscape? : Char → Option Char
  | '\\' => some '\\'
  | '\'' => some '\''
  | '"' => some '"'
  | 'a' => some '\x07'
  | 'b' => some '\x08'
  | 'f' => some '\x0c'
  | 'n' => some '\n'
  | 'r' => some '\r'
  | 't' => some '\t'
  | 'v' => some '\x0b'
  | _ => none

/-- What a backslash and a character stand for between single quotes. -/
def singleEscape? : Char → Option Char
  | '\\' => some '\\'
  | '\'' => some '\''
  | _ => none

/-- Replace escapes; a backslash that starts none is kept. -/
def unescape (escape? : Char → Option Char) : List Char → List Char
  | [] => []
  | [c] => [c]
  | c :: d :: rest =>
    if c = '\\' then
      match escape? d with
      | some e => e :: unescape escape? rest
      | none => c :: unescape escape? (d :: rest)
    else c :: unescape escape? (d :: rest)

/-- Cut a plain value off before blanks that a comment follows. -/
def cutComment : List Char → List Char
  | [] => []
  | c :: rest =>
    if isBlank c && (rest.dropWhile isBlank).head? == some '#' then []
    else c :: cutComment rest

/-- The value at the start of a text, and the text after it; the error is where reading stopped. -/
def readValue (cs : List Char) : Except (List Char) (List Char × List Char) :=
  match cs with
  | '\'' :: rest => match quotedValue '\'' rest with
    | some (inside, after) => .ok (unescape singleEscape? inside, after)
    | none => .error cs
  | '"' :: rest => match quotedValue '"' rest with
    | some (inside, after) => .ok (unescape doubleEscape? inside, after)
    | none => .error cs
  | cs => .ok (trimEnd isBlank (cutComment (cs.takeWhile isLineChar)), cs.dropWhile isLineChar)

/-- Leave out a comment that ends the line. -/
def skipComment (cs : List Char) : List Char :=
  match cs.dropWhile isInlineBlank with
  | '#' :: rest => rest.dropWhile isLineChar
  | _ => cs

/-- The text after the end of a line, which blanks may precede. -/
def lineEnd? (cs : List Char) : Option (List Char) :=
  match cs.dropWhile isInlineBlank with
  | [] => some []
  | '\r' :: '\n' :: rest => some rest
  | c :: rest => if isLineChar c then none else some rest

/-- The text after the current line. -/
def nextLine (cs : List Char) : List Char := (cs.dropWhile isLineChar).drop 1

/-- The end of a binding, or the place where reading stopped. -/
def finish {α : Type} (a : α) (cs : List Char) : Except (List Char) (α × List Char) :=
  let cs := skipComment cs
  match lineEnd? cs with
  | some rest => .ok (a, rest)
  | none => .error cs

/-- A binding at the start of a text and the text after its line, or the place where reading
stopped. -/
def readBinding (cs : List Char) : Except (List Char) (Option Binding × List Char) := do
  let (name, cs) ← readName (skipExport cs)
  let bind (value : Option (List Char)) : Option Binding :=
    name.map fun name ↦ (name, value.map String.ofList)
  match cs.dropWhile isInlineBlank with
  | '=' :: rest =>
    let (value, cs) ← readValue (rest.dropWhile isInlineBlank)
    finish (bind (some value)) cs
  | cs => finish (bind none) cs

/-- The bindings of a text, reading at most a number of lines. -/
def parseUpTo : Nat → List Char → List Binding
  | 0, _ => []
  | fuel + 1, cs =>
    match cs.dropWhile isBlank with
    | [] => []
    | cs => match readBinding cs with
      | .ok (some binding, rest) => binding :: parseUpTo fuel rest
      | .ok (none, rest) => parseUpTo fuel rest
      | .error stopped => parseUpTo fuel (nextLine stopped)

/-- The bindings of a file's text, with its line endings unified; a byte order mark at its start is
no part of it. -/
def parse (s : String) : List Binding :=
  let cs := match unifyNewlines s.toList with
    | '\ufeff' :: rest => rest
    | cs => cs
  parseUpTo (cs.length + 1) cs

/-- The name, default and rest of a reference, given the text after its opening brace. -/
def reference? (cs : List Char) : Option (String × String × List Char) :=
  let name := cs.takeWhile fun c ↦ c != '\x7d' && c != ':'
  match cs.drop name.length with
  | '\x7d' :: rest => some (String.ofList name, "", rest)
  | ':' :: '-' :: rest =>
    let default := rest.takeWhile (· != '\x7d')
    match rest.drop default.length with
    | _ :: after => some (String.ofList name, String.ofList default, after)
    | [] => none
  | _ => none

/-- A reference is followed by less text than its opening brace. -/
theorem length_of_reference? {cs : List Char} {name default : String} {rest : List Char}
    (h : reference? cs = some (name, default, rest)) : rest.length < cs.length := by
  unfold reference? at h
  simp only at h
  split at h
  · next r hr =>
    have := congrArg List.length hr
    simp only [List.length_drop, List.length_cons] at this
    cases h
    omega
  · next r hr =>
    have h1 := congrArg List.length hr
    simp only [List.length_drop, List.length_cons] at h1
    split at h
    · next d after ha =>
      have h2 := congrArg List.length ha
      simp only [List.length_drop, List.length_cons] at h2
      cases h
      omega
    · simp at h
  · simp at h

/-- Replace the references in a value by what a look-up gives for their names and defaults. -/
def expandValue (lookUp : String → String → String) (cs : List Char) : List Char :=
  match cs with
  | [] => []
  | c :: rest =>
    if c = '$' ∧ rest.head? = some '\x7b' then
      match _h : reference? rest.tail with
      | some (name, default, after) =>
        (lookUp name default).toList ++ expandValue lookUp after
      | none => c :: expandValue lookUp rest
    else c :: expandValue lookUp rest
termination_by cs.length
decreasing_by
  · have := length_of_reference? _h
    simp only [List.length_tail, List.length_cons] at this ⊢
    omega
  · simp
  · simp

/-- Set the value of a name; a name that is present keeps its place. -/
def setBinding (bindings : List Binding) (name : String) (value : Option String) : List Binding :=
  match bindings with
  | [] => [(name, value)]
  | (n, v) :: rest =>
    if n = name then (name, value) :: rest else (n, v) :: setBinding rest name value

/-- What a reference stands for: the variable of the environment, else the binding before, else the
default. A binding without a value stands for nothing. -/
def lookUp (value? : String → Option String) (before : List Binding) (name default : String) :
    String :=
  match value? name with
  | some value => value
  | none => match before.lookup name with
    | some value => value.getD ""
    | none => default

/-- The value of each name bound, with its references replaced. -/
def expand (value? : String → Option String) (bindings : List Binding) : List Binding :=
  bindings.foldl (fun before (name, value) ↦
    setBinding before name
      (value.map fun v ↦ String.ofList (expandValue (lookUp value? before) v.toList))) []

/-- A value without a dollar sign holds no reference. -/
theorem expandValue_of_notMem {f : String → String → String} {cs : List Char} (h : '$' ∉ cs) :
    expandValue f cs = cs := by
  induction cs with
  | nil => simp [expandValue]
  | cons c rest ih =>
    have hc : c ≠ '$' := fun hc ↦ h (by simp [hc])
    rw [expandValue, if_neg (by simp [hc]), ih fun hm ↦ h (List.mem_cons_of_mem _ hm)]

end Vendoring.Settings.EnvFile
