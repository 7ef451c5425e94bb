import Vendoring.Toml.Strings

/-!
# Keys

A key is a row of parts with dots between them. A part is bare (ASCII letters, digits, dashes and
underscores) or a string on one line; blanks may stand around the dots and after the key.
-/

namespace Vendoring.Toml

/-- A character of a bare key part. -/
def isBareKeyChar (c : Char) : Bool := c.isAlphanum || c == '-' || c == '_'

/-- A character that a key may start with. -/
def startsKey (c : Char) : Bool := isBareKeyChar c || c == '"' || c == '\''

/-- One part of a key. -/
def keyPart : List Char → Parse (String × List Char)
  | '"' :: rest => basicString rest
  | '\'' :: rest => literalString rest
  | c :: rest =>
    if isBareKeyChar c then
      .ok (String.ofList (c :: rest.takeWhile isBareKeyChar), rest.dropWhile isBareKeyChar)
    else refuse .invalidKeyStart (c :: rest)
  | [] => refuse .invalidKeyStart []

/-- A key and the blanks after it. The fuel bounds the number of parts. -/
def keyUpTo : Nat → List Char → Parse (Key × List Char)
  | 0, cs => refuse .invalidKeyStart cs
  | fuel + 1, cs => do
    let (part, rest) ← keyPart cs
    match skipBlanks rest with
    | '.' :: rest =>
      let (parts, rest) ← keyUpTo fuel (skipBlanks rest)
      return (part :: parts, rest)
    | rest => return ([part], rest)

/-- A key and the blanks after it. -/
def key (cs : List Char) : Parse (Key × List Char) := keyUpTo (cs.length + 1) cs

/-- A bare key part is taken whole. -/
theorem keyPart_bare {c : Char} {part rest : List Char} (hc : isBareKeyChar c = true)
    (hp : part.all isBareKeyChar = true) (hr : ∀ d ∈ rest.head?, isBareKeyChar d = false) :
    keyPart (c :: (part ++ rest)) = .ok (String.ofList (c :: part), rest) := by
  have h1 : (part ++ rest).takeWhile isBareKeyChar = part := by
    rw [List.takeWhile_append_of_pos (by simpa using hp)]
    cases rest with
    | nil => simp
    | cons d rest => simp [hr d (by simp)]
  have h2 : (part ++ rest).dropWhile isBareKeyChar = rest := by
    rw [List.dropWhile_append_of_pos (by simpa using hp)]
    cases rest with
    | nil => simp
    | cons d rest => simp [hr d (by simp)]
  unfold keyPart
  split
  · next h => cases h; simp [isBareKeyChar] at hc
  · next h => cases h; simp [isBareKeyChar] at hc
  · next h => cases h; simp [hc, h1, h2]
  · next h => cases h

end Vendoring.Toml
