import Vendoring.Text.Blank

/-!
# Console markup

Lines for the console may carry style tags. A tag is an opening bracket, one of `a`-`z`, `#`, `/`
and `@`, and then everything up to the next closing bracket, provided no opening bracket comes
first; any other bracket is plain text. `render` drops the tags and checks that every closing tag
has something to close: a bare one closes the innermost open tag, a named one the innermost tag of
that name, wherever it stands. Tags left open at the end are closed there.
-/

namespace Vendoring.Text.Markup

/-- Why a text is not well-formed markup. -/
inductive MarkupError where
  /-- A bare closing tag with no tag open, at a position. -/
  | nothingToClose (position : Nat)
  /-- A closing tag, as written, at a position, whose name is not that of an open tag. -/
  | unmatchedClose (tag : String) (position : Nat)
  deriving DecidableEq, Repr

/-- The wording of an error. -/
def MarkupError.message : MarkupError → String
  | .nothingToClose position =>
    "closing tag '[/]' at position " ++ toString position ++ " has nothing to close"
  | .unmatchedClose tag position =>
    "closing tag '[" ++ tag ++ "]' at position " ++ toString position ++
      " doesn't match any open tag"

/-- A piece of a text: plain characters or a tag without its brackets. -/
inductive Piece where
  | plain (c : Char)
  | tag (inner : List Char)
  deriving DecidableEq, Repr

/-- How many characters of the text a piece takes. -/
def Piece.width : Piece → Nat
  | plain _ => 1
  | tag inner => inner.length + 2

/-- Whether a character may follow the opening bracket of a tag. -/
def startsTag (c : Char) : Bool :=
  ('a' ≤ c && c ≤ 'z') || c == '#' || c == '/' || c == '@'

/-- The inside of a tag, given what follows its opening bracket. -/
def tag? : List Char → Option (List Char)
  | [] => none
  | c :: rest =>
    let body := rest.takeWhile fun d ↦ d != ']' && d != '['
    if startsTag c && (rest.drop body.length).head? == some ']' then some (c :: body) else none

/-- Cut a text into pieces. The first argument counts the characters still to be skipped because
they belong to the tag before. -/
def piecesFrom : Nat → List Char → List Piece
  | _, [] => []
  | skip + 1, _ :: rest => piecesFrom skip rest
  | 0, c :: rest =>
    if c = '[' then
      match tag? rest with
      | some inner => .tag inner :: piecesFrom (inner.length + 1) rest
      | none => .plain c :: piecesFrom 0 rest
    else .plain c :: piecesFrom 0 rest

/-- The pieces of a text. -/
def pieces (s : String) : List Piece := piecesFrom 0 s.toList

/-- The name in a tag: what precedes an equals sign, trimmed and in lower case. -/
def tagName (inner : List Char) : List Char :=
  (trim isBlank (inner.takeWhile (· != '='))).map Char.toLower

/-- Show the pieces from a position on, with the names of the open tags, innermost first. -/
def showFrom (position : Nat) (opened : List (List Char)) :
    List Piece → Except MarkupError (List Char)
  | [] => .ok []
  | piece :: rest =>
    let after := position + piece.width
    match piece with
    | .plain c => (c :: ·) <$> showFrom after opened rest
    | .tag ('/' :: name) =>
      match tagName name with
      | [] => match opened with
        | [] => .error (.nothingToClose position)
        | _ :: opened => showFrom after opened rest
      | wanted =>
        if wanted ∈ opened then showFrom after (opened.erase wanted) rest
        else .error (.unmatchedClose (String.ofList ('/' :: name)) position)
    | .tag inner => showFrom after (tagName inner :: opened) rest

/-- A text without its tags. -/
def render (s : String) : Except MarkupError String :=
  String.ofList <$> showFrom 0 [] (pieces s)

/-- Plain characters are shown as they are. -/
theorem showFrom_map_plain (position : Nat) (opened : List (List Char)) (cs : List Char) :
    showFrom position opened (cs.map .plain) = .ok cs := by
  induction cs generalizing position with
  | nil => rfl
  | cons c rest ih => simp [showFrom, ih, Functor.map, Except.map]

end Vendoring.Text.Markup
