/-!
# Blank characters and trimming

Two classes of blanks occur in the formats read here: white space proper, and the wider class that
also holds the four information separators U+001C to U+001F. Trimming by a class removes its
characters from both ends and nothing in between.
-/

namespace Vendoring.Text

/-- White space proper: tabs and line breaks, the space, and the spaces and separators of other
scripts. -/
def isWhiteSpace (c : Char) : Bool :=
  let n := c.toNat
  (0x09 ≤ n && n ≤ 0x0D) || n == 0x20 || n == 0x85 || n == 0xA0 || n == 0x1680 ||
    (0x2000 ≤ n && n ≤ 0x200A) || n == 0x2028 || n == 0x2029 || n == 0x202F || n == 0x205F ||
    n == 0x3000

/-- White space and the information separators. -/
def isBlank (c : Char) : Bool :=
  isWhiteSpace c || (0x1C ≤ c.toNat && c.toNat ≤ 0x1F)

/-- A blank that does not end a line. -/
def isInlineBlank (c : Char) : Bool :=
  isBlank c && c != '\n' && c != '\r'

/-- Remove the leading and the trailing characters of a class. -/
def trim (p : Char → Bool) (cs : List Char) : List Char :=
  ((cs.dropWhile p).reverse.dropWhile p).reverse

/-- Remove the trailing characters of a class. -/
def trimEnd (p : Char → Bool) (cs : List Char) : List Char :=
  (cs.reverse.dropWhile p).reverse

/-- A text whose ends are outside the class is left as it is. -/
theorem trim_eq_self {p : Char → Bool} {cs : List Char}
    (hh : ∀ c ∈ cs.head?, p c = false) (hl : ∀ c ∈ cs.getLast?, p c = false) :
    trim p cs = cs := by
  have drop {ds : List Char} (h : ∀ c ∈ ds.head?, p c = false) : ds.dropWhile p = ds := by
    cases ds with
    | nil => rfl
    | cons d ds => simp [h d (by simp)]
  rw [trim, drop hh, drop (by simpa [List.head?_reverse] using hl), List.reverse_reverse]

end Vendoring.Text
