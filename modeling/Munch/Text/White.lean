/-! # White space

White space separates the fields of a line. It is the Unicode property White_Space, which goes
well beyond the space, the tab and the newline: no-break spaces, the typographic spaces and the
separators of lines and paragraphs have it too. Like every property of characters that a standard
defines by listing, it is held as a list of ranges of code points.
-/

namespace Munch.Text

/-- A range of code points, given by its first and its last. -/
abbrev Range := Nat × Nat

/-- Whether a character's code point lies in a range. A range holds both its ends. -/
def Range.contains (r : Range) (c : Char) : Bool := r.1 ≤ c.toNat && c.toNat ≤ r.2

/-- The code points with the property White_Space. -/
def whiteRanges : List Range :=
  [(0x9, 0xd), (0x20, 0x20), (0x85, 0x85), (0xa0, 0xa0), (0x1680, 0x1680), (0x2000, 0x200a),
   (0x2028, 0x2029), (0x202f, 0x202f), (0x205f, 0x205f), (0x3000, 0x3000)]

/-- Whether a character is white space. -/
def isWhite (c : Char) : Bool := whiteRanges.any (·.contains c)

/-- The longest stretches of a text without white space, in order. -/
def fields (text : List Char) : List (List Char) :=
  (text.splitOnP isWhite).filter (!·.isEmpty)

/-- Whether a text shows nothing: it is empty or all white space. -/
def isBlank (text : List Char) : Bool := text.all isWhite

/-- Removes from the end of a text all characters that pass a test. -/
def dropEndWhile (p : Char → Bool) (text : List Char) : List Char :=
  (text.reverse.dropWhile p).reverse

/-- The fields of a string. -/
def words (s : String) : List String := (fields s.toList).map String.ofList

end Munch.Text
