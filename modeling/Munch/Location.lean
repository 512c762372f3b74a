/-! # Locations

A location is a place between the characters of a text. Scanning moves a cursor over the text; the
location that a token or a diagnostic reports is computed from the cursor.
-/

namespace Munch

/-- A place in a text: how many characters stand before it, and its line and column, both counted
from one. -/
structure Location where
  index : Nat
  line : Nat
  column : Nat
  deriving DecidableEq, Repr, Inhabited

/-- Where a text begins. -/
def Location.first : Location := ⟨0, 1, 1⟩

/-- A stretch of a text: where it begins, and the place after its last character. -/
structure Extent where
  start : Location
  stop : Location
  deriving DecidableEq, Repr

/-- Where a scan stands: the characters behind it, its line, and the index at which that line
begins. -/
structure Cursor where
  index : Nat
  line : Nat
  lineStart : Nat
  deriving DecidableEq, Repr

namespace Cursor

/-- The cursor before any character is crossed. -/
def first : Cursor := ⟨0, 1, 0⟩

/-- Crosses one character. Behind a newline a new line begins. -/
def cross (k : Cursor) (c : Char) : Cursor :=
  if c = '\n' then ⟨k.index + 1, k.line + 1, k.index + 1⟩ else { k with index := k.index + 1 }

/-- Crosses a text, character after character. -/
def crossAll (k : Cursor) (text : List Char) : Cursor := text.foldl cross k

/-- The location of a cursor: the first character of a line has column one. -/
def location (k : Cursor) : Location := ⟨k.index, k.line, k.index - k.lineStart + 1⟩

end Cursor

end Munch
