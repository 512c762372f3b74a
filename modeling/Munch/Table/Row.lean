import Munch.Table
import Munch.Text.White

/-! # Rows

A row is one line of a table: three fields, the state that an edge leaves, the symbol on which it
is taken, and the state to which it leads. Blank lines and lines that begin with the remark mark
add nothing.
-/

namespace Munch

/-- The first character of a line that is a remark. -/
def remarkMark : Char := '#'

/-- What a line of a table says. -/
inductive Row
  | remark
  | edge (source : String) (symbol : Symbol) (target : String)
  deriving DecidableEq, Repr

namespace Row

/-- Whether a line adds nothing to a table. -/
def isRemark (line : List Char) : Bool := line.head? == some remarkMark || Text.isBlank line

/-- Reads a line. -/
def ofLine (line : String) : Except Cause Row :=
  if isRemark line.toList then .ok remark
  else match Text.words line with
    | [source, symbol, target] => (Symbol.ofField symbol).map (edge source · target)
    | words => .error (.malformedRow words.length line)

end Row

namespace Table

/-- Adds a row. -/
def addRow (t : Table) : Row → Table
  | .remark => t
  | .edge source symbol target => t.connect source symbol target

/-- Adds the row that a line writes; `l` is where the line stands. -/
def addLine (t : Table) (line : String) (l : Location) : Except Diagnostic Table :=
  match Row.ofLine line with
  | .ok row => .ok (t.addRow row)
  | .error cause => .error ⟨cause, l⟩

end Table

end Munch
