import Munch.Diagnostic
import Munch.Scanner.Walk
import Munch.Token

/-! # Scanners

A scanner cuts a source into tokens, each as long as the table allows. Between tokens it skips
gaps: spaces, tabs and newlines. The first failure halts it for good.
-/

namespace Munch

/-- Whether a character may stand in a gap between tokens. -/
def isGap (c : Char) : Bool := c == ' ' || c == '\t' || c == '\n'

/-- A scan in progress: what is still to be read, where that stands in the source, and the failure
that halted the scan, if one did. -/
structure Scanner where
  table : Table
  rest : List Char
  cursor : Cursor
  halt? : Option Diagnostic

/-- The kind of a text that ended in an accepting state: reserved words are told apart by the text
alone. -/
def Table.kindOf (t : Table) (value : String) (s : StateId) : TokenKind :=
  if t.isReserved value then .keyword else .accepted (t.nameOf s)

namespace Scanner

/-- The scanner at the start of a source. -/
def start (t : Table) (source : String) : Scanner := ⟨t, source.toList, .first, none⟩

/-- The next character. -/
def peek? (s : Scanner) : Option Char := s.rest.head?

/-- Whether the whole source is read. -/
def atEnd (s : Scanner) : Bool := s.rest.isEmpty

/-- Whether a failure halted the scan. -/
def isHalted (s : Scanner) : Bool := s.halt?.isSome

/-- Where the scan stands. -/
def location (s : Scanner) : Location := s.cursor.location

/-- The line in which the scan stands. -/
def line (s : Scanner) : Nat := s.cursor.line

/-- Whether a token can be asked for. -/
def isReady (s : Scanner) : Bool := !s.isHalted && !s.atEnd

/-- Reads a number of characters. -/
def advance (s : Scanner) (n : Nat) : Scanner :=
  { s with rest := s.rest.drop n, cursor := s.cursor.crossAll (s.rest.take n) }

/-- Reads the gap before the next token. -/
def skipGap (s : Scanner) : Scanner :=
  if s.isHalted then s else s.advance (s.rest.takeWhile isGap).length

/-- The token that the next characters make up, if they end in a state. -/
def cut (s : Scanner) (length : Nat) (state : StateId) : Token :=
  let value := String.ofList (s.rest.take length)
  ⟨s.table.kindOf value state, value, ⟨s.location, (s.advance length).location⟩⟩

/-- The failure of a walk that is stopped where the scan stands. -/
def failure (s : Scanner) : Diagnostic := ⟨.unexpectedCharacter s.peek?, s.location⟩

/-- Halts the scan where it stands. -/
def halt (s : Scanner) : Scanner := { s with halt? := some s.failure }

/-- Reads the longest accepted text. If there is none, the scan halts where the walk was stopped;
once halted it fails in the same way again. -/
def token (s : Scanner) : Except Diagnostic Token × Scanner :=
  match s.halt? with
  | some d => (.error d, s)
  | none =>
    let walk := s.table.walk s.rest
    match walk.accepted? with
    | some (length, state) => (.ok (s.cut length state), s.advance length)
    | none =>
      let after := s.advance walk.crossed
      (.error after.failure, after.halt)

/-- Reads the next token behind a gap; there is none at the end and after a failure. -/
def next (s : Scanner) : Option (Except Diagnostic Token) × Scanner :=
  let s := s.skipGap
  if s.isReady then (some s.token.1, s.token.2) else (none, s)

end Scanner

end Munch
