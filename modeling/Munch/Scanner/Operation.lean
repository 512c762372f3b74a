import Munch.Scanner

/-! # Operations

What can be asked of a scanner, as data: a scanner may be used in any order of these operations.
-/

namespace Munch

/-- An operation on a scanner. -/
inductive Operation
  | skip
  | token
  | next
  | peek
  deriving DecidableEq, Repr

/-- What a scanner answers to an operation. -/
inductive Answer
  | ready (b : Bool)
  | token (r : Except Diagnostic Token)
  | next (r : Option (Except Diagnostic Token))
  | char (c : Option Char)

namespace Scanner

/-- Performs an operation. -/
def perform (s : Scanner) : Operation → Answer × Scanner
  | .skip => (.ready s.skipGap.isReady, s.skipGap)
  | .token => (.token s.token.1, s.token.2)
  | .next => (.next s.next.1, s.next.2)
  | .peek => (.char s.peek?, s)

/-- The scanner after a list of operations. -/
def after (s : Scanner) (os : List Operation) : Scanner :=
  os.foldl (fun s o => (s.perform o).2) s

end Scanner

end Munch
