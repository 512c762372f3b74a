import Munch.Diagnostic

/-! # Symbols

The symbol of a row says on which characters its edge is taken.
-/

namespace Munch

/-- A class of characters or a single character. -/
inductive Symbol
  | anyOf (k : CharClass)
  | only (c : Char)
  deriving DecidableEq, Repr

namespace Symbol

/-- The characters that a symbol stands for. -/
def members : Symbol → List Char
  | anyOf k => k.members
  | only c => [c]

/-- The symbol that a field writes: the name of a class or a single character. -/
def ofField (field : String) : Except Cause Symbol :=
  match CharClass.ofName? field, field.toList with
  | some k, _ => .ok (anyOf k)
  | none, [c] => .ok (only c)
  | none, _ => .error (.unknownSymbol field)

end Symbol

end Munch
