import Munch.Table

/-! # Reviews

A finished table is reviewed for accepting states that no text can reach: a table without accepting
states, and accepting states to which no edge leads. The initial state is reached without an edge.
-/

namespace Munch.Table

/-- Whether an edge leads to a state. -/
def isTarget (t : Table) (s : StateId) : Bool := t.edges.values.contains s

/-- The accepting states, other than the initial one, to which no edge leads. -/
def unreached (t : Table) : List StateId :=
  t.accepting.toList.filter fun s => s ≠ initial && !t.isTarget s

/-- The warning about an accepting state to which no edge leads. -/
def unreachedWarning (name : String) : String :=
  "accepting state " ++ Text.quote name ++ " is never the target of a transition"

/-- The warning about a table without accepting states. -/
def noAcceptingWarning : String :=
  "transition table has no accepting states; every scan will fail"

/-- The warnings about a table, in ascending order. -/
def warnings (t : Table) : List String :=
  if t.accepting.isEmpty then [noAcceptingWarning]
  else (Std.ExtTreeSet.ofList (t.unreached.map fun s => unreachedWarning (t.nameOf s))).toList

/-- The sizes of a table, in one phrase. -/
def summary (t : Table) : String :=
  "built transition table: " ++ toString t.names.length ++ " states, " ++
    toString t.edges.size ++ " transitions, " ++ toString t.accepting.size ++ " accepting, " ++
    toString t.reserved.size ++ " reserved"

/-- What is logged of a finished table. -/
def records (t : Table) : List Record :=
  t.warnings.map (⟨.warn, ·⟩) ++ [⟨.debug, t.summary⟩]

end Munch.Table
