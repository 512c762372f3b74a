import Munch.Table

/-! # Dumps

A dump writes a table out: the accepting states, the reserved words, and one line for each edge, in
the order of the names of the states that the edges leave and then of their characters.
-/

namespace Munch

/-- Edges are written in the order of the name that they leave, then of their character. -/
instance namedEdgeOrd : Ord (String × Char) := lexOrd

namespace Table

/-- The edges of a table between names of states. -/
def namedEdges (t : Table) : Std.ExtTreeMap (String × Char) String :=
  t.edges.toList.foldl (fun edges e => edges.insert (t.nameOf e.1.1, e.1.2) (t.nameOf e.2)) ∅

/-- The line of an edge. -/
def dumpEdge (e : (String × Char) × String) : String :=
  e.1.1 ++ " --" ++ String.ofList (Text.escape e.1.2) ++ "--> " ++ e.2 ++ "\n"

/-- A table, written out. -/
def dump (t : Table) : String :=
  "accepting: " ++ " ".intercalate t.acceptingNames ++ "\n" ++
  "reserved: " ++ " ".intercalate t.reservedWords ++ "\n" ++
  String.join (t.namedEdges.toList.map dumpEdge)

end Table

end Munch
