import Munch.Symbol
import Std.Data.ExtTreeMap
import Std.Data.ExtTreeSet

/-! # Tables

A table is a deterministic automaton over characters: named states, of which the first is the
initial one, edges that lead from a state on a character to a state, and the accepting states. It
also holds the reserved words. States are numbered in the order in which they are first mentioned.

Edges and sets are extensional trees, so two tables with the same edges are equal however they
were built, and an edge that is given again replaces the earlier one.
-/

namespace Munch

/-- The number of a state: its place in the order of first mention, counted from zero, in 32
bits. -/
abbrev StateId := Nat

/-- How many numbers there are. A state beyond them shares the number of an earlier one. -/
def numberLimit : Nat := UInt32.size

/-- Edges are ordered by the state that they leave, then by their character. -/
instance : Ord (StateId × Char) := lexOrd

/-- The name of the initial state. -/
def initialName : String := "init"

/-- An automaton with reserved words. -/
structure Table where
  names : List String
  edges : Std.ExtTreeMap (StateId × Char) StateId
  accepting : Std.ExtTreeSet StateId
  reserved : Std.ExtTreeSet String

namespace Table

/-- The table that knows the initial state only. -/
def empty : Table := ⟨[initialName], ∅, ∅, ∅⟩

/-- The initial state. -/
def initial : StateId := 0

/-- The number of the state at a place in the order of first mention. -/
def number (place : Nat) : StateId := place % numberLimit

/-- The number of a state, given by its name. -/
def state? (t : Table) (name : String) : Option StateId := (t.names.idxOf? name).map number

/-- The name of a state. -/
def nameOf (t : Table) (s : StateId) : String := t.names.getD s ""

/-- The state to which a character leads. -/
def next? (t : Table) (s : StateId) (c : Char) : Option StateId := t.edges[(s, c)]?

/-- Whether a state is accepting. -/
def isAccepting (t : Table) (s : StateId) : Bool := t.accepting.contains s

/-- Whether a text is a reserved word. -/
def isReserved (t : Table) (text : String) : Bool := t.reserved.contains text

/-- The names of the accepting states, in ascending order. -/
def acceptingNames (t : Table) : List String :=
  (Std.ExtTreeSet.ofList (t.accepting.toList.map t.nameOf)).toList

/-- The reserved words, in ascending order. -/
def reservedWords (t : Table) : List String := t.reserved.toList

/-- Mentions a state: it is numbered if it has no number yet. -/
def mention (t : Table) (name : String) : Table × StateId :=
  match t.state? name with
  | some s => (t, s)
  | none => ({ t with names := t.names ++ [name] }, number t.names.length)

/-- Makes a state accepting. -/
def accept (t : Table) (name : String) : Table :=
  let (t, s) := t.mention name
  { t with accepting := t.accepting.insert s }

/-- Reserves a word. -/
def reserve (t : Table) (word : String) : Table :=
  { t with reserved := t.reserved.insert word }

/-- Leads from a state to a state on each character of a symbol. -/
def connect (t : Table) (source : String) (symbol : Symbol) (target : String) : Table :=
  let (t, s) := t.mention source
  let (t, s') := t.mention target
  { t with edges := symbol.members.foldl (fun edges c => edges.insert (s, c) s') t.edges }

end Table

end Munch
