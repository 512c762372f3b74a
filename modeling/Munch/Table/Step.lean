import Munch.Table.Row

/-! # Steps

A table is built in steps. A step that fails leaves the table as it was.
-/

namespace Munch

/-- One step of building a table. -/
inductive Step
  | accept (names : List String)
  | reserve (words : List String)
  | connect (source : String) (symbol : Symbol) (target : String)
  | line (text : String) (location : Location)
  deriving DecidableEq, Repr

namespace Table

/-- The table after a step, or why the step fails. -/
def step? (t : Table) : Step → Except Diagnostic Table
  | .accept names => .ok (names.foldl accept t)
  | .reserve words => .ok (words.foldl reserve t)
  | .connect source symbol target => .ok (t.connect source symbol target)
  | .line text location => t.addLine text location

/-- The table after a step, whether it fails or not. -/
def step (t : Table) (s : Step) : Table :=
  match t.step? s with
  | .ok t' => t'
  | .error _ => t

/-- The table after a list of steps. -/
def steps (t : Table) (ss : List Step) : Table := ss.foldl step t

/-- The table that a list of steps builds. -/
def ofSteps (ss : List Step) : Table := empty.steps ss

end Table

end Munch
