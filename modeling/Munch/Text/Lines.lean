import Munch.Text.White

/-! # Lines

A newline ends a line. Lines are counted from one, and a text that ends in a newline has one more
line, which is empty. Carriage returns at the end of a line belong to its ending and are not shown.
-/

namespace Munch.Text

/-- Removes the carriage returns at the end of a line. -/
def chomp (line : List Char) : List Char := dropEndWhile (· == '\r') line

/-- The line with a given number, counted from one, without its ending. -/
def lineAt? (text : List Char) (line : Nat) : Option (List Char) :=
  if line = 0 then none else (text.splitOn '\n')[line - 1]?.map chomp

/-- The lines of a file: as `splitOn` cuts them, but what follows the last newline is a line only
if it holds a character. -/
def fileLines (text : List Char) : List (List Char) :=
  let lines := text.splitOn '\n'
  if lines.getLast? = some [] then lines.dropLast else lines

/-- Writes each line ending that is a carriage return and a newline as the newline alone. -/
def unixEndings (text : List Char) : List Char :=
  (text.foldr step (none, [])).2
where
  /-- Puts a character before a text of which the first character and the result are known. -/
  step (c : Char) (after : Option Char × List Char) : Option Char × List Char :=
    (some c, if c = '\r' ∧ after.1 = some '\n' then after.2 else c :: after.2)

/-- A step from behind sees the first character of what it has done already. -/
theorem foldr_step_fst (text : List Char) :
    (text.foldr unixEndings.step (none, [])).1 = text.head? := by
  cases text <;> rfl

@[simp] theorem unixEndings_nil : unixEndings [] = [] := rfl

/-- A carriage return goes exactly if a newline follows it. -/
theorem unixEndings_cons (c : Char) (rest : List Char) :
    unixEndings (c :: rest) =
      if c = '\r' ∧ rest.head? = some '\n' then unixEndings rest else c :: unixEndings rest := by
  simp [unixEndings, unixEndings.step, foldr_step_fst]

end Munch.Text
