/-! # Character classes

A row of a table may name a class of characters instead of a single one; the row then stands for
one row for each member of the class.
-/

namespace Munch

/-- The classes of characters that a table can name. -/
inductive CharClass
  | letter
  | digit
  | space
  | blank
  | newline
  | punctuation
  deriving DecidableEq, Repr

namespace CharClass

/-- Every class, in the order in which messages list them. -/
def all : List CharClass := [letter, digit, space, blank, newline, punctuation]

/-- No class is missing from the list. -/
theorem mem_all (k : CharClass) : k ∈ all := by cases k <;> decide

/-- The name of a class in a table. -/
def name : CharClass → String
  | letter => "any_char"
  | digit => "any_digit"
  | space => "whitespace"
  | blank => "whitespace_no_endl"
  | newline => "endl"
  | punctuation => "anything_else"

/-- The members of `punctuation`: all visible ASCII characters that are no letter or digit. -/
def punctuationMarks : String := "'\"_\\/.*-;,!@#+()[]\x7b\x7d~`:?^&%$<>=|"

/-- The members of a class, in the order in which a row is expanded. -/
def members : CharClass → List Char
  | letter => "abcdefghijklmnopqrstuvwxyzABCDEFGHIJKLMNOPQRSTUVWXYZ".toList
  | digit => "0123456789".toList
  | space => [' ', '\t', '\n']
  | blank => [' ', '\t']
  | newline => ['\n']
  | punctuation => punctuationMarks.toList

/-- The class with a given name. -/
def ofName? (name : String) : Option CharClass := all.find? (·.name == name)

end CharClass

end Munch
