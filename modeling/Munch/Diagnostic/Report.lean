import Munch.Diagnostic
import Munch.Text.Lines

/-! # Reports

A report shows a diagnostic beside the source line it is about, with a caret under the place:

    Error: UnexpectedCharacter
    -> main.src
      |
    2 | let $ = 1;
      | ----^

The line is shown without the spaces it begins with, and the caret moves left by as many columns.
-/

namespace Munch

/-- The most columns that the line of the caret can have. -/
def caretLimit : Nat := 65535

/-- Why a report cannot be laid out. -/
inductive ReportFault
  | caretOutOfRange
  deriving DecidableEq, Repr

/-- What is wrong with a report, in one phrase. -/
def ReportFault.message : ReportFault → String
  | caretOutOfRange => "Formatting argument out of range"

namespace Diagnostic

/-- The line of a source that a diagnostic is about; empty if there is none. -/
def sourceLine (d : Diagnostic) (source : List Char) : List Char :=
  (Text.lineAt? source d.location.line).getD []

/-- The column of the caret, once the spaces at the start of the line are removed. -/
def caretColumn (d : Diagnostic) (source : List Char) : Nat :=
  max 1 (d.location.column - ((d.sourceLine source).takeWhile (· == ' ')).length)

/-- The source line as a report shows it: no spaces before it, no white space behind it. -/
def shownLine (d : Diagnostic) (source : List Char) : List Char :=
  Text.dropEndWhile Text.isWhite ((d.sourceLine source).dropWhile (· == ' '))

/-- The first line of a report. -/
def heading (d : Diagnostic) : String :=
  "Error: " ++ d.cause.name ++
    match d.cause.hint? with
    | some hint => " (" ++ hint ++ ")"
    | none => ""

/-- The report of a diagnostic on a source read from a file. -/
def report (d : Diagnostic) (source file : String) : Except ReportFault String :=
  let column := d.caretColumn source.toList
  let number := toString d.location.line
  let margin := String.ofList (List.replicate (number.length + 1) ' ') ++ "|"
  let dashes := String.ofList (List.replicate (column - 1) '-')
  if caretLimit < column then .error .caretOutOfRange
  else .ok (d.heading ++ "\n" ++
    "-> " ++ file ++ "\n" ++
    margin ++ "\n" ++
    number ++ " | " ++ String.ofList (d.shownLine source.toList) ++ "\n" ++
    margin ++ " " ++ dashes ++ "^\n")

end Diagnostic

end Munch
