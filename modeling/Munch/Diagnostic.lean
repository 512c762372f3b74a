import Munch.CharClass
import Munch.Location
import Munch.Text.Escape

/-! # Diagnostics

A diagnostic is the cause of a failure and its location. Both the reading of a table and the
scanning of a source end with the first one. What is worth knowing of them besides goes into the
records of a log.
-/

namespace Munch

/-- What can be wrong with a table or with a source. -/
inductive Cause
  /-- No accepted text begins here; the walk was stopped by this character, or by the end. -/
  | unexpectedCharacter (found : Option Char)
  /-- A row that does not have three fields. -/
  | malformedRow (fields : Nat) (row : String)
  /-- The middle field of a row that is neither a class nor a single character. -/
  | unknownSymbol (symbol : String)
  /-- A table that ends before one of its two header lines. -/
  | missingHeader (header : String)
  deriving DecidableEq, Repr

/-- The written form of what stopped a walk. -/
def writeFound : Option Char → String
  | some c => String.ofList (Text.escape c)
  | none => "<EOF>"

namespace Cause

/-- The name of a kind of cause. -/
def name : Cause → String
  | unexpectedCharacter _ => "UnexpectedCharacter"
  | malformedRow _ _ => "MalformedRow"
  | unknownSymbol _ => "UnknownSymbolClass"
  | missingHeader _ => "MissingHeader"

/-- Whether a cause lies in a source, and not in a table. -/
def isLexical : Cause → Bool
  | unexpectedCharacter _ => true
  | _ => false

/-- What is wrong, in one phrase. -/
def message : Cause → String
  | unexpectedCharacter found => "unexpected character: " ++ writeFound found
  | malformedRow fields row =>
    "malformed transition row (" ++ toString fields ++ " fields): " ++ Text.quote row
  | unknownSymbol symbol => "unknown symbol class " ++ Text.quote symbol
  | missingHeader header => "missing " ++ header ++ " line"

/-- What would have been right, where that can be said. -/
def hint? : Cause → Option String
  | unexpectedCharacter (some _) => none
  | unexpectedCharacter none => some "Input ended before any accepting state was reached"
  | malformedRow fields _ =>
    some ("Expected `state symbol state`, found " ++ toString fields ++ " field(s)")
  | unknownSymbol symbol =>
    some ("`" ++ symbol ++ "` is neither a single character nor one of " ++
      ", ".intercalate (CharClass.all.map CharClass.name))
  | missingHeader header =>
    some ("The table description must start with the " ++ header ++ " line")

end Cause

/-- A failure: its cause, and where it was found. -/
structure Diagnostic where
  cause : Cause
  location : Location
  deriving DecidableEq, Repr

/-- What is wrong and where, in one line. Only for an unexpected character is the column told. -/
def Diagnostic.message (d : Diagnostic) : String :=
  "Error at Line: " ++ toString d.location.line ++
    match d.cause with
    | .unexpectedCharacter found =>
      " Row: " ++ toString d.location.column ++ " Unexpected character: " ++ writeFound found
    | cause => " " ++ cause.message

/-! ## Log records -/

/-- How much a log record matters. -/
inductive Level
  | trace
  | debug
  | warn
  deriving DecidableEq, Repr

/-- The name of a level. -/
def Level.name : Level → String
  | trace => "TRACE"
  | debug => "DEBUG"
  | warn => "WARN"

/-- One record of a log. -/
structure Record where
  level : Level
  message : String
  deriving DecidableEq, Repr

end Munch
