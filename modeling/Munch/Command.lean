import Munch.Diagnostic.Report
import Munch.Files
import Munch.Scanner.Run
import Munch.Table.Description
import Munch.Table.Dump
import Munch.Table.Review

/-! # The command

The command reads a table and a source, prints the tokens of the source one to a line, and ends
with the number of the line in which the scan ended. It is a function of its arguments and of the
files it can read.
-/

namespace Munch

/-- What a run of the command leaves behind. -/
structure Outcome where
  exit : Nat
  stdout : String
  stderr : String
  records : List Record
  deriving DecidableEq, Repr

namespace Command

/-- The option that asks for the table to be written out. -/
def dumpOption : String := "--dump-table"

/-- How the command is called. -/
def usage : String := "usage: tablelex <table-file> <source-file> [--dump-table]"

/-- The arguments that are paths. -/
def paths (args : List String) : List String := args.filter (· ≠ dumpOption)

/-- The outcome of a call that fails before anything is scanned. -/
def failed (complaint : String) : Outcome := ⟨1, "", complaint ++ "\n", []⟩

/-- The complaint about a file. -/
def unreadable (path : String) (fault : ReadFault) : String :=
  "Failed to read " ++ path ++ ": " ++ fault.message

/-- The complaint about a table. -/
def malformed (path : String) (d : Diagnostic) : String :=
  d.message ++ " (" ++ d.cause.hint?.getD "" ++ ")\n-> " ++ path

/-- What the printing of tokens leaves behind: all that is printed, what is logged, the last record
first, the failure that ended it, if one did, and the scanner. -/
structure Printout where
  text : String
  logged : List Record
  failure? : Option Diagnostic
  final : Scanner

/-- Prints the tokens that are left, one to a line, until there are no more or the scan fails. The
failure is printed as well. -/
def printTokens (s : Scanner) (text : String) (logged : List Record) : Printout :=
  if s.skipGap.isReady then
    match h : s.skipGap.token with
    | (.error d, s') => ⟨text ++ d.message ++ "\n", ⟨.debug, d.message⟩ :: logged, some d, s'⟩
    | (.ok tok, s') =>
      have : s'.rest.length < s.rest.length := Scanner.length_rest_token_skipGap_lt h
      printTokens s' (text ++ tok.display ++ "\n") (Run.tokenRecord tok :: logged)
  else ⟨text, logged, none, s.skipGap⟩
termination_by s.rest.length

/-- Scans a source and prints what is found, after what is printed already. A failure is printed
with its report, and the last line tells where the scan stands. -/
def scan (printed : String) (t : Table) (source path : String) : Outcome :=
  let out := printTokens (Scanner.start t source) printed []
  let line := toString out.final.line ++ "\n"
  let outcome exit stdout : Outcome := ⟨exit, stdout, "", t.records ++ out.logged.reverse⟩
  match out.failure? with
  | none => outcome 0 (out.text ++ line)
  | some d =>
    match d.report source path with
    | .ok report => outcome 1 (out.text ++ report ++ line)
    | .error _ => outcome 101 out.text

/-- Runs the command. -/
def run (files : Files) (args : List String) : Outcome :=
  match paths args with
  | [tablePath, sourcePath] =>
    match files.read tablePath with
    | .error fault => failed (unreadable tablePath fault)
    | .ok description =>
      match files.read sourcePath with
      | .error fault => failed (unreadable sourcePath fault)
      | .ok text =>
        match Table.ofDescription description with
        | .error d => failed (malformed tablePath d)
        | .ok t =>
          let source := String.ofList (Text.unixEndings text.toList)
          scan (if dumpOption ∈ args then t.dump else "") t source sourcePath
  | _ => failed usage

end Command

/-- The messages of the warnings among the records. -/
def Outcome.warnings (o : Outcome) : List String :=
  (o.records.filter (·.level = .warn)).map Record.message

end Munch
