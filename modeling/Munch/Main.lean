import Munch.Command

/-! # The program -/

namespace Munch

/-- The reason that the system gives for an error, with its number, which some calls give
negated. -/
def systemReason : IO.Error → String
  | .inappropriateType _ code details
  | .invalidArgument _ code details
  | .permissionDenied _ code details
  | .resourceExhausted _ code details =>
    details.capitalize ++ " (os error " ++ toString (min code (0 - code)) ++ ")"
  | e => toString e

/-- Reads the bytes that a path names. -/
def readBytes (path : String) : IO (Except ReadFault ByteArray) := do
  try
    return .ok (← IO.FS.readBinFile path)
  catch
    | .noFileOrDirectory _ _ _ => return .error .absent
    | e => return .error (.refused (systemReason e))

/-- Reads the files that a call names. -/
def readFiles (args : List String) : IO Files := do
  let mut contents : List (String × Except ReadFault ByteArray) := []
  for path in (Command.paths args).take 2 do
    contents := (path, ← readBytes path) :: contents
  return fun path => (contents.lookup path).getD (.error .absent)

end Munch

/-- Runs the command on the files of the system. -/
def main (args : List String) : IO UInt32 := do
  let outcome := Munch.Command.run (← Munch.readFiles args) args
  for warning in outcome.warnings do
    IO.eprintln ("[WARN] " ++ warning)
  IO.eprint outcome.stderr
  IO.print outcome.stdout
  return outcome.exit.toUInt32
