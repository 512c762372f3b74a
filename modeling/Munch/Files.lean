/-! # Files

A path names bytes, or says why it names none. A file that is read as text has to hold UTF-8.
-/

namespace Munch

/-- Why a file cannot be read as text. -/
inductive ReadFault
  | absent
  | notFolder
  | isFolder
  | nameTooLong
  | notUnicode
  /-- Any other reason, as the system gives it. -/
  | refused (reason : String)
  deriving DecidableEq, Repr

/-- What is wrong with a file, in one phrase. -/
def ReadFault.message : ReadFault → String
  | absent => "No such file or directory (os error 2)"
  | notFolder => "Not a directory (os error 20)"
  | isFolder => "Is a directory (os error 21)"
  | nameTooLong => "File name too long (os error 36)"
  | notUnicode => "stream did not contain valid UTF-8"
  | refused reason => reason

/-- The bytes that each path names. -/
abbrev Files := String → Except ReadFault ByteArray

/-- The text of a file. -/
def Files.read (files : Files) (path : String) : Except ReadFault String :=
  match files path with
  | .error fault => .error fault
  | .ok bytes =>
    match String.fromUTF8? bytes with
    | some text => .ok text
    | none => .error .notUnicode

end Munch
