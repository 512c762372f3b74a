import Munch.Files

/-! # Folders

A folder holds files under names. A path is followed from the folder, one slash after the other: an
empty name and a single dot stay, two dots lead outside, and nothing leads on from a file. Nothing
is known of the outside but that it consists of folders: no file is found there.
-/

namespace Munch

/-- Files under their names. -/
structure Folder where
  files : List (String × ByteArray)

namespace Folder

/-- The most bytes that a name in a path can have. -/
def nameLimit : Nat := 255

/-- The most bytes that a path can have. -/
def pathLimit : Nat := 4095

/-- Where a path has led so far. -/
inductive Place
  | inside
  | outside
  | file (content : ByteArray)

/-- Follows one name of a path. -/
def follow (f : Folder) (place : Place) (name : String) : Except ReadFault Place :=
  match place with
  | .file _ => .error .notFolder
  | place =>
    if name = "" ∨ name = "." then .ok place
    else if name = ".." then .ok .outside
    else if nameLimit < name.utf8ByteSize then .error .nameTooLong
    else match place, f.files.lookup name with
      | .inside, some content => .ok (.file content)
      | _, _ => .error .absent

/-- Follows a path to its end. A path that begins with a slash begins outside. -/
def find (f : Folder) (path : String) : Except ReadFault Place :=
  let names := (path.toList.splitOn '/').map String.ofList
  let start := if path.toList.head? = some '/' then Place.outside else .inside
  if path.isEmpty then .error .absent
  else if pathLimit < path.utf8ByteSize then .error .nameTooLong
  else names.foldlM f.follow start

/-- The bytes that a path names. -/
def toFiles (f : Folder) : Files := fun path =>
  match f.find path with
  | .ok (.file content) => .ok content
  | .ok _ => .error .isFolder
  | .error fault => .error fault

end Folder

end Munch
