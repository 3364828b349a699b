/-
  The files that a command can read, and paths to them.

  A path is followed name by name from the folder the command runs in.  What
  lies outside that folder is not known: there are folders above it, but
  nothing is found in them.
-/
import BasicListing.Text.Numeral

namespace BasicListing

/-- Why a file could not be read. -/
inductive ReadFault where
  | missing
  | notFolder
  | isFolder
  /-- A name or a path is longer than any can be. -/
  | tooLong
  /-- Any other reason, in the words and with the number of the operating system. -/
  | other (reason : Text) (code : Nat)
  deriving DecidableEq, Repr

/-- The words for why a file could not be read. -/
def ReadFault.message (f : ReadFault) : Text :=
  let (reason, code) := match f with
    | .missing => ("No such file or directory".toList, 2)
    | .notFolder => ("Not a directory".toList, 20)
    | .isFolder => ("Is a directory".toList, 21)
    | .tooLong => ("File name too long".toList, 36)
    | .other reason code => (reason, code)
  reason ++ " (os error ".toList ++ decimal code ++ ")".toList

/-- The greatest number of bytes in a name. -/
def greatestName : Nat := 255

/-- The greatest number of bytes in a path. -/
def greatestPath : Nat := 4095

/-- The names in a path that lead on: not the empty ones, and not those of the folder itself. -/
def pathNames (path : Text) : List Text :=
  (path.splitOn '/').filter fun name => !name.isEmpty && name != ['.']

/-- The name of the file at the end of a path, if the path ends in a name. -/
def fileName? (path : Text) : Option Text :=
  (pathNames path).getLast?.filter (· != ['.', '.'])

/-- A folder, with the bytes of all files in it and in the folders below it. -/
structure Folder where
  /-- The names on the way to each file, and its bytes. -/
  files : List (List Text × List UInt8)

/-- Where following a path has led. -/
inductive Place where
  /-- To these names, as seen from the folder. -/
  | inside (names : List Text)
  /-- To a folder that is not known. -/
  | outside

namespace Folder

/-- The folder with the given files. -/
def ofPaths (files : List (Text × List UInt8)) : Folder where
  files := files.map fun file => (pathNames file.1, file.2)

/-- There is a folder under these names. -/
def hasFolder (folder : Folder) (names : List Text) : Bool :=
  names.isEmpty || folder.files.any fun file =>
    names.length < file.1.length && file.1.take names.length == names

/-- Why a name is not found in a folder. -/
def notFound (name : Text) : ReadFault := if greatestName < name.width then .tooLong else .missing

/-- Follow one name of a path. -/
def follow (folder : Folder) (place : Place) (name : Text) : Except ReadFault Place :=
  let stays := name.isEmpty || name == ['.']
  match place with
  | .outside => if stays || name == ['.', '.'] then .ok .outside else .error (notFound name)
  | .inside names =>
    if !folder.hasFolder names then .error .notFolder
    else if stays then .ok place
    else if name == ['.', '.'] then
      .ok (if names.isEmpty then .outside else .inside names.dropLast)
    else
      let names := names ++ [name]
      if folder.hasFolder names || (folder.files.lookup names).isSome then .ok (.inside names)
      else .error (notFound name)

/-- The bytes of the file at the end of a path. -/
def read (folder : Folder) (path : Text) : Except ReadFault (List UInt8) := do
  if greatestPath < path.width then throw .tooLong
  let start ← match path with
    | [] => throw .missing
    | '/' :: _ => pure .outside
    | _ => pure (.inside [])
  match ← (path.splitOn '/').foldlM folder.follow start with
  | .outside => throw .isFolder
  | .inside names =>
    match folder.files.lookup names with
    | some bytes => return bytes
    | none => throw .isFolder

end Folder

end BasicListing
