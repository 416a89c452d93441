/-!
A folder of files, and what reading a path in it gives. A path is followed name by name from the
folder; the first name that cannot be followed decides the error.
-/

namespace SlangScript

/-- Why a file cannot be read. -/
inductive ReadError where
  | noSuchFile
  | isFolder
  | notFolder
  | nameTooLong
  | denied
  deriving DecidableEq, Repr

def ReadError.message : ReadError → String
  | .noSuchFile => "No such file or directory"
  | .isFolder => "Is a directory"
  | .notFolder => "Not a directory"
  | .nameTooLong => "File name too long"
  | .denied => "Permission denied"

/-- The folders and the files below a folder, by the names that lead to them. -/
structure Folder where
  folders : List (List String) := []
  files : List (List String × List UInt8) := []

namespace Folder

/-- The names of a path, the empty ones and the ones that stay where they are included. -/
def names (path : String) : List String := path.splitOn "/"

def isHere (name : String) : Bool := name == "" || name == "."

/-- The names of a path that lead on. -/
def stepsOf (path : String) : List String := (names path).filter fun name => !isHere name

def makeFolder (f : Folder) (path : String) : Folder :=
  { f with folders := stepsOf path :: f.folders }

/-- The folder with a file in it, in place of one that was there. -/
def makeFile (f : Folder) (path : String) (content : List UInt8) : Folder :=
  { f with files := (stepsOf path, content) :: f.files }

/-- Whether there is a folder at some place; the folders on the way to one are there too. -/
def hasFolder (f : Folder) (place : List String) : Bool :=
  place.isEmpty || f.folders.any place.isPrefixOf ||
    f.files.any fun (file, _) => place.isPrefixOf file && place.length < file.length

def file? (f : Folder) (place : List String) : Option (List UInt8) := f.files.lookup place

/-- The most octets that a name may have. -/
def nameLimit : Nat := 255

/-- The most octets that a path may have. -/
def pathLimit : Nat := 4095

/-- What names lead to from outside the folder: nothing is known there but that it has a parent. -/
def followOutside (names : List String) : ReadError :=
  if names.all fun name => isHere name || name == ".." then .isFolder else .noSuchFile

/-- Follows names from a folder; what they lead to is read if it is a file. -/
def follow (f : Folder) (place : List String) : List String → Except ReadError (List UInt8)
  | [] => .error .isFolder
  | name :: rest =>
    if isHere name then follow f place rest
    else if name == ".." then
      if place.isEmpty then .error (followOutside rest) else follow f place.dropLast rest
    else if nameLimit < name.utf8ByteSize then .error .nameTooLong
    else
      let next := place ++ [name]
      match f.file? next with
      | some content => if rest.isEmpty then .ok content else .error .notFolder
      | none => if f.hasFolder next then follow f next rest else .error .noSuchFile

def read (f : Folder) (path : String) : Except ReadError (List UInt8) :=
  if path.isEmpty then .error .noSuchFile
  else if pathLimit < path.utf8ByteSize then .error .nameTooLong
  else follow f [] (names path)

end Folder

end SlangScript
