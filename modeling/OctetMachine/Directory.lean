/-!
# Directories

A snapshot of the files below one directory, and what reading a relative path there gives: the bytes
of a file or the reason why there are none, in the words of the operating system. Steps above the
directory lead to places of which only the folders are known.
-/

namespace OctetMachine

/-- Why a path gave no bytes. -/
inductive PathProblem where
  | notFound
  | isDirectory
  | notDirectory
  | nameTooLong
  | zeroInName
  deriving DecidableEq

def PathProblem.message : PathProblem → String
  | .notFound => "No such file or directory (os error 2)"
  | .isDirectory => "Is a directory (os error 21)"
  | .notDirectory => "Not a directory (os error 20)"
  | .nameTooLong => "File name too long (os error 36)"
  | .zeroInName => "file name contained an unexpected NUL byte"

/-- Files by their paths below the directory. -/
structure Directory where
  files : List (String × ByteArray)

namespace Directory

/-- The parts of a path between slashes. -/
def parts (path : List Char) : List (List Char) := path.splitOn '/'

/-- The file at a place, given by the names that lead to it. -/
def file? (d : Directory) (place : List (List Char)) : Option ByteArray :=
  (d.files.find? fun f ↦ parts f.1.toList == place).map Prod.snd

/-- Whether a place is a folder, which it is if a file lies below it. -/
def isFolder (d : Directory) (place : List (List Char)) : Bool :=
  place.isEmpty || d.files.any fun f ↦
    place.isPrefixOf (parts f.1.toList) && place.length < (parts f.1.toList).length

/-- Whether a part of a path leads to no new name. -/
def isStep (part : List Char) : Bool := part.isEmpty || part == ['.'] || part == ['.', '.']

/-- What a place outside gives for the remaining parts of a path: nothing is found there. -/
def outside : List (List Char) → Except PathProblem ByteArray
  | [] => .error .isDirectory
  | part :: rest =>
    if isStep part then outside rest
    else if 255 < (String.ofList part).utf8ByteSize then .error .nameTooLong
    else .error .notFound

/-- Follows the parts of a path from a place. -/
def follow (d : Directory) (place : List (List Char)) :
    List (List Char) → Except PathProblem ByteArray
  | [] =>
    match d.file? place with
    | some bytes => .ok bytes
    | none => .error .isDirectory
  | part :: rest =>
    if (d.file? place).isSome then .error .notDirectory
    else if part.isEmpty || part == ['.'] then d.follow place rest
    else if part == ['.', '.'] then
      if place.isEmpty then outside rest else d.follow place.dropLast rest
    else if 255 < (String.ofList part).utf8ByteSize then .error .nameTooLong
    else
      let place := place ++ [part]
      if (d.file? place).isSome || d.isFolder place then d.follow place rest
      else .error .notFound

/-- The bytes that a path leads to. -/
def read (d : Directory) (path : String) : Except PathProblem ByteArray :=
  if path.toList.contains '\x00' then .error .zeroInName
  else if path.isEmpty then .error .notFound
  else if 4096 ≤ path.utf8ByteSize then .error .nameTooLong
  else
    match parts path.toList with
    | [] :: rest => outside rest
    | steps => d.follow [] steps

end Directory

/-- The text that bytes encode, or the reason why they encode none. -/
def textOfBytes (bytes : ByteArray) : Except String String :=
  match String.fromUTF8? bytes with
  | none => .error "stream did not contain valid UTF-8"
  | some text => .ok text

/-- The text of the file that a path leads to. -/
def Directory.readText (d : Directory) (path : String) : Except String String :=
  match d.read path with
  | .error problem => .error problem.message
  | .ok bytes => textOfBytes bytes

end OctetMachine
