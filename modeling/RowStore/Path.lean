/-
# Paths

A path is a text that leads to a file: names between slashes, from the root if it starts with a
slash and from the working directory otherwise.  Empty names and `.` lead nowhere else, and `..`
leads up.  So one file has many paths; `Place.path` is the one by which a disk knows it.

There are three directories: the root, the directory of the devices in it, and the working
directory, which has no name that a path could use.
-/
import RowStore.Encoding.Utf8

namespace RowStore

inductive Directory where
  | root
  | devices
  | working
deriving DecidableEq, Repr, Inhabited

namespace Directory

/-- What stands in front of a name in the directory. -/
def lead : Directory → String
  | root => "/"
  | devices => "/dev/"
  | working => ""

/-- The directory that a name leads to from here; `none` if it leads to none. -/
def enter? : Directory → String → Option Directory
  | here, "." => some here
  | _, ".." => some root
  | root, "dev" => some devices
  | _, _ => none

end Directory

/-- A name in a directory: where a file is, or could be. -/
structure Place where
  directory : Directory
  name : String
deriving DecidableEq, Repr

namespace Place

/-- The path of the place. -/
def path (place : Place) : String := place.directory.lead ++ place.name

/-- No file system takes a name of more bytes. -/
def tooLong (place : Place) : Bool := 255 < Utf8.size place.name

end Place

namespace Path

/-- The pieces of a text between its slashes. -/
def pieces : List Char → List (List Char)
  | [] => [[]]
  | c :: cs =>
    if c = '/' then [] :: pieces cs
    else match pieces cs with
      | [] => [[c]]
      | piece :: rest => (c :: piece) :: rest

/-- The names on the way. -/
def names (path : String) : List String :=
  ((pieces path.toList).filter (!·.isEmpty)).map String.ofList

/-- Where the way begins. -/
def start (path : String) : Directory :=
  if path.toList.head? = some '/' then .root else .working

/-- The path ends in a slash, as only that of a directory may. -/
def endsInSlash (path : String) : Bool := path.toList.getLast? == some '/'

/-- A text with a zero character is no path. -/
def isWellFormed (path : String) : Bool := !path.toList.contains '\x00'

end Path
end RowStore
