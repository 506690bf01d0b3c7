/-
# Files

A file is a run of bytes that can be read, overwritten, lengthened and cut.  Two things make
some files special: one on a full device refuses every write and stays as it was, and an endless
one reads as zeros wherever it holds no bytes.  The device `/dev/full` is both.  A short read
fails and gives nothing.  A write behind the end fills the gap with zeros.

A disk has the files of all directories.  `Disk.find` and `Disk.create` follow a path to a file
and give the path of its place, by which the file is known from then on; two paths of one file
give the same.
-/
import RowStore.Error
import RowStore.Path
import Std.Data.TreeMap

namespace RowStore

/-! ## 1. Files -/

structure File where
  bytes : Bytes
  /-- There is no room for anything that is written. -/
  full : Bool := false
  /-- Reads as zeros behind its last byte. -/
  endless : Bool := false
deriving DecidableEq, Repr, Inhabited

namespace File

/-- The `count` bytes from `offset` on. -/
def read (f : File) (offset count : Nat) : Except IoFault Bytes :=
  let found := (f.bytes.drop offset).take count
  if found.length = count then .ok found
  else if f.endless then .ok (found ++ List.replicate (count - found.length) 0)
  else .error .unexpectedEof

/-- Bytes of the length: cut at the end, or filled up with zeros. -/
def fitted (bytes : Bytes) (length : Nat) : Bytes :=
  bytes.take length ++ List.replicate (length - bytes.length) 0

/-- Overwrites from `offset` on.  Writing nothing changes nothing. -/
def write (f : File) (offset : Nat) (data : Bytes) : Except IoFault File :=
  if data.isEmpty then .ok f
  else if f.full then .error .storageFull
  else .ok { f with
    bytes := fitted f.bytes offset ++ data ++ f.bytes.drop (offset + data.length) }

/-- Cuts or lengthens the file; a device has no length to set. -/
def resize (f : File) (length : Nat) : Except IoFault File :=
  if f.endless then .error .invalidInput else .ok { f with bytes := fitted f.bytes length }

end File

/-- The files by the paths of their places. -/
structure Disk where
  files : Std.TreeMap String File

namespace Disk

/-! ## 2. Finding files -/

/-- The path of the device that has no room. -/
def fullDevice : String := "/dev/full"

/-- A working directory without files, on a system with the full device. -/
def empty : Disk := ⟨(∅ : Std.TreeMap String File).insert fullDevice ⟨[], true, true⟩⟩

def file? (d : Disk) (path : String) : Option File := d.files[path]?

/-- The length of a file. -/
def size (d : Disk) (path : String) : Nat := ((d.file? path).map (·.bytes.length)).getD 0

/-- A file stands at the place. -/
def holds (d : Disk) (place : Place) : Bool := d.files.contains place.path

/-- Why nothing is found at a place that has no file. -/
def absence (place : Place) : IoFault := if place.tooLong then .invalidFilename else .notFound

/-- Follows names from a directory.  All but the last must lead to directories; `none` if the last
does so too. -/
def follow (d : Disk) : Directory → List String → Except IoFault (Option Place)
  | _, [] => .ok none
  | here, [name] => .ok (if (here.enter? name).isSome then none else some ⟨here, name⟩)
  | here, name :: names =>
    match here.enter? name with
    | some there => d.follow there names
    | none => .error (if d.holds ⟨here, name⟩ then .notADirectory else absence ⟨here, name⟩)

/-- The place that a path leads to, which must be none of a directory. -/
def locate (d : Disk) (path : String) : Except IoFault Place :=
  if !Path.isWellFormed path then .error .invalidInput
  else match d.follow (Path.start path) (Path.names path) with
    | .error fault => .error fault
    | .ok none => .error .isADirectory
    | .ok (some place) => .ok place

/-- The path of the place of a file. -/
def find (d : Disk) (path : String) : Except IoFault String :=
  match d.locate path with
  | .error fault => .error fault
  | .ok place =>
    if !d.holds place then .error (absence place)
    else if Path.endsInSlash path then .error .notADirectory
    else .ok place.path

/-- Makes sure that there is a file, empty if it is new; first, the path of its place. -/
def create (d : Disk) (path : String) : Except IoFault (String × Disk) :=
  match d.locate path with
  | .error fault => .error fault
  | .ok place =>
    if Path.endsInSlash path then .error .isADirectory
    else if d.holds place then .ok (place.path, d)
    else if place.tooLong then .error .invalidFilename
    else .ok (place.path, ⟨d.files.insert place.path ⟨[], false, false⟩⟩)

/-! ## 3. Working on a file -/

/-- Works on a file that exists. -/
def withFile (d : Disk) (path : String) (change : File → Except IoFault File) :
    Except IoFault Disk :=
  match d.file? path with
  | none => .error .notFound
  | some f => (change f).map fun f => ⟨d.files.insert path f⟩

def read (d : Disk) (path : String) (offset count : Nat) : Except IoFault Bytes :=
  match d.file? path with
  | none => .error .notFound
  | some f => f.read offset count

def write (d : Disk) (path : String) (offset : Nat) (data : Bytes) : Except IoFault Disk :=
  d.withFile path (·.write offset data)

def resize (d : Disk) (path : String) (length : Nat) : Except IoFault Disk :=
  d.withFile path (·.resize length)

/-- Brings a file to stable storage, which a device does not have. -/
def sync (d : Disk) (path : String) : Except IoFault Unit :=
  match d.file? path with
  | none => .error .notFound
  | some f => if f.endless then .error .invalidInput else .ok ()

end Disk
end RowStore
