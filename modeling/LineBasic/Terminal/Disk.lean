import LineBasic.Diagnostic.Cause
import LineBasic.Text.Space

namespace LineBasic.Terminal

/-!
# Disks

Files and directories as a value: enough of a disk to say what a session reads and writes. A file
name is a text with slashes between its parts, and is followed part by part from the directory of
the session. Every part but the last has to lead to a directory.

* `find` -- the place that a name leads to;
* `read`, `write` -- what is read there, and the disk after something is written there.
-/

/-- What is at a place. -/
inductive Node where
  | directory
  | file (text : String)
  /-- A file whose bytes are no text. -/
  | binary
  /-- A device that holds nothing and keeps nothing of what is written; writing may be bound to
      fail. -/
  | device (fault : Option FileFault)
  deriving DecidableEq, Repr

/-- A place: the names on the way there from the directory of the session, the last one first. Two
dots lead out of that directory, and a slash stands for the root. -/
abbrev Place := List String

/-- The parts of a file name. -/
def nameParts (name : String) : List String :=
  (Text.split (· == '/') name.toList).map .ofList

namespace Place

/-- The place that a name spells out without detours. -/
def ofText (name : String) : Place := (nameParts name).reverse

/-- The directory that holds a place. -/
def above : Place → Place
  | [] => [".."]
  | ["/"] => ["/"]
  | ".." :: place => ".." :: ".." :: place
  | _ :: place => place

end Place

/-- What there is on every disk. -/
def systemNodes : List (Place × Node) :=
  [(["dev", "/"], .directory), (["null", "dev", "/"], .device none),
   (["full", "dev", "/"], .device (some .noSpace)), (["etc", "/"], .directory),
   (["tmp", "/"], .directory), (["usr", "/"], .directory), (["var", "/"], .directory)]

/-- The contents of a disk. -/
structure Disk where
  /-- What there is; for a place that occurs twice, the first one counts. -/
  nodes : List (Place × Node) := systemNodes
  deriving DecidableEq, Repr

namespace Disk

/-- What is at a place. The session's own directory exists, and so do those around it. -/
def at? (d : Disk) (place : Place) : Option Node :=
  if place.all fun name => name = ".." || name = "/" then some .directory else d.nodes.lookup place

/-- Puts something at a place. -/
def put (d : Disk) (place : Place) (node : Node) : Disk :=
  ⟨(place, node) :: d.nodes.filter (·.1 ≠ place)⟩

/-- Makes a directory at a place and on the way there, wherever there is nothing yet. -/
def makeDirectories (d : Disk) : Place → Disk
  | [] => d
  | name :: place =>
    let d := d.makeDirectories place
    if (d.at? (name :: place)).isSome then d else d.put (name :: place) .directory

/-! ### Following names -/

/-- How many bytes a file name has at most. -/
def nameLimit : Nat := 4095

/-- How many bytes a part of a file name has at most. -/
def partLimit : Nat := 255

/-- Fails unless there is a directory at a place. -/
def expectDirectory (d : Disk) (place : Place) : Except FileFault Unit :=
  match d.at? place with
  | none => .error .missing
  | some .directory => .ok ()
  | some _ => .error .notDirectory

/-- Follows one part of a name. An empty part and a single dot lead nowhere else. -/
def follow (d : Disk) (place : Place) (part : String) : Except FileFault Place := do
  d.expectDirectory place
  if part = "" || part = "." then return place
  else if part = ".." then return place.above
  else if partLimit < part.utf8ByteSize then throw .nameTooLong
  else return part :: place

/-- Follows the parts of a name. -/
def followAll (d : Disk) (name : String) (parts : List String) : Except FileFault Place :=
  if nameLimit < name.utf8ByteSize then .error .nameTooLong
  else parts.foldlM d.follow (if name.toList.head? = some '/' then ["/"] else [])

/-- The place that a name leads to; there need not be anything. -/
def find (d : Disk) (name : String) : Except FileFault Place := d.followAll name (nameParts name)

/-! ### Reading and writing -/

/-- Reads a file. -/
def read (d : Disk) (name : String) : Except FileFault String := do
  match d.at? (← d.find name) with
  | some (.file text) => return text
  | some (.device _) => return ""
  | some .binary => throw .notText
  | some .directory => throw .isDirectory
  | none => throw .missing

/-- The name without the slashes at its end. -/
def dropSlashes (name : String) : String :=
  .ofList (name.toList.reverse.dropWhile (· == '/')).reverse

/-- Writes a file. A name that ends in a slash can only be that of a directory, whether or not there
is one. -/
def write (d : Disk) (name text : String) : Except FileFault Disk := do
  let parts := nameParts (dropSlashes name)
  let holder ← d.followAll name parts.dropLast
  d.expectDirectory holder
  if name.toList.getLast? = some '/' then throw .isDirectory
  let place ← d.follow holder (parts.getLastD "")
  match d.at? place with
  | some .directory => throw .isDirectory
  | some (.device none) => return d
  | some (.device (some fault)) => throw fault
  | _ => return d.put place (.file text)

end Disk

end LineBasic.Terminal
