import Gridcalc.Document.Datum
import Gridcalc.Storage.Path
import Std.Data.TreeMap

/-! # Disks

The part of a file system that the program touches: folders, files of octets, and documents that
are known by their content. Paths are followed name by name, so everything on the way has to be a
folder that is there. An operation that fails leaves behind what it made on its way.
-/

namespace Gridcalc

inductive DiskFault where
  | missing
  | isFolder
  | notFolder
  | exists
  | nameTooLong
deriving DecidableEq, Repr

inductive Entry where
  | folder
  /-- What was appended, the latest first. -/
  | file (appended : List (List UInt8))
  | document (content : Datum)

namespace Entry

def isFolder : Entry → Bool
  | folder => true
  | _ => false

/-- How often something was appended. -/
def pieces : Entry → Nat
  | file appended => appended.length
  | _ => 0

def octets : Entry → List UInt8
  | file appended => appended.reverse.flatten
  | _ => []

end Entry

/-- Where a path leads: the names on the direct way there, the last one first. An empty name
stands for the top of all absolute paths. -/
abbrev Place := List String

namespace Place

def start (p : Path) : Place := if p.absolute then [""] else []

def key (place : Place) : String := "/".intercalate place.reverse

def above : Place → Place
  | [] => [".."]
  | [""] => [""]
  | name :: place => if name = ".." then ".." :: name :: place else place

/-- The place one name further on. -/
def enter (place : Place) (name : String) : Place :=
  if name = "." then place else if name = ".." then place.above else name :: place

def ofPath (p : Path) : Place := p.parts.foldl enter (start p)

/-- Whether the place is the start, above it, or the top; these are always folders. -/
def isGiven (place : Place) : Bool := place == [""] || place.all (· == "..")

end Place

structure Disk where
  entries : Std.TreeMap String Entry

namespace Disk

def empty : Disk := ⟨∅⟩

def entryAt (d : Disk) (place : Place) : Option Entry :=
  if place.isGiven then some .folder else d.entries[place.key]?

def put (d : Disk) (place : Place) (e : Entry) : Disk := ⟨d.entries.insert place.key e⟩

def step (d : Disk) (place : Place) (name : String) : Except DiskFault Place :=
  match d.entryAt place with
  | none => .error .missing
  | some .folder =>
    if Path.longestName < name.utf8ByteSize then .error .nameTooLong else .ok (place.enter name)
  | some _ => .error .notFolder

def follow (d : Disk) (place : Place) : List String → Except DiskFault Place
  | [] => .ok place
  | name :: names =>
    match d.step place name with
    | .error fault => .error fault
    | .ok next => d.follow next names

/-- What a path leads to; nothing if there is nothing or no way there. -/
def find? (d : Disk) (p : Path) : Except DiskFault (Option Entry) :=
  if p.isTooLong then .error .nameTooLong
  else
    match d.follow (Place.start p) p.parts with
    | .ok place => .ok (d.entryAt place)
    | .error .nameTooLong => .error .nameTooLong
    | .error _ => .ok none

/-- Makes the folders along the given names, starting in a folder that is there. It ends at a file
on the way. Folders are made in their turn once one was `missing`, so then the file stands where
one is to be made. -/
def makeAlong (d : Disk) (missing : Bool) (place : Place) :
    List String → Disk × Except DiskFault Place
  | [] => (d, .ok place)
  | name :: names =>
    match d.step place name with
    | .error fault => (d, .error fault)
    | .ok next =>
      match d.entryAt next with
      | none => (d.put next .folder).makeAlong true next names
      | some .folder => d.makeAlong missing next names
      | some _ => (d, .error (if missing || names.isEmpty then .exists else .notFolder))

/-- Makes a folder with all those on the way to it; those that are there stay. -/
def makeFolder (d : Disk) (p : Path) : Disk × Except DiskFault Place :=
  if p.isTooLong then (d, .error .nameTooLong) else d.makeAlong false (Place.start p) p.parts

/-- Puts octets at the end of what is in a place. What a document holds is not kept. -/
def appendAt (d : Disk) (place : Place) (octets : List UInt8) : Disk × Except DiskFault Unit :=
  match d.entryAt place with
  | some .folder => (d, .error .isFolder)
  | some (.file before) => (d.put place (.file (octets :: before)), .ok ())
  | _ => (d.put place (.file [octets]), .ok ())

/-- Puts octets at the end of a file. The file and the folders on the way are made if need be. -/
def append (d : Disk) (p : Path) (octets : List UInt8) : Disk × Except DiskFault Unit :=
  match d.makeFolder p.parent with
  | (d, .error fault) => (d, .error fault)
  | (d, .ok folder) =>
    if p.isTooLong then (d, .error .nameTooLong)
    else
      match d.step folder p.name with
      | .error fault => (d, .error fault)
      | .ok place => d.appendAt place octets

end Disk

end Gridcalc
