import Gridcalc.Document.Settings
import Gridcalc.Journal.Event
import Gridcalc.Storage.Disk
import Gridcalc.Text.Utf8

/-! # Journals

A project's journal is a folder with one file for all events and one for each sheet that has a
safe name. Events are only ever put at the end. The common file comes first: if it cannot be
written, the sheet's file is not touched. Whatever turns events into lines may refuse some of them,
for the depth of a context or the length of an integer; which ones is a parameter of the journal.
-/

namespace Gridcalc

structure Journal where
  folder : Path
  /-- How many octets at the end of a file are read. -/
  tailBytes : Int := Settings.standardTailBytes
  /-- Whether each event is forced onto the disk. -/
  forced : Bool := false
  /-- The events of which the writer of lines, with limits of its own, makes no line. -/
  refuses : Event → Bool := fun _ => false

inductive WriteFault where
  | refused
  | disk (fault : DiskFault)
deriving DecidableEq, Repr

namespace Journal

def folderOf (project : Path) : Path := project.child "logs"

def commonFile (j : Journal) : Path := j.folder.child "events.ndjson"

def sheetFolder (j : Journal) : Path := j.folder.child "sheets"

def sheetFile (j : Journal) (id : String) : Path := j.sheetFolder.child (id ++ ".ndjson")

def isSafeChar (c : Char) : Bool :=
  ('A' ≤ c && c ≤ 'Z') || ('a' ≤ c && c ≤ 'z') || ('0' ≤ c && c ≤ '9') || c == '_' || c == '-'

def isSafeWord (cs : List Char) : Bool := !cs.isEmpty && cs.all isSafeChar

/-- Whether a sheet of this name has a file of its own. The name cannot lead out of the folder;
a line break at its end is let through. -/
def isSafe (id : String) : Bool :=
  isSafeWord id.toList || (id.toList.getLast? == some '\n' && isSafeWord id.toList.dropLast)

def start (j : Journal) (d : Disk) : Disk × Except DiskFault Unit :=
  match d.makeFolder j.folder with
  | (d, .error fault) => (d, .error fault)
  | (d, .ok _) =>
    let (d, made) := d.makeFolder j.sheetFolder
    (d, made.map fun _ => ())

/-- Writes an event into the common file and into that of its sheet, each by the given append. -/
def writeBy (append : Disk → Path → List UInt8 → Disk × Except DiskFault Unit) (j : Journal)
    (d : Disk) (e : Event) (sheet : Option String) : Disk × Except WriteFault Unit :=
  if j.refuses e then (d, .error .refused)
  else
    let octets := Text.Utf8.encode e.lineChars
    match append d j.commonFile octets with
    | (d, .error fault) => (d, .error (.disk fault))
    | (d, .ok ()) =>
      match sheet.filter isSafe with
      | none => (d, .ok ())
      | some id =>
        let (d, written) := append d (j.sheetFile id) octets
        (d, written.mapError .disk)

def write (j : Journal) (d : Disk) (e : Event) (sheet : Option String) :
    Disk × Except WriteFault Unit :=
  j.writeBy Disk.append d e sheet

end Journal

end Gridcalc
