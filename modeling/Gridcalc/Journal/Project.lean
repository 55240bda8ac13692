import Gridcalc.Journal.Recorder
import Gridcalc.Json.Read

/-! # Projects

A project is a folder with a settings file, which may be missing, and a journal. Documents on the
disk are known by their content, or else they are files of JSON text.
-/

namespace Gridcalc

inductive ProjectFault where
  | disk (fault : DiskFault)
  /-- The file holds no document. -/
  | unreadable (file : Path)
  | settings (file : Path) (e : SettingsError)
  | tailBytes (fault : Datum.IntegerFault)
deriving DecidableEq, Repr

def SettingsError.message (file : Path) : SettingsError → String
  | notAMapping => file.toText ++ " must contain a mapping"

/-- The document in a file. A file of blanks holds nothing. -/
def Entry.asDocument (file : Path) : Entry → Except ProjectFault Datum
  | .folder => .error (.disk .isFolder)
  | .document content => .ok content
  | e =>
    let cs := Text.Utf8.decode e.octets
    if Text.trimChars cs = [] then .ok .null
    else
      match Json.parse? (String.ofList cs) with
      | some j => .ok (.ofJson j)
      | none => .error (.unreadable file)

def Disk.document (d : Disk) (p : Path) : Except ProjectFault Datum :=
  match d.find? p with
  | .error fault => .error (.disk fault)
  | .ok none => .ok .null
  | .ok (some e) => e.asDocument p

def Disk.settings (d : Disk) (project : Path) : Except ProjectFault Settings := do
  let file := project.child Settings.fileName
  match Settings.ofDatum (← d.document file) with
  | .ok settings => return settings
  | .error e => throw (.settings file e)

namespace Recorder

/-- Directs events to the journal of a project, or nowhere if its settings say so. The journal
stays as it is if that fails. -/
def direct (r : Recorder) (project : Path) (settings : Settings) :
    Recorder × Except ProjectFault Unit :=
  if settings.keepsEvents then
    match settings.tailBytes with
    | .error fault => (r, .error (.tailBytes fault))
    | .ok tailBytes =>
      let j : Journal := {
        folder := Journal.folderOf project
        tailBytes
        forced := settings.forcesEvents
        refuses := r.refuses }
      match j.start r.disk with
      | (d, .error fault) => ({ r with disk := d }, .error (.disk fault))
      | (d, .ok ()) => ({ r with disk := d, journal := some j }, .ok ())
  else ({ r with journal := none }, .ok ())

def enter (r : Recorder) (project : Path) : Recorder × Except ProjectFault Settings :=
  match r.disk.settings project with
  | .error fault => (r, .error fault)
  | .ok settings =>
    let (r, directed) := r.direct project settings
    (r, directed.map fun _ => settings)

end Recorder

end Gridcalc
