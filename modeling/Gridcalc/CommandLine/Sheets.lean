import Gridcalc.CommandLine.Outcome
import Gridcalc.Json.Write

/-! # Commands on sheets and projects

Files are found on the disk as the command line names them.
-/

namespace Gridcalc.CommandLine

inductive Standing where
  | missing
  | folder
  | file
deriving DecidableEq, Repr

/-- What a name on the command line stands for, followed just as it is written. -/
def standing (d : Disk) (name : String) : Except Failure Standing :=
  if name.toList.contains '\x00' then .error .nullCharacter
  else if name = "" ∨ Path.longestText < name.utf8ByteSize then .ok .missing
  else
    let written : Path := ⟨Path.isAbsoluteText name, (Path.partsOf name).map fun part =>
      if part = "" then "." else part⟩
    match d.follow (Place.start written) written.parts with
    | .error _ => .ok .missing
    | .ok place =>
      match d.entryAt place with
      | none => .ok .missing
      | some .folder => .ok .folder
      | some _ => .ok .file

/-- The name of the sheet file among the words. The project may be anything but a file. -/
def sheetFileName (d : Disk) (words : List String) (project : Option String) :
    Except Failure String := do
  if let some name := project then
    if (← standing d name) = .file then throw .usage
  match words with
  | [] => throw .usage
  | name :: others =>
    if (← standing d name) ≠ .file ∨ others ≠ [] then throw .usage
    return name

/-- The settings of the project, if one is named, and where events go. -/
def openProject (d : Disk) (project : Option String) : Recorder × Except ProjectFault Settings :=
  match project.filter (· != "") with
  | none => ({ disk := d }, .ok [])
  | some name => ({ disk := d } : Recorder).enter (.ofText name)

def loadSheet (settings : Settings) (file : Path) (content : Datum) :
    Except Failure (Sheet × List Notice) :=
  match SheetFile.ofDatum settings content with
  | .error e =>
    match e.message? file.toText with
    | some sentence => .error (.message sentence)
    | none => .error (.sheetFile e)
  | .ok f =>
    match Sheet.ofSpec f.toDatum with
    | .ok loaded => .ok loaded
    | .error (.address e) => .error (.message e.message)
    | .error e => .error (.spec e)

def cellJson (c : Cell) : Json :=
  .object [
    ("display", .text c.display),
    ("kind", .text c.kind),
    ("error", (c.fault?.map fun fault => .text fault.code).getD .null)]

def cellLine (a : Address) (c : Cell) : String :=
  let typed := if c.isFormula then "    " ++ c.raw?.getD "" else ""
  printed (padRight 6 a.toA1 ++ " " ++ c.display ++ typed)

def sheetText (json : Bool) (s : Sheet) : String :=
  if json then
    printed (Json.object (s.inOrder.map fun (a, c) => (a.toA1, cellJson c))).indented
  else String.join (s.inOrder.map fun (a, c) => cellLine a c)

def runRecalculate (stamp : String) (d : Disk) (words : List String) (project : Option String)
    (json : Bool) : Outcome :=
  match sheetFileName d words project with
  | .error f => .failed d f
  | .ok name =>
    match openProject d project with
    | (r, .error fault) => .failed r.disk (.project fault)
    | (r, .ok settings) =>
      let file := Path.ofText name
      match r.disk.document file with
      | .error fault => .failed r.disk (.project fault)
      | .ok content =>
        match loadSheet settings file content with
        | .error f => .failed r.disk f
        | .ok (s, notices) =>
          ⟨(r.recordNotices stamp (some file.stem) notices).disk, sheetText json s, none⟩

/-- The level as it is listed; texts and numbers only. -/
def levelText? : Json → Option String
  | .text s => some s
  | .bool b => some (if b then "1" else "0")
  | .int i => some (toString i)
  | .float v => some (Datum.display (.float v))
  | _ => none

def eventLine (event : Json) : Except Failure String :=
  match event with
  | .object members =>
    let member (key : String) : Datum := .ofJson ((Json.member? key members).getD (.text ""))
    let code := member "error_code"
    match levelText? ((Json.member? "level" members).getD (.text "")) with
    | none => .error .unlisted
    | some level =>
      .ok (printed ((member "ts").display ++ "  " ++ padRight 7 level ++ "  " ++
        (member "event_type").display ++ (if code.isTrue then " [" ++ code.display ++ "]" else "") ++
        "  " ++ (member "message").display))
  | _ => .error (.read .notAnObject)

def eventLines : List Json → String × Option Failure
  | [] => ("", none)
  | event :: events =>
    match eventLine event with
    | .error f => ("", some f)
    | .ok line =>
      let (lines, failure) := eventLines events
      (line ++ lines, failure)

def projectName (d : Disk) : List String → Except Failure String
  | [] => .error .usage
  | name :: others => do
    if (← standing d name) ≠ .folder ∨ others ≠ [] then throw .usage
    return name

def eventsText (json : Bool) (events : List Json) : String × Option Failure :=
  if json then (printed (Json.list events).indented, none)
  else if events.isEmpty then (printed "No events found.", none)
  else eventLines events

def runEvents (d : Disk) (words : List String) (query : Query) (json : Bool) : Outcome :=
  match projectName d words with
  | .error f => .failed d f
  | .ok name =>
    let j : Journal := { folder := Journal.folderOf (Path.ofText name) }
    match j.start d with
    | (d, .error fault) => .failed d (.project (.disk fault))
    | (d, .ok ()) =>
      match j.readCommon d query with
      | .error fault => .failed d (.read fault)
      | .ok events =>
        let (output, failure) := eventsText json events
        ⟨d, output, failure⟩

end Gridcalc.CommandLine
