import Gridcalc.CommandLine.Command
import Gridcalc.CommandLine.Formulas
import Gridcalc.CommandLine.Sheets

/-! # Running command lines

A command line is run on a disk that holds what there is at the places it touches.
-/

namespace Gridcalc.CommandLine

def versionLine : String := "gridcalc, version 0.3.0"

def helpLines : List String :=
  ["Usage: gridcalc [OPTIONS] COMMAND [ARGS]...",
    "",
    "Commands:",
    "  eval FORMULA [--cell A1=value]... [--json]",
    "  tokens FORMULA",
    "  fill FORMULA [--rows N] [--cols N]",
    "  recalc SHEET_FILE [--project DIR] [--json]",
    "  events PROJECT_DIR [--level LEVEL] [--type TYPE] [--cell CELL] [--limit N] [--json]"]

def helpText : String := String.join (helpLines.map printed)

def Outcome.ofExcept (d : Disk) : Except Failure String → Outcome
  | .ok output => ⟨d, output, none⟩
  | .error f => .failed d f

def runCommand (stamp : String) (d : Disk) : Command → Outcome
  | .version => ⟨d, printed versionLine, none⟩
  | .help => ⟨d, helpText, none⟩
  | .evaluate formula cells json => .ofExcept d (runEvaluate formula cells json)
  | .tokens formula => .ofExcept d (runTokens formula)
  | .fill formula rows columns => ⟨d, runFill formula rows columns, none⟩
  | .recalculate words project json => runRecalculate stamp d words project json
  | .events words query json => runEvents d words query json

/-- Runs a command line on a disk; events get the time `stamp`. -/
def run (stamp : String) (d : Disk) (words : List String) : Outcome :=
  match Command.ofLine? words with
  | none => .failed d .usage
  | some c =>
    let outcome := runCommand stamp d c
    { outcome with output := plain outcome.output }

def journalPaths (project : Path) (sheet : Option String) : List Path :=
  let j : Journal := { folder := Journal.folderOf project }
  [j.folder, j.sheetFolder, j.commonFile] ++ (sheet.map j.sheetFile).toList

def Command.paths : Command → List Path
  | .recalculate words project _ =>
    let file := Path.ofText (words.head?.getD "")
    file :: match project with
      | none => []
      | some name =>
        let project := Path.ofText name
        project :: project.child Settings.fileName :: journalPaths project (some file.stem)
  | .events words _ _ =>
    let project := Path.ofText (words.head?.getD "")
    project :: journalPaths project none
  | _ => []

def wayTo (p : Path) : List Path :=
  (List.range p.parts.length).map fun n => ⟨p.absolute, p.parts.take (n + 1)⟩

def pathsOf (words : List String) : List Path :=
  match Command.ofLine? words with
  | none => []
  | some c => (c.paths.flatMap wayTo).eraseDups

def Failure.report : Failure → String
  | .usage => helpText
  | .nullCharacter => printed "Error: a path holds the null character"
  | .message sentence => plain (printed ("Error: " ++ sentence))
  | .project (.settings file e) => printed ("Error: " ++ e.message file)
  | .project (.unreadable file) => printed ("Error: " ++ file.toText ++ " holds no document")
  | .project (.tailBytes _) => printed "Error: logging_tail_bytes must be an integer"
  | .project (.disk _) => printed "Error: the project cannot be read or written"
  | .sheetFile _ => printed "Error: the sheet has no proper dimensions"
  | .spec _ => printed "Error: the sheet file describes no sheet"
  | .read _ => printed "Error: the events cannot be read"
  | .unlisted => printed "Error: an event has a level that cannot be listed"

end Gridcalc.CommandLine
