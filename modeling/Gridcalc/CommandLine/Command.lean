import Gridcalc.CommandLine.Arguments
import Gridcalc.Journal.Read
import Gridcalc.Number.Numeral
import Gridcalc.Text.Upper

/-! # Commands

What a command line asks for.
-/

namespace Gridcalc.CommandLine

inductive Command where
  | version
  | help
  /-- Evaluates a formula with cells given as texts such as `A1=5`. -/
  | evaluate (formula : String) (cells : List String) (json : Bool)
  | tokens (formula : String)
  | fill (formula : String) (rows columns : Int)
  /-- Of the words, one is the sheet file; how many there are is checked after what they are. -/
  | recalculate (words : List String) (project : Option String) (json : Bool)
  /-- Of the words, one is the folder of the project. -/
  | events (words : List String) (query : Query) (json : Bool)
deriving DecidableEq, Repr

namespace Command

def helpFlag : String := "--help"

def number? (a : Arguments) (name : String) (standard : Int) : Option Int :=
  match a.value? name with
  | none => some standard
  | some s => Number.int? s

def onlyPlain? (a : Arguments) : Option String :=
  match a.plain with
  | [word] => some word
  | _ => none

def evaluate? (a : Arguments) : Option Command := do
  return .evaluate (← onlyPlain? a) (a.valuesOf "--cell") (a.hasFlag "--json")

def fill? (a : Arguments) : Option Command := do
  return .fill (← onlyPlain? a) (← number? a "--rows" 0) (← number? a "--cols" 0)

def ofRecalculate (a : Arguments) : Command :=
  .recalculate a.plain (a.value? "--project") (a.hasFlag "--json")

def level? (a : Arguments) : Option (Option String) :=
  match a.value? "--level" with
  | none => some none
  | some s => if ["info", "warning", "error"].contains s then some (some s) else none

def events? (a : Arguments) : Option Command := do
  let query : Query := {
    level := ← level? a
    kind := a.value? "--type"
    cell := (a.value? "--cell").map Text.upper
    limit := ← number? a "--limit" 50 }
  return .events a.plain query (a.hasFlag "--json")

def ofWords? (valued flags : List String) (read : Arguments → Option Command)
    (words : List String) : Option Command := do
  let a ← Arguments.sort? ⟨valued, helpFlag :: flags⟩ false words
  if a.hasFlag helpFlag then return .help else read a

def named? (name : String) (words : List String) : Option Command :=
  match name with
  | "eval" => ofWords? ["--cell"] ["--json"] evaluate? words
  | "tokens" => ofWords? [] [] (fun a => (onlyPlain? a).map .tokens) words
  | "fill" => ofWords? ["--rows", "--cols"] [] fill? words
  | "recalc" => ofWords? ["--project"] ["--json"] (fun a => some (ofRecalculate a)) words
  | "events" => ofWords? ["--level", "--type", "--cell", "--limit"] ["--json"] events? words
  | _ => none

/-- What the options before the name of a command ask for by themselves. -/
def ofFlags? (a : Arguments) : Option Command :=
  match a.flags with
  | [] => none
  | flag :: _ => some (if flag = helpFlag then .help else .version)

def sortLine? (words : List String) : Option Arguments :=
  Arguments.sort? ⟨[], ["--version", helpFlag]⟩ true words

/-- Reads a command line; nothing if it is not used as it should be. Where there is no command of
the given name, the words are looked at for options once more, in case a lone `--` came first. -/
def ofLine? (words : List String) : Option Command := do
  let a ← sortLine? words
  match ofFlags? a, a.plain with
  | some c, _ => some c
  | none, [] => none
  | none, name :: rest => named? name rest <|> (sortLine? a.plain).bind ofFlags?

end Command

end Gridcalc.CommandLine
