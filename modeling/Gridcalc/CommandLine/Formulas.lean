import Gridcalc.CommandLine.Arguments
import Gridcalc.CommandLine.Outcome
import Gridcalc.Formula.Evaluate
import Gridcalc.Formula.Shift
import Gridcalc.Json.Write

/-! # Commands on formulas

These touch no file.
-/

namespace Gridcalc.CommandLine

def cellTexts : List String → List (String × String) → Except Failure (List (String × String))
  | [], cells => .ok cells
  | item :: items, cells =>
    match Arguments.splitEquals? item with
    | none =>
      .error (.message ("Invalid --cell format: " ++ Text.quoted item ++ ". Use A1=value."))
    | some (address, text) =>
      cellTexts items (SheetFile.setText (Text.upper (Text.trim address)) text cells)

/-- A given text is a number if it is one that is displayed in just this way. -/
def givenDatum (text : String) : Datum :=
  match Number.numericPrefix? text with
  | some v => if displayNumber v = Text.trim text then .float v else .text text
  | none => .text text

def cellData : List (String × String) → Except Failure (List (String × Datum))
  | [] => .ok []
  | (address, text) :: cells =>
    match keyOfReference? address with
    | none => .error (.message ("Invalid cell address: " ++ Text.quoted address))
    | some key => (cellData cells).map fun data => (key, givenDatum text) :: data

/-- Of several data for one cell the last counts. -/
def givenLookup (data : List (String × Datum)) : Lookup := fun ref =>
  match keyOfReference? ref with
  | none => .ok .null
  | some key => .ok (((data.reverse.find? (·.1 == key)).map (·.2)).getD .null)

def evaluationJson (e : Evaluation) : Json :=
  let text (s : Option String) : Json := (s.map .text).getD .null
  .object [
    ("value", (e.verdict.value?.map .float).getD .null),
    ("text", text e.verdict.text?),
    ("error", text e.verdict.error?),
    ("message", text e.verdict.message?),
    ("used_references", .list (e.references.map .text)),
    ("parse_failed", .bool e.verdict.isMalformed),
    ("kind", .text e.verdict.kind)]

def evaluationText (json : Bool) (e : Evaluation) : Except Failure String :=
  if json then .ok (printed (evaluationJson e).indented)
  else
    match e.verdict.error? with
    | none => .ok (printed (e.verdict.text?.getD ""))
    | some code =>
      let detail := e.verdict.message?.getD ""
      .error (.message (if detail = "" then code else code ++ " (" ++ detail ++ ")"))

def runEvaluate (formula : String) (cells : List String) (json : Bool) : Except Failure String := do
  let data ← cellData (← cellTexts cells [])
  evaluationText json (Formula.compute (givenLookup data) formula)

def tokenLine (t : Token) : String :=
  printed (padLeft 4 (toString t.position) ++ "  " ++ padRight 10 t.kind.label ++ "  " ++ t.text)

def runTokens (formula : String) : Except Failure String :=
  match tokenize (Formula.body formula) with
  | .ok ts => .ok (String.join (ts.map tokenLine))
  | .error e => .error (.message e.message)

def runFill (formula : String) (rows columns : Int) : String :=
  printed (Formula.shiftText formula rows columns)

end Gridcalc.CommandLine
