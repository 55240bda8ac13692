import Gridcalc.Document.Datum
import Gridcalc.Formula.Aggregate
import Gridcalc.Formula.Display
import Gridcalc.Formula.Parse
import Gridcalc.Grid.Reference
import Gridcalc.Text.Firsts

/-! # Evaluating formulas

A formula is evaluated against a lookup from reference texts to data. Every reference that the
evaluation consults is recorded, those before a failure too: whoever keeps the cells has to
know what the result, good or bad, depended on. Neither the depth of a formula nor the digits of a
row number are bounded here, as they are in `evaluateWithin`.
-/

namespace Gridcalc

inductive EvalError where
  /-- A value with no numeric reading where a number is needed. -/
  | value
  | divisionByZero
  /-- A range end that names no cell. -/
  | reference (text : String)
  | unknownFunction (name : String)
  | unknownOperator (operator : String)
  | integerTooLarge
  /-- The lookup itself failed. -/
  | lookupFailed (message : String)
  /-- The lookup failed with a code of its own. -/
  | lookupRefused (code : String)
  /-- The evaluation was broken off from outside. -/
  | interrupted (complaint : String)
deriving DecidableEq, Repr

namespace EvalError

/-- The text that is shown for a failed evaluation. -/
def code : EvalError → String
  | value => "#VALUE!"
  | divisionByZero => "#DIV/0!"
  | reference _ => "#REF!"
  | unknownFunction name => "Unknown function: " ++ name
  | unknownOperator operator => "Unknown operator: " ++ operator
  | integerTooLarge => "#ERROR!"
  | lookupFailed _ => "#ERROR!"
  | lookupRefused code => code
  | interrupted _ => "#ERROR!"

def message? : EvalError → Option String
  | integerTooLarge => some "int too large to convert to float"
  | lookupFailed message => some message
  | interrupted complaint => some complaint
  | _ => none

end EvalError

/-- What the cells hold, by reference text; an empty cell holds `null`. -/
abbrev Lookup := String → Except EvalError Datum

/-- A computation that consults references, in this order, and ends well or not. -/
structure Run (α : Type) where
  consulted : List String
  outcome : Except EvalError α

namespace Run

variable {α β : Type}

def ofExcept (outcome : Except EvalError α) : Run α := ⟨[], outcome⟩

def pure (a : α) : Run α := ⟨[], .ok a⟩

def fail (e : EvalError) : Run α := ⟨[], .error e⟩

def bind (r : Run α) (f : α → Run β) : Run β :=
  match r.outcome with
  | .error e => ⟨r.consulted, .error e⟩
  | .ok a =>
    let next := f a
    ⟨r.consulted ++ next.consulted, next.outcome⟩

instance : Monad Run where
  pure := pure
  bind := bind

def consult (ref : String) : Run Unit := ⟨[ref], .ok ()⟩

end Run

namespace Datum

/-- The number that arithmetic takes a datum for. -/
def toNumber : Datum → Except EvalError Float
  | .float v => .ok v
  | .int i =>
    match Number.ofInt? i with
    | some v => .ok v
    | none => .error .integerTooLarge
  | .text s =>
    match Number.numericPrefix? s with
    | some v => .ok v
    | none => .error .value
  | _ => .error .value

/-- The same where a datum without numeric reading does no harm. -/
def toNumber? (d : Datum) : Except EvalError (Option Float) :=
  match d.toNumber with
  | .ok v => .ok (some v)
  | .error .value => .ok none
  | .error e => .error e

/-- Integers become doubles; other data stay what they are. -/
def widened : Datum → Except EvalError Datum
  | .int i =>
    match Number.ofInt? i with
    | some v => .ok (.float v)
    | none => .error .integerTooLarge
  | d => .ok d

def arguments : Datum → List Datum
  | .list items => items
  | d => [d]

def numbers : List Datum → Except EvalError (List Float)
  | [] => .ok []
  | d :: ds =>
    match d.toNumber? with
    | .error e => .error e
    | .ok v =>
      match numbers ds with
      | .error e => .error e
      | .ok vs => .ok (v.toList ++ vs)

end Datum

namespace Formula

def fetch (lookup : Lookup) (ref : String) : Run Datum := do
  Run.consult ref
  Run.ofExcept (lookup ref)

/-- An empty cell counts as zero. -/
def readCell (lookup : Lookup) (ref : String) : Run Datum := do
  match ← fetch lookup ref with
  | .null => return .float 0.0
  | d => Run.ofExcept d.widened

def readCells (lookup : Lookup) : List Address → Run (List Datum)
  | [] => return []
  | a :: as => do
    match ← fetch lookup a.toA1 with
    | .null => readCells lookup as
    | d =>
      let d ← Run.ofExcept d.widened
      let ds ← readCells lookup as
      return d :: ds

def readRange (lookup : Lookup) (first last : String) : Run Datum := do
  Run.consult first
  Run.consult last
  match Address.ofA1? (stripMarkers first) with
  | none => Run.fail (.reference first)
  | some a =>
    match Address.ofA1? (stripMarkers last) with
    | none => Run.fail (.reference last)
    | some b =>
      let ds ← readCells lookup (Address.rectangle a b)
      return .list ds

def applyBinary (operator : String) (x y : Float) : Except EvalError Float :=
  if operator = "+" then .ok (x + y)
  else if operator = "-" then .ok (x - y)
  else if operator = "*" then .ok (x * y)
  else if operator = "/" then
    if y == 0.0 then .error .divisionByZero else .ok (x / y)
  else if operator = "^" then .ok (Float.pow x y)
  else .error (.unknownOperator operator)

def applyUnary (operator : String) (x : Float) : Except EvalError Float :=
  if operator = "-" then .ok (-x)
  else if operator = "+" then .ok x
  else .error (.unknownOperator operator)

def applyCall (name : String) (vs : List Float) : Except EvalError Float :=
  match aggregate? name with
  | some f => .ok (f vs)
  | none => .error (.unknownFunction name)

mutual
/-- The value of a formula; that of a range is the list of the data present in it. -/
def evaluate (lookup : Lookup) : Formula → Run Datum
  | .number v => return .float v
  | .text s => return .text s
  | .cell ref => readCell lookup ref
  | .range first last => readRange lookup first last
  | .binary operator left right => do
    let x ← Run.ofExcept (← evaluate lookup left).toNumber
    let y ← Run.ofExcept (← evaluate lookup right).toNumber
    let z ← Run.ofExcept (applyBinary operator x y)
    return .float z
  | .unary operator operand => do
    let x ← Run.ofExcept (← evaluate lookup operand).toNumber
    let z ← Run.ofExcept (applyUnary operator x)
    return .float z
  | .call name arguments => do
    let vs ← collect lookup arguments
    let z ← Run.ofExcept (applyCall name vs)
    return .float z

def collect (lookup : Lookup) : List Formula → Run (List Float)
  | [] => return []
  | f :: fs => do
    let d ← evaluate lookup f
    let vs ← Run.ofExcept (Datum.numbers d.arguments)
    let ws ← collect lookup fs
    return vs ++ ws
end

end Formula

inductive Verdict where
  | number (v : Float)
  | text (s : String)
  | failed (e : EvalError)
  /-- The text is no formula. -/
  | malformed (e : SyntaxError)
deriving DecidableEq

namespace Verdict

def value? : Verdict → Option Float
  | number v => some v
  | _ => none

def text? : Verdict → Option String
  | number v => some (displayNumber v)
  | text s => some s
  | _ => none

def error? : Verdict → Option String
  | failed e => some e.code
  | malformed _ => some "#ERROR!"
  | _ => none

def message? : Verdict → Option String
  | failed e => e.message?
  | malformed e => some e.fault.message
  | _ => none

def isMalformed : Verdict → Bool
  | malformed _ => true
  | _ => false

def kind : Verdict → String
  | failed _ => "eval_error"
  | malformed _ => "parse_error"
  | _ => "ok"

def ofOutcome : Except EvalError Datum → Verdict
  | .error e => failed e
  | .ok (.float v) => number v
  | .ok (.text s) => text s
  | .ok _ => failed .value

end Verdict

/-- The verdict on a formula and the references consulted for it, in the order of first use. -/
structure Evaluation where
  verdict : Verdict
  references : List String
deriving DecidableEq

namespace Formula

def result (lookup : Lookup) (f : Formula) : Evaluation :=
  let run := f.evaluate lookup
  ⟨Verdict.ofOutcome run.outcome, Text.firsts run.consulted⟩

def compute (lookup : Lookup) (s : String) : Evaluation :=
  match parse s with
  | .error e => ⟨.malformed e, []⟩
  | .ok f => f.result lookup

end Formula

end Gridcalc
