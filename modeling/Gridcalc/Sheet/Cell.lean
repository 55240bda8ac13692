import Gridcalc.Formula.Evaluate

/-! # Cells

What a cell holds after its typed text has been classified and, if it is a formula, evaluated.
The typed text is kept trimmed; it is what the cell is computed from again.
-/

namespace Gridcalc

inductive CellFault where
  | malformed (e : SyntaxError)
  /-- A cycle of references can be reached from the cell. -/
  | cycle
  | evaluation (e : EvalError)
deriving DecidableEq

namespace CellFault

def code : CellFault → String
  | malformed _ => "#ERROR!"
  | cycle => "#CYCLE!"
  | evaluation e => e.code

def message? : CellFault → Option String
  | malformed e => some e.fault.message
  | cycle => none
  | evaluation e => e.message?

end CellFault

inductive Cell where
  | empty
  | text (raw : String)
  | number (raw : String) (value : Float)
  /-- A formula with what it shows, and its value if that is a number. -/
  | formula (raw shown : String) (value : Option Float)
  | error (raw : String) (fault : CellFault)
deriving DecidableEq, Inhabited

namespace Cell

def kind : Cell → String
  | empty => "empty"
  | text _ => "text"
  | number .. => "number"
  | formula .. => "formula"
  | error .. => "error"

def raw? : Cell → Option String
  | empty => none
  | text raw => some raw
  | number raw _ => some raw
  | formula raw _ _ => some raw
  | error raw _ => some raw

def display : Cell → String
  | empty => ""
  | text raw => raw
  | number raw _ => raw
  | formula _ shown _ => shown
  | error _ fault => fault.code

def value? : Cell → Option Float
  | number _ v => some v
  | formula _ _ v => v
  | _ => none

def fault? : Cell → Option CellFault
  | error _ fault => some fault
  | _ => none

/-- Whether the typed text is a formula, a faulty one included. -/
def isFormula : Cell → Bool
  | formula .. => true
  | error .. => true
  | _ => false

def isCyclic (c : Cell) : Bool := c.fault? == some .cycle

/-- What a formula that refers to the cell reads; nothing from an empty or a faulty one. -/
def datum : Cell → Datum
  | text raw => .text raw
  | c =>
    match c.value? with
    | some v => .float v
    | none => .null

end Cell

end Gridcalc
