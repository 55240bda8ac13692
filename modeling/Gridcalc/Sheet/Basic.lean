import Gridcalc.Graph.Order
import Gridcalc.Sheet.Cell
import Gridcalc.Sheet.FillPlan
import Gridcalc.Sheet.Notice

/-! # Sheets

A grid of cells together with the graph of references between them. `process` turns a typed
text into a cell; it stores nothing, but it records in the graph what the formula has read.
-/

namespace Gridcalc

/-- A cell, and how many keys had come into the table before its own. -/
structure Slot where
  serial : Nat
  cell : Cell
deriving Inhabited

/-- Cells by storage key. The order in which the keys first came is kept. -/
structure CellTable where
  slots : Std.TreeMap String Slot
  next : Nat

namespace CellTable

def empty : CellTable := ⟨∅, 0⟩

instance : Inhabited CellTable := ⟨empty⟩

def find? (t : CellTable) (k : String) : Option Cell := t.slots[k]?.map Slot.cell

/-- A key that is there keeps its place. -/
def put (t : CellTable) (k : String) (c : Cell) : CellTable :=
  match t.slots[k]? with
  | some slot => { t with slots := t.slots.insert k { slot with cell := c } }
  | none => ⟨t.slots.insert k ⟨t.next, c⟩, t.next + 1⟩

def erase (t : CellTable) (k : String) : CellTable := { t with slots := t.slots.erase k }

def entries (t : CellTable) : List (String × Cell) :=
  (t.slots.toList.mergeSort fun x y => decide (x.2.serial ≤ y.2.serial)).map fun e => (e.1, e.2.cell)

def size (t : CellTable) : Nat := t.slots.size

end CellTable

structure Sheet where
  rows : Int := 100
  columns : Int := 26
  cells : CellTable := .empty
  graph : Graph := ∅
deriving Inhabited

/-- A cell as an edit names it: by its key or A1 text, markers or not, or by its position. -/
inductive Target where
  | text (s : String)
  | address (a : Address)
deriving DecidableEq, Repr

namespace Sheet

def within (s : Sheet) (a : Address) : Except AddressError Address :=
  if a.InGrid s.rows s.columns then .ok a else .error (.outside a s.rows s.columns)

def resolve (s : Sheet) : Target → Except AddressError Address
  | .address a => s.within a
  | .text t =>
    match Address.ofKey? t with
    | some a => s.within a
    | none =>
      match Address.ofA1? (stripMarkers t) with
      | some a => s.within a
      | none => .error (.malformed (stripMarkers t))

def cellAt (s : Sheet) (a : Address) : Cell := (s.cells.find? a.key).getD .empty

def get (s : Sheet) (t : Target) : Except AddressError Cell := (s.resolve t).map s.cellAt

/-- The datum that a reference text stands for; nothing if it names no cell. -/
def lookup (s : Sheet) (ref : String) : Datum :=
  match keyOfReference? ref with
  | none => .null
  | some k =>
    match s.cells.find? k with
    | none => .null
    | some c => c.datum

/-- A cell made from a typed text, the graph with what it reads, and what there is to report. -/
structure Processed where
  cell : Cell
  graph : Graph
  notices : List Notice

/-- The key under which a reference is known to the graph; its text if it names no cell. -/
def readKey (ref : String) : String := (keyOfReference? ref).getD ref

/-- A text that is not a formula is a number if it is that number's displayed form. -/
def plainCell (trimmed : String) : Cell :=
  match Number.numericPrefix? trimmed with
  | some v => if displayNumber v = trimmed then .number trimmed v else .text trimmed
  | none => .text trimmed

/-- The cell for a formula whose evaluation gave `verdict`, when `cycle` is a cycle that can be
reached from it. -/
def formulaCell (formula : String) (verdict : Verdict) (cycle : Option (List String)) : Cell :=
  match verdict with
  | .malformed e => .error formula (.malformed e)
  | .failed e =>
    if cycle.isSome then .error formula .cycle else .error formula (.evaluation e)
  | v =>
    if cycle.isSome then .error formula .cycle else .formula formula (v.text?.getD "") v.value?

def formulaNotices (cell formula : String) (verdict : Verdict) (cycle : Option (List String)) :
    List Notice :=
  match verdict, cycle with
  | .malformed e, _ => [.malformed cell formula e.fault.message]
  | _, some path => [.cyclic cell path]
  | .failed e, none => [.failed cell formula e.code]
  | _, none => []

def processFormula (s : Sheet) (formula : String) (a : Address) : Processed :=
  let e := Formula.compute (fun ref => .ok (s.lookup ref)) formula
  let graph := s.graph.update a.key (e.references.map readKey)
  let cycle := graph.findCycle a.key
  ⟨formulaCell formula e.verdict cycle, graph, formulaNotices a.toA1 formula e.verdict cycle⟩

/-- What typing `raw` into the cell at `a` makes of it. -/
def process (s : Sheet) (raw : String) (a : Address) : Processed :=
  let trimmed := Text.trim raw
  if trimmed = "" then ⟨.empty, s.graph, []⟩
  else if isFormulaText raw then s.processFormula trimmed a
  else ⟨plainCell trimmed, s.graph, []⟩

def inOrder (s : Sheet) : List (Address × Cell) :=
  let located := s.cells.entries.filterMap fun e => (Address.ofKey? e.1).map (·, e.2)
  let before (a b : Address) : Bool :=
    decide (a.row < b.row) || (a.row == b.row && decide (a.column ≤ b.column))
  located.mergeSort fun x y => before x.1 y.1

end Sheet

end Gridcalc
