import Gridcalc.Journal.Recorder
import Gridcalc.Limits.Formula
import Gridcalc.Sheet.Edit

/-! # Edits step by step

An edit taken as what it is to a host: steps that change the sheet and the journal one after the
other. A step that fails ends the edit, and what was done before stays done. The steps fail on
targets, which are resolved before anything is changed, and on limits, which can be met at any time:
a text that is typed, copied or computed anew may be nested too deeply, and a number too long. To
show a value, to change the graph and to search it takes loops and no recursion, so that these steps
always succeed.
-/

namespace Gridcalc

namespace Sheet

def lookupWithin (l : Limits) (s : Sheet) : Lookup := fun ref =>
  match l.keyOfReference? ref with
  | .error o => .error (.interrupted (l.complaint o))
  | .ok none => .ok .null
  | .ok (some k) =>
    match s.cells.find? k with
    | none => .ok .null
    | some c => .ok c.datum

def processFormulaWithin (l : Limits) (s : Sheet) (formula : String) (a : Address) :
    Except EditFault Processed := do
  let k ← (l.key a).mapError .overrun
  let name ← (l.a1 a).mapError .overrun
  let e ← Formula.computeWithin l (s.lookupWithin l) formula
  let keys ← (l.readKeys e.references).mapError .overrun
  let graph := s.graph.update k keys
  let cycle := graph.findCycle k
  return ⟨formulaCell formula e.verdict cycle, graph, formulaNotices name formula e.verdict cycle⟩

def processWithin (l : Limits) (s : Sheet) (raw : String) (a : Address) :
    Except EditFault Processed :=
  let trimmed := Text.trim raw
  if trimmed = "" then .ok ⟨.empty, s.graph, []⟩
  else if isFormulaText raw then s.processFormulaWithin l trimmed a
  else .ok ⟨plainCell trimmed, s.graph, []⟩

end Sheet

/-- Whether the numbers in the target can be read, if it has any. -/
def Target.readable (l : Limits) : Target → Bool
  | .address _ => true
  | .text t =>
    match Address.ofKey? t with
    | some _ => l.reads t
    | none => (Address.ofA1? (stripMarkers t)).isNone || l.reads (stripMarkers t)

def Sheet.resolveWithin (l : Limits) (s : Sheet) (target : Target) : Except TargetFault Address :=
  if target.readable l then (s.resolve target).mapError .address else .error .unreadable

/-- A sheet that is being edited, and where its events go. -/
structure Session where
  sheet : Sheet
  recorder : Recorder
  name : Option String := none
  stamp : String

def Session.became (σ : Session) (s : Sheet) (notices : List Notice) : Session :=
  { σ with sheet := s, recorder := σ.recorder.recordNotices σ.stamp σ.name notices }

abbrev Editing := EStateM EditFault Session

namespace Editing

def change (f : Sheet → Sheet) : Editing Unit := modify fun σ => { σ with sheet := f σ.sheet }

def report (notices : List Notice) : Editing Unit := modify fun σ => σ.became σ.sheet notices

def attempt {α : Type} : Except EditFault α → Editing α
  | .ok v => return v
  | .error fault => throw fault

def bounded {α : Type} (x : Except Overrun α) : Editing α := attempt (x.mapError .overrun)

variable (l : Limits)

def resolve (target : Target) : Editing Address := do
  attempt (((← get).sheet.resolveWithin l target).mapError .target)

def process (raw : String) (a : Address) : Editing Cell := do
  let p ← attempt ((← get).sheet.processWithin l raw a)
  change fun s => { s with graph := p.graph }
  report p.notices
  return p.cell

def store (raw : String) (a : Address) : Editing Cell := do
  let cell ← process l raw a
  change fun s =>
    { s with
      graph := if cell.isFormula = false ∧ s.graph.contains a.key then s.graph.update a.key []
        else s.graph }
  change fun s =>
    { s with cells := if cell = .empty then s.cells.erase a.key else s.cells.put a.key cell }
  return cell

def replay : List String → Editing (List (String × Cell))
  | [] => return []
  | k :: ks => do
    let raw? := ((← get).sheet.cells.find? k).bind Cell.raw?
    match raw?, ← bounded (l.addressOfKey? k) with
    | some raw, some a =>
      if raw = "" then replay ks
      else
        let cell ← process l raw a
        change fun s => { s with cells := s.cells.put k cell }
        let updated ← replay ks
        return (k, cell) :: updated
    | _, _ => replay ks

def recalculateDependents (changed : List String) : Editing (List (String × Cell)) := do
  let graph := (← get).sheet.graph
  let order := graph.recalculationOrder changed
  let fellBack := !order.isEmpty && (graph.topologicalOrder? order).isNone
  let updated ← replay l order
  report (Sheet.replayNotices changed fellBack updated)
  return updated

def finish (k : String) : Editing (List String) := do
  let updated ← recalculateDependents l [k]
  return k :: (updated.map (·.1)).filter (· != k)

def setCell (target : Target) (raw : String) : Editing (List String) := do
  let a ← resolve l target
  let k ← bounded (l.key a)
  let cell ← store l raw a
  let name ← bounded (l.a1 a)
  report [.updated name cell.kind raw]
  finish l k

def clearCell (target : Target) : Editing (List String) := do
  let a ← resolve l target
  let k ← bounded (l.key a)
  let _ ← store l "" a
  change fun s =>
    { s with
      graph := if s.graph.contains k ∧ s.graph.dependents k = ∅ then s.graph.remove k
        else s.graph }
  let name ← bounded (l.a1 a)
  report [.cleared name]
  finish l k

def fillTextWithin (text : String) (source target : Address) : Except EditFault String :=
  if isFormulaText text then
    Formula.shiftTextWithin l text (target.row - source.row) (target.column - source.column)
  else .ok text

/-- The keys that a fill writes to, each with the text for it. -/
def fillTexts (text : String) (source : Address) : List Address → Editing (List (String × String))
  | [] => return []
  | target :: targets => do
    let k ← bounded (l.key target)
    let copy ← attempt (fillTextWithin l text source target)
    let texts ← fillTexts text source targets
    return (k, copy) :: texts

/-- Every cell but the source is set by its key, which is resolved again. -/
def setAll (source : String) : List (String × String) → Editing (List String)
  | [] => return []
  | (k, text) :: texts => do
    if k = source then setAll source texts
    else
      let keys ← setCell l (.text k) text
      let others ← setAll source texts
      return keys ++ others

def fill (source first last : Target) : Editing (List String) := do
  let source ← resolve l source
  let first ← resolve l first
  let last ← resolve l last
  let k ← bounded (l.key source)
  let text := ((← get).sheet.cellAt source).raw?.getD ""
  let texts ← fillTexts l text source (fillTargets source first last)
  let keys ← setAll l k texts
  let name ← bounded (l.a1 source)
  let firstName ← bounded (l.a1 first)
  let lastName ← bounded (l.a1 last)
  report [.filled name (firstName ++ ":" ++ lastName) texts.length]
  return Text.firsts keys

end Editing

inductive Request where
  | set (target : Target) (raw : String)
  | clear (target : Target)
  | fill (source first last : Target)

namespace Request

def targets : Request → List Target
  | set target _ => [target]
  | clear target => [target]
  | fill source first last => [source, first, last]

def edit (s : Sheet) : Request → Except AddressError Edit
  | set target raw => s.setCell target raw
  | clear target => s.clearCell target
  | fill source first last => s.fill source first last

def perform (l : Limits) : Request → Editing (List String)
  | set target raw => Editing.setCell l target raw
  | clear target => Editing.clearCell l target
  | fill source first last => Editing.fill l source first last

end Request

end Gridcalc
