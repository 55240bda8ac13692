import Gridcalc.Sheet.Basic
import Gridcalc.Text.Firsts

/-! # Edits

Storing a text in a cell, and computing anew whatever depends on it before the edit is over. An
edit fails only on a target that is no cell of the grid, and then nothing has happened; else it
gives the new sheet, the keys of the cells that were processed, and what there is to report.
-/

namespace Gridcalc

structure Edit where
  sheet : Sheet
  keys : List String
  notices : List Notice

namespace Sheet

structure Stored where
  sheet : Sheet
  cell : Cell
  notices : List Notice

/-- Stores a text. A cell that is no longer a formula reads nothing, and an empty one is dropped. -/
def store (s : Sheet) (raw : String) (a : Address) : Stored :=
  let p := s.process raw a
  let graph :=
    if p.cell.isFormula = false ∧ p.graph.contains a.key then p.graph.update a.key [] else p.graph
  let cells := if p.cell = .empty then s.cells.erase a.key else s.cells.put a.key p.cell
  ⟨{ s with cells := cells, graph := graph }, p.cell, p.notices⟩

structure Replay where
  sheet : Sheet
  updated : List (String × Cell)
  notices : List Notice

/-- Processes the cells of the given keys again, from their own texts. Keys without a cell are
passed over. -/
def replay (s : Sheet) : List String → Replay
  | [] => ⟨s, [], []⟩
  | k :: ks =>
    match (s.cells.find? k).bind Cell.raw?, Address.ofKey? k with
    | some raw, some a =>
      if raw = "" then s.replay ks
      else
        let p := s.process raw a
        let s' := { s with cells := s.cells.put k p.cell, graph := p.graph }
        let rest := s'.replay ks
        ⟨rest.sheet, (k, p.cell) :: rest.updated, p.notices ++ rest.notices⟩
    | _, _ => s.replay ks

/-- The keys of the cells that show a cycle, in order. -/
def cyclicKeys (updated : List (String × Cell)) : List String :=
  (KeySet.ofList ((updated.filter (·.2.isCyclic)).map (·.1))).toList

def replayNotices (changed : List String) (fellBack : Bool) (updated : List (String × Cell)) :
    List Notice :=
  if updated.isEmpty then []
  else
    .recalculated changed updated.length (cyclicKeys updated) ::
      if fellBack then [.unordered changed (cyclicKeys updated)] else []

def recalculateDependents (s : Sheet) (changed : List String) : Replay :=
  let order := s.graph.recalculationOrder changed
  let fellBack := !order.isEmpty && (s.graph.topologicalOrder? order).isNone
  let r := s.replay order
  { r with notices := r.notices ++ replayNotices changed fellBack r.updated }

def finish (s : Sheet) (k : String) (notices : List Notice) : Edit :=
  let r := s.recalculateDependents [k]
  ⟨r.sheet, k :: (r.updated.map (·.1)).filter (· != k), notices ++ r.notices⟩

def write (s : Sheet) (a : Address) (raw : String) : Edit :=
  let stored := s.store raw a
  stored.sheet.finish a.key
    (stored.notices ++ [Notice.updated a.toA1 stored.cell.kind raw])

/-- Empties a cell of the grid; its node goes too unless something reads it. -/
def wipe (s : Sheet) (a : Address) : Edit :=
  let stored := s.store "" a
  let graph := stored.sheet.graph
  let graph :=
    if graph.contains a.key ∧ graph.dependents a.key = ∅ then graph.remove a.key else graph
  let dropped : Sheet := { stored.sheet with graph := graph }
  dropped.finish a.key (stored.notices ++ [Notice.cleared a.toA1])

def setCell (s : Sheet) (t : Target) (raw : String) : Except AddressError Edit :=
  (s.resolve t).map fun a => s.write a raw

def clearCell (s : Sheet) (t : Target) : Except AddressError Edit := (s.resolve t).map s.wipe

/-- Carries out a fill plan; the source itself is not written. -/
def carryOut (s : Sheet) (source : Address) : List (Address × String) → Edit
  | [] => ⟨s, [], []⟩
  | (target, text) :: plan =>
    if target = source then s.carryOut source plan
    else
      let e := s.write target text
      let rest := e.sheet.carryOut source plan
      ⟨rest.sheet, e.keys ++ rest.keys, e.notices ++ rest.notices⟩

def fill (s : Sheet) (source first last : Target) : Except AddressError Edit := do
  let source ← s.resolve source
  let first ← s.resolve first
  let last ← s.resolve last
  let plan := fillPlan ((s.cellAt source).raw?.getD "") source first last
  let e := s.carryOut source plan
  let notice := Notice.filled source.toA1 (first.toA1 ++ ":" ++ last.toA1) plan.length
  return ⟨e.sheet, Text.firsts e.keys, e.notices ++ [notice]⟩

def restore (s : Sheet) : List String → Sheet × List Notice
  | [] => (s, [])
  | k :: ks =>
    match s.cells.find? k, Address.ofKey? k with
    | some c, some a =>
      let stored := s.store (c.raw?.getD "") a
      let (last, notices) := stored.sheet.restore ks
      (last, stored.notices ++ notices)
    | _, _ => s.restore ks

def formulaKeys (s : Sheet) : List String :=
  (s.cells.entries.filter (·.2.isFormula)).map (·.1)

/-- Evaluates every formula twice: first to learn what it reads, then in the order of the
dependencies, or of the keys if there is a cycle. -/
def recalculateAll (s : Sheet) : Sheet × List Notice :=
  let keys := s.formulaKeys
  let (s, first) := s.restore keys
  let order := (s.graph.topologicalOrder? keys).getD (KeySet.ofList keys).toList
  let (s, second) := s.restore order
  (s, first ++ second)

def clear (s : Sheet) : Sheet := { s with cells := .empty, graph := ∅ }

end Sheet

end Gridcalc
