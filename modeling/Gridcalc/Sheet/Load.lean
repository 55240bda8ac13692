import Gridcalc.Document.Integer
import Gridcalc.Sheet.Edit

/-! # Loading sheets

A sheet from a description: its dimensions and the typed texts of its cells. Plain texts are
stored first; then all formulas are put in place and evaluated together.
-/

namespace Gridcalc

inductive SpecError where
  | notAMapping
  | dimension (fault : Datum.IntegerFault)
  | addressNotText
  | address (e : AddressError)
deriving DecidableEq, Repr

namespace Sheet

def entriesOf : Datum → Except SpecError (List (Datum × Datum))
  | .mapping entries => .ok entries
  | _ => .error .notAMapping

def dimension (key : String) (standard : Int) (entries : List (Datum × Datum)) :
    Except SpecError Int :=
  match ((Datum.find? key entries).getD (.int standard)).toInt with
  | .ok i => .ok i
  | .error fault => .error (.dimension fault)

/-- Later formulas of a cell replace earlier ones and keep their place. -/
def deferFormula (a : Address) (raw : String) : List (Address × String) → List (Address × String)
  | [] => [(a, raw)]
  | e :: es => if e.1 = a then (a, raw) :: es else e :: deferFormula a raw es

def placeEntries (s : Sheet) (formulas : List (Address × String)) :
    List (Datum × Datum) → Except SpecError (Sheet × List (Address × String))
  | [] => .ok (s, formulas)
  | (key, value) :: entries =>
    match key with
    | .text target =>
      match s.resolve (.text target) with
      | .error e => .error (.address e)
      | .ok a =>
        let raw := value.display
        if isFormulaText raw then
          s.placeEntries (deferFormula a (Text.trim raw) formulas) entries
        else (s.store raw a).sheet.placeEntries formulas entries
    | _ => .error .addressNotText

def placeFormula (s : Sheet) (a : Address) (raw : String) : Sheet :=
  { s with cells := s.cells.put a.key (.formula raw "" none) }

def ofSpec (spec : Datum) : Except SpecError (Sheet × List Notice) := do
  let entries ← entriesOf spec
  let rows ← dimension "n_rows" 100 entries
  let columns ← dimension "n_cols" 26 entries
  let cells := (Datum.find? "cells" entries).getD .null
  let cells ← if cells.isTrue then entriesOf cells else .ok []
  let (s, formulas) ← ({ rows, columns } : Sheet).placeEntries [] cells
  let s := formulas.foldl (fun s (a, raw) => s.placeFormula a raw) s
  let (s, notices) := s.recalculateAll
  return (s, notices ++ [.loaded s.cells.size formulas.length])

end Sheet

end Gridcalc
