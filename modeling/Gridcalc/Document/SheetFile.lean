import Gridcalc.Document.Settings
import Gridcalc.Text.Upper

/-! # Sheet files

A sheet file names the dimensions of a sheet and the values of its cells. Every value becomes the
text that one would have typed.
-/

namespace Gridcalc

inductive SheetFileError where
  | notAMapping
  | cellsNotAMapping
  | dimensionsNotIntegers
  | infiniteDimension
  /-- Neither the file nor the settings name a dimension. -/
  | missingSetting
deriving DecidableEq, Repr

def SheetFileError.message? (file : String) : SheetFileError → Option String
  | notAMapping => some (file ++ ": sheet file must contain a mapping")
  | cellsNotAMapping => some (file ++ ": 'cells' must be a mapping of address -> value")
  | dimensionsNotIntegers => some (file ++ ": n_rows/n_cols must be integers")
  | _ => none

structure SheetFile where
  rows : Int
  columns : Int
  cells : List (String × String)
deriving DecidableEq, Repr

namespace SheetFile

def typedText : Datum → String
  | .null => ""
  | .bool b => if b then "TRUE" else "FALSE"
  | d =>
    match d, d.integer? with
    | .float _, some i => toString i
    | _, _ => d.display

def setText (address text : String) : List (String × String) → List (String × String)
  | [] => [(address, text)]
  | c :: cs => if c.1 = address then (address, text) :: cs else c :: setText address text cs

/-- The cells by upper-cased address; of several for one address the last counts, in the place
of the first. -/
def cellTexts (entries : List (Datum × Datum)) : List (String × String) :=
  entries.foldl (fun cells e => setText (Text.upper e.1.display) (typedText e.2) cells) []

def dimension (key : String) (settings : Settings) (entries : List (Datum × Datum)) :
    Except SheetFileError Int :=
  match Datum.find? key settings with
  | none => .error .missingSetting
  | some standard =>
    match ((Datum.find? key entries).getD standard).toInt with
    | .ok i => .ok i
    | .error .infinite => .error .infiniteDimension
    | .error _ => .error .dimensionsNotIntegers

def mappingOr (fault : SheetFileError) (d : Datum) :
    Except SheetFileError (List (Datum × Datum)) :=
  if d.isTrue then
    match d with
    | .mapping entries => .ok entries
    | _ => .error fault
  else .ok []

/-- Reads the content of a sheet file; dimensions it lacks are taken from the settings. -/
def ofDatum (settings : Settings) (content : Datum) : Except SheetFileError SheetFile := do
  let settings := if settings.isEmpty then Settings.standard else settings
  let entries ← mappingOr .notAMapping content
  let cells ← mappingOr .cellsNotAMapping ((Datum.find? "cells" entries).getD .null)
  let rows ← dimension "n_rows" settings entries
  let columns ← dimension "n_cols" settings entries
  return ⟨rows, columns, cellTexts cells⟩

def toDatum (f : SheetFile) : Datum :=
  .mapping [(.text "n_rows", .int f.rows), (.text "n_cols", .int f.columns),
    (.text "cells", .mapping (f.cells.map fun c => (.text c.1, .text c.2)))]

end SheetFile

end Gridcalc
