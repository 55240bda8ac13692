import Gridcalc.Document.Integer

/-! # Settings

The settings of a project: the standard ones, replaced and extended by those of its settings
file. Any value is kept as it is found; it is read when it is needed.
-/

namespace Gridcalc

abbrev Settings := List (Datum × Datum)

inductive SettingsError where
  | notAMapping
deriving DecidableEq, Repr

namespace Settings

def fileName : String := "gridcalc.yaml"

def standardTailBytes : Int := 2097152

def standard : Settings :=
  [(.text "n_rows", .int 100), (.text "n_cols", .int 26), (.text "sheet_file", .text "sheet.yaml"),
    (.text "logging_enabled", .bool true), (.text "logging_fsync", .bool false),
    (.text "logging_tail_bytes", .int standardTailBytes)]

/-- Known settings keep their places, new ones follow. -/
def merge (settings changes : Settings) : Settings :=
  changes.foldl (fun all e => Datum.setEntry e.1 e.2 all) settings

def ofDatum (content : Datum) : Except SettingsError Settings :=
  if content.isTrue then
    match content with
    | .mapping entries => .ok (standard.merge entries)
    | _ => .error .notAMapping
  else .ok standard

def keepsEvents (settings : Settings) : Bool :=
  ((Datum.find? "logging_enabled" settings).getD (.bool true)).isTrue

def forcesEvents (settings : Settings) : Bool :=
  ((Datum.find? "logging_fsync" settings).getD (.bool false)).isTrue

def tailBytes (settings : Settings) : Except Datum.IntegerFault Int :=
  let value := (Datum.find? "logging_tail_bytes" settings).getD .null
  if value.isTrue then value.toInt else .ok standardTailBytes

end Settings

end Gridcalc
