import Gridcalc.Json.Basic

/-! # Notices

What a sheet reports while it is being edited. A notice has a level, a kind, a sentence, and a
context of named values; those of failures carry the code that the cell shows.
-/

namespace Gridcalc

inductive Level where
  | info
  | warning
  | error
deriving DecidableEq, Repr

def Level.label : Level → String
  | info => "info"
  | warning => "warning"
  | error => "error"

inductive NoticeKind where
  | cellUpdated
  | cellCleared
  | fillApplied
  | parseError
  | evalError
  | cycleDetected
  | recalcCompleted
  | recalcCycleFallback
  | sheetLoaded
deriving DecidableEq, Repr

namespace NoticeKind

def label : NoticeKind → String
  | cellUpdated => "cell_updated"
  | cellCleared => "cell_cleared"
  | fillApplied => "fill_applied"
  | parseError => "parse_error"
  | evalError => "eval_error"
  | cycleDetected => "cycle_detected"
  | recalcCompleted => "recalc_completed"
  | recalcCycleFallback => "recalc_cycle_fallback"
  | sheetLoaded => "sheet_loaded"

end NoticeKind

inductive Notice where
  | updated (cell kind raw : String)
  | cleared (cell : String)
  | filled (cell target : String) (written : Nat)
  | malformed (cell formula detail : String)
  | failed (cell formula code : String)
  | cyclic (cell : String) (path : List String)
  /-- The changed keys, how many cells were computed anew, and which of them show a cycle. -/
  | recalculated (changed : List String) (count : Nat) (cyclic : List String)
  | unordered (changed cyclic : List String)
  | loaded (cells formulas : Nat)
deriving DecidableEq, Repr

namespace Notice

def kind : Notice → NoticeKind
  | updated .. => .cellUpdated
  | cleared .. => .cellCleared
  | filled .. => .fillApplied
  | malformed .. => .parseError
  | failed .. => .evalError
  | cyclic .. => .cycleDetected
  | recalculated .. => .recalcCompleted
  | unordered .. => .recalcCycleFallback
  | loaded .. => .sheetLoaded

def level : Notice → Level
  | malformed .. => .warning
  | failed .. => .warning
  | cyclic .. => .warning
  | unordered .. => .warning
  | _ => .info

def message : Notice → String
  | updated cell _ _ => "Set " ++ cell
  | cleared cell => "Cleared " ++ cell
  | filled cell _ written => "Filled " ++ toString written ++ " cell(s) from " ++ cell
  | malformed cell _ _ => "Cannot parse formula in " ++ cell
  | failed cell _ code => code ++ " in " ++ cell
  | cyclic cell _ => "Circular reference in " ++ cell
  | recalculated _ count _ => "Recalculated " ++ toString count ++ " cell(s)"
  | unordered .. => "Recalculation order fell back to unordered affected cells"
  | loaded cells _ => "Loaded sheet with " ++ toString cells ++ " cell(s)"

def code? : Notice → Option String
  | malformed .. => some "#ERROR!"
  | failed _ _ code => some code
  | cyclic .. => some "#CYCLE!"
  | unordered .. => some "#CYCLE!"
  | _ => none

def texts (ss : List String) : Json := .list (ss.map .text)

def context : Notice → List (String × Json)
  | updated cell kind raw => [("cell", .text cell), ("kind", .text kind), ("raw", .text raw)]
  | cleared cell => [("cell", .text cell)]
  | filled cell target written =>
    [("cell", .text cell), ("target", .text target), ("written", .int written)]
  | malformed cell formula detail =>
    [("cell", .text cell), ("formula", .text formula), ("detail", .text detail)]
  | failed cell formula _ => [("cell", .text cell), ("formula", .text formula)]
  | cyclic cell path => [("cell", .text cell), ("path", texts path)]
  | recalculated changed count marked =>
    [("changed", texts changed), ("recalculated", .int count), ("cyclic", texts marked)]
  | unordered changed marked => [("changed", texts changed), ("cyclic", texts marked)]
  | loaded cells formulas => [("cells", .int cells), ("formulas", .int formulas)]

end Notice

end Gridcalc
