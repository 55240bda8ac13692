import Gridcalc.Formula.Shift
import Gridcalc.Text.Blank

/-! # Fill plans

What a fill writes where. The targets lie in the column of the source, or else in its row; any
other shape plans nothing. Formulas are shifted by the distance of each target from the source,
other texts are copied as they are.
-/

namespace Gridcalc

def isFormulaText (s : String) : Bool := (Text.trim s).toList.head? == some '='

/-- The cells that a fill from `source` to the stretch between `first` and `last` covers. -/
def fillTargets (source first last : Address) : List Address :=
  if first.column = source.column ∧ last.column = source.column then
    (Address.span first.row last.row).map fun row => ⟨row, source.column⟩
  else if first.row = source.row ∧ last.row = source.row then
    (Address.span first.column last.column).map fun column => ⟨source.row, column⟩
  else []

def fillText (text : String) (source target : Address) : String :=
  if isFormulaText text then
    Formula.shiftText text (target.row - source.row) (target.column - source.column)
  else text

def fillPlan (text : String) (source first last : Address) : List (Address × String) :=
  (fillTargets source first last).map fun target => (target, fillText text source target)

end Gridcalc
