import Std.Data.TreeSet

/-! # First occurrences -/

namespace Gridcalc.Text

def firstsFrom (seen : Std.TreeSet String) : List String → List String
  | [] => []
  | s :: ss =>
    if seen.contains s then firstsFrom seen ss else s :: firstsFrom (seen.insert s) ss

/-- The texts without repetition, each at its first place. -/
def firsts (ss : List String) : List String := firstsFrom ∅ ss

end Gridcalc.Text
