import Gridcalc.Number.Layout

/-! # Numbers as the grid shows them

Whole numbers below `10 ^ 21` show all their digits; other numbers show the shortest digits
that read back, positionally from `0.000001` on and below `10 ^ 21`.
-/

namespace Gridcalc

def displayLayout : Number.Layout where
  exactBelow := Nat.pow 10 21
  lowest := some (-6)
  highest := some 20
  pointZero := false
  notNumber := "NaN"
  infinite := "Infinity"

def displayNumber (v : Float) : String := displayLayout.write v

end Gridcalc
