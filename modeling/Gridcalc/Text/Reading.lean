/-! # Readings

What a reader makes of the head of its input: a value and the rest, which is shorter. Readers
that call each other on the rest end for that reason.
-/

namespace Gridcalc

structure Reading {β : Type} (α : Type) (input : List β) where
  value : α
  rest : List β
  shorter : rest.length < input.length

end Gridcalc
