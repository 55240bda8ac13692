/-! # Aggregate functions

The functions that a formula can call. Each takes the numbers among its arguments, ranges
flattened; on no numbers at all each of them is zero.
-/

namespace Gridcalc

namespace Aggregate

/-- The plain sum from left to right: each step is rounded, and nothing makes up for what that
loses. -/
def sum (vs : List Float) : Float := vs.foldl (· + ·) 0.0

def average (vs : List Float) : Float :=
  if vs.isEmpty then 0.0 else sum vs / Float.ofNat vs.length

/-- The first of the least values, from left to right. -/
def minimum : List Float → Float
  | [] => 0.0
  | v :: vs => vs.foldl (fun best w => if w < best then w else best) v

def maximum : List Float → Float
  | [] => 0.0
  | v :: vs => vs.foldl (fun best w => if best < w then w else best) v

def count (vs : List Float) : Float := Float.ofNat vs.length

end Aggregate

def aggregate? : String → Option (List Float → Float)
  | "SUM" => some Aggregate.sum
  | "AVG" => some Aggregate.average
  | "AVERAGE" => some Aggregate.average
  | "MIN" => some Aggregate.minimum
  | "MAX" => some Aggregate.maximum
  | "COUNT" => some Aggregate.count
  | _ => none

end Gridcalc
