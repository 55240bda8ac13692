import Gridcalc.Number.Binary

/-! # Decimal fractions

`digits * 10 ^ exponent`, the double nearest to it, and for a double the decimal fraction with
the fewest digits that reads back as that double.
-/

namespace Gridcalc.Number

structure Decimal where
  digits : Nat
  exponent : Int
deriving DecidableEq, Repr

namespace Decimal

def ratio (d : Decimal) : Nat × Nat :=
  if 0 ≤ d.exponent then (d.digits * Nat.pow 10 d.exponent.toNat, 1)
  else (d.digits, Nat.pow 10 (-d.exponent).toNat)

/-- The pattern of the nearest double. Exponents far outside the range of the doubles are
settled without computing the power of ten. -/
def nearestBits (d : Decimal) : Nat :=
  if d.digits = 0 then 0
  else if 310 ≤ d.exponent then infinityBits
  else if d.exponent + (d.digits.log2 : Int) < -400 then 0
  else Number.nearestBits d.ratio.1 d.ratio.2

def toFloat (negative : Bool) (d : Decimal) : Float := ofBits negative d.nearestBits

def exact (bits : Nat) : Decimal :=
  let q := Number.exponent bits
  if 0 ≤ q then ⟨significand bits * Nat.pow 2 q.toNat, 0⟩
  else ⟨significand bits * Nat.pow 5 (-q).toNat, q⟩

/-- A decimal exponent `k` with `10 ^ (k - 1) ≤ v < 10 ^ k`, from an estimate by the binary
exponent that is at most two too small. -/
def magnitude (bits : Nat) : Int :=
  let d := exact bits
  let estimate := (floorLog2 (significand bits) 1 + Number.exponent bits) * 30103 / 100000
  let below (k : Int) : Bool :=
    let (n, m) := (Decimal.mk 1 (k - d.exponent)).ratio
    decide (d.digits * m < n)
  if below estimate then estimate
  else if below (estimate + 1) then estimate + 1
  else estimate + 2

def stripZeros (d : Decimal) : Decimal :=
  if h : d.digits = 0 then ⟨0, 0⟩
  else if d.digits % 10 = 0 then stripZeros ⟨d.digits / 10, d.exponent + 1⟩
  else d
termination_by d.digits
decreasing_by exact Nat.div_lt_self (Nat.pos_of_ne_zero h) (by decide)

/-- Of the two neighbours of a double on the grid `10 ^ e`, the nearer one that reads back. -/
def onGrid? (bits : Nat) (e : Int) : Option Decimal :=
  let v := exact bits
  let (n, d) := (Decimal.mk v.digits (v.exponent - e)).ratio
  let lower : Decimal := ⟨n / d, e⟩
  let upper : Decimal := ⟨n / d + 1, e⟩
  let (near, far) := if roundEven n d = n / d then (lower, upper) else (upper, lower)
  if near.nearestBits = bits then some near
  else if far.nearestBits = bits then some far
  else none

/-- The fewest digits that read back, and of those the nearest to the double. All its digits
stand at the end of the search, which therefore always has an answer. -/
def shortest (bits : Nat) : Decimal :=
  let k := magnitude bits
  (((List.range 17).findSome? fun n => onGrid? bits (k - (n + 1 : Nat))).getD
    (exact bits)).stripZeros

end Decimal

end Gridcalc.Number
