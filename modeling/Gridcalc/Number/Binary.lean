/-! # Doubles as exact binary fractions

The magnitude of a finite double is `significand * 2 ^ exponent`. Its bit pattern, the sign
taken off, counts the doubles from zero upwards: with the exponent `q` of the grid it lies on,
a double `m * 2 ^ q` has the pattern `(q + 1074) * 2 ^ 52 + m`, subnormal or not.

`nearest` rounds a quotient of naturals to that grid, a tie going to the even significand.
-/

namespace Gridcalc.Number

/-- The pattern of infinity: all finite magnitudes lie below it. -/
def infinityBits : Nat := 0x7ff0000000000000

def signBit : Nat := Nat.pow 2 63

def significand (bits : Nat) : Nat :=
  if bits < Nat.pow 2 52 then bits else Nat.pow 2 52 + bits % Nat.pow 2 52

def exponent (bits : Nat) : Int :=
  if bits < Nat.pow 2 52 then -1074 else (bits / Nat.pow 2 52 : Nat) - 1075

/-- What a double is, seen from outside. The magnitude of a finite one is kept as its pattern. -/
inductive Shape where
  | notNumber
  | infinite (negative : Bool)
  | finite (negative : Bool) (bits : Nat)
deriving DecidableEq, Repr

def shape (v : Float) : Shape :=
  let bits := v.toBits.toNat
  let negative := decide (signBit ≤ bits)
  let magnitude := bits % signBit
  if magnitude < infinityBits then .finite negative magnitude
  else if magnitude = infinityBits then .infinite negative
  else .notNumber

def ofBits (negative : Bool) (bits : Nat) : Float :=
  Float.ofBits (UInt64.ofNat (if negative then signBit + bits else bits))

def infinity (negative : Bool) : Float := ofBits negative infinityBits

def notNumber : Float := ofBits false (infinityBits + Nat.pow 2 51)

/-- `num / den` as an integer, to the nearest, a tie going to the even one. -/
def roundEven (num den : Nat) : Nat :=
  let floor := num / den
  let twice := 2 * (num % den)
  if twice < den then floor
  else if den < twice then floor + 1
  else floor + floor % 2

def scaled (num den : Nat) (shift : Int) : Nat × Nat :=
  if 0 ≤ shift then (num * Nat.pow 2 shift.toNat, den) else (num, den * Nat.pow 2 (-shift).toNat)

/-- The greatest `e` with `2 ^ e ≤ num / den`, both positive. -/
def floorLog2 (num den : Nat) : Int :=
  let guess : Int := (num.log2 : Int) - (den.log2 : Int)
  let (n, d) := scaled num den (-guess)
  if d ≤ n then guess else guess - 1

/-- The pattern of the double nearest to `num / den`. -/
def nearestBits (num den : Nat) : Nat :=
  if num = 0 then 0
  else
    let q := max (floorLog2 num den - 52) (-1074)
    let (n, d) := scaled num den (-q)
    min ((q + 1074).toNat * Nat.pow 2 52 + roundEven n d) infinityBits

def ofInt? (i : Int) : Option Float :=
  let bits := nearestBits i.natAbs 1
  if bits < infinityBits then some (ofBits (decide (i < 0)) bits) else none

/-- The integer that a pattern stands for, the fraction cut off. -/
def wholePart (bits : Nat) : Nat :=
  let q := exponent bits
  if 0 ≤ q then significand bits * Nat.pow 2 q.toNat else significand bits / Nat.pow 2 (-q).toNat

def isWhole (bits : Nat) : Bool :=
  let q := exponent bits
  decide (0 ≤ q) || significand bits % Nat.pow 2 (-q).toNat == 0

end Gridcalc.Number
