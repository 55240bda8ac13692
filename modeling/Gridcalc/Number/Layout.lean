import Gridcalc.Number.Decimal

/-! # Number layouts

How the digits of a double are laid out as text. The digits are always the shortest that read
back; a layout says where positional notation ends and how the rest is spelled.
-/

namespace Gridcalc.Number

structure Layout where
  /-- Whole numbers below this are written with all their digits, and zero without a sign. -/
  exactBelow : Nat := 0
  /-- The least and the greatest decimal exponent that is written positionally. -/
  lowest : Option Int := none
  highest : Option Int := none
  /-- Whether a whole number ends in `.0`. -/
  pointZero : Bool
  /-- The least number of digits of a written exponent. -/
  exponentWidth : Nat := 1
  notNumber : String
  infinite : String

namespace Layout

def positional (pointZero : Bool) (digits : List Char) (exponent : Int) : List Char :=
  if 0 ≤ exponent then
    digits ++ List.replicate exponent.toNat '0' ++ (if pointZero then ['.', '0'] else [])
  else
    let places := (-exponent).toNat
    let padded := List.replicate (places + 1 - digits.length) '0' ++ digits
    padded.take (padded.length - places) ++ '.' :: padded.drop (padded.length - places)

def scientific (width : Nat) (digits : List Char) (exponent : Int) : List Char :=
  let power := Nat.toDigits 10 exponent.natAbs
  digits.take 1 ++ (if digits.length = 1 then [] else '.' :: digits.drop 1) ++
    'e' :: (if exponent < 0 then '-' else '+') ::
      (List.replicate (width - power.length) '0' ++ power)

def magnitudeChars (l : Layout) (d : Decimal) : List Char :=
  let digits := Nat.toDigits 10 d.digits
  let first := d.exponent + digits.length - 1
  if l.lowest.all (· ≤ first) && l.highest.all (first ≤ ·) then
    positional l.pointZero digits d.exponent
  else scientific l.exponentWidth digits first

def signed (negative : Bool) (cs : List Char) : List Char := if negative then '-' :: cs else cs

def chars (l : Layout) (v : Float) : List Char :=
  match shape v with
  | .notNumber => l.notNumber.toList
  | .infinite negative => signed negative l.infinite.toList
  | .finite negative bits =>
    if isWhole bits && decide (wholePart bits < l.exactBelow) then
      signed (negative && wholePart bits != 0) (Nat.toDigits 10 (wholePart bits))
    else signed negative (l.magnitudeChars (Decimal.shortest bits))

def write (l : Layout) (v : Float) : String := String.ofList (l.chars v)

end Layout

end Gridcalc.Number
