import Gridcalc.Number.Decimal
import Gridcalc.Text.Blank
import Gridcalc.Text.Digit

/-! # Numerals

Reading numbers from text. A numeral is a run of digits with at most one point, or a point
followed by digits, and an optional exponent. `numericPrefix?` reads the longest numeral that
a text starts with; `float?` and `int?` read a text as a whole.
-/

namespace Gridcalc.Number

def takeSign : List Char → Bool × List Char
  | '-' :: cs => (true, cs)
  | '+' :: cs => (false, cs)
  | cs => (false, cs)

def signedInt (negative : Bool) (n : Nat) : Int := if negative then -(n : Int) else n

/-- An exponent in the given digits, if one with at least one digit follows; otherwise nothing
is taken. -/
def takeExponent? (isDigit : Char → Bool) : List Char → Option (Int × List Char)
  | [] => none
  | c :: cs =>
    let (negative, cs) := takeSign cs
    let digits := cs.takeWhile isDigit
    if (c = 'e' ∨ c = 'E') ∧ digits ≠ [] then
      some (signedInt negative (Text.digitsValue digits), cs.dropWhile isDigit)
    else none

def takeFraction : List Char → List Char × List Char
  | '.' :: cs => (cs.takeWhile Text.isDigit, cs.dropWhile Text.isDigit)
  | cs => ([], cs)

/-- The longest numeral without sign at the head of a text, and what follows it. -/
def takeDecimal? (cs : List Char) : Option (Decimal × List Char) :=
  let whole := cs.takeWhile Text.isDigit
  let (fraction, rest) := takeFraction (cs.dropWhile Text.isDigit)
  if whole = [] ∧ fraction = [] then none
  else
    let (exponent, rest) := (takeExponent? Text.isDigit rest).getD (0, rest)
    some (⟨Text.digitsValue (whole ++ fraction), exponent - fraction.length⟩, rest)

def infinityWord : List Char := "Infinity".toList

/-- The value of the longest numeral, or word for infinity, that a text starts with after
blanks, and what follows it. -/
def takeNumber? (cs : List Char) : Option (Float × List Char) :=
  let (negative, cs) := takeSign (cs.dropWhile Text.isBlank)
  if infinityWord.isPrefixOf cs then some (infinity negative, cs.drop infinityWord.length)
  else (takeDecimal? cs).map fun (d, rest) => (d.toFloat negative, rest)

def numericPrefix? (s : String) : Option Float := (takeNumber? s.toList).map (·.1)

/-- Blanks that a number may have around it: all but the four information separators. -/
def isPadding (c : Char) : Bool :=
  Text.isBlank c && !(decide ('\x1c' ≤ c) && decide (c ≤ '\x1f'))

def trimPadding (cs : List Char) : List Char :=
  ((cs.dropWhile isPadding).reverse.dropWhile isPadding).reverse

/-- Removes underscores, each of which has to stand between two digits. -/
def ungroup? (afterDigit : Bool) : List Char → Option (List Char)
  | [] => some []
  | '_' :: cs =>
    if afterDigit && (cs.head?.map Text.isDigit).getD false then ungroup? false cs else none
  | c :: cs => (ungroup? (Text.isDigit c) cs).map (c :: ·)

def magnitude? (negative : Bool) (cs : List Char) : Option Float :=
  let word := String.ofList (cs.map Char.toLower)
  if word = "inf" ∨ word = "infinity" then some (infinity negative)
  else if word = "nan" then some notNumber
  else
    match takeDecimal? cs with
    | some (d, []) => some (d.toFloat negative)
    | _ => none

/-- Reads a whole text as a double: a signed numeral, or a word for infinity or for no number. -/
def float? (s : String) : Option Float := do
  let (negative, cs) := takeSign (← ungroup? false (trimPadding s.toList))
  magnitude? negative cs

def int? (s : String) : Option Int := do
  let (negative, cs) := takeSign (← ungroup? false (trimPadding s.toList))
  if cs ≠ [] ∧ cs.all Text.isDigit then some (signedInt negative (Text.digitsValue cs)) else none

end Gridcalc.Number
