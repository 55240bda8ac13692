import Gridcalc.Formula.Basic
import Gridcalc.Number.Layout
import Gridcalc.Text.Digit

/-! # Rendering formulas

The text of a tree, without `=`. An operand stands in parentheses if its operator binds more
loosely than the one around it, or equally loosely on the side on which the grammar would not
group it. Numbers are written positionally, for tokens know no exponents, and a subtraction of
something that starts with a digit gets blanks, for a minus sign before a digit belongs to the
number.
-/

namespace Gridcalc.Formula

def numberLayout : Number.Layout where
  pointZero := false
  notNumber := "NaN"
  infinite := "Infinity"

/-- How tightly an operator binds; unknown ones bind loosest. -/
def precedence (operator : String) : Nat :=
  if operator = "^" then 3
  else if operator = "*" ∨ operator = "/" then 2
  else if operator = "+" ∨ operator = "-" then 1
  else 0

def needsParens (parent : String) (isRight : Bool) : Formula → Bool
  | .binary operator _ _ =>
    if precedence operator = precedence parent then isRight != (parent == "^")
    else decide (precedence operator < precedence parent)
  | _ => false

def isOperation : Formula → Bool
  | .binary .. => true
  | .unary .. => true
  | _ => false

def parenthesised (when : Bool) (cs : List Char) : List Char :=
  if when then '(' :: cs ++ [')'] else cs

def startsWithDigit (cs : List Char) : Bool := (cs.head?.map Text.isDigitLike).getD false

mutual
def renderChars : Formula → List Char
  | .number v => numberLayout.chars v
  | .text s => '"' :: s.toList ++ ['"']
  | .cell r => r.toList
  | .range a b => a.toList ++ ':' :: b.toList
  | .binary operator left right =>
    let l := parenthesised (needsParens operator false left) (renderChars left)
    let r := parenthesised (needsParens operator true right) (renderChars right)
    if operator = "-" ∧ startsWithDigit r = true then l ++ " - ".toList ++ r
    else l ++ operator.toList ++ r
  | .unary operator operand =>
    operator.toList ++ parenthesised (isOperation operand) (renderChars operand)
  | .call name arguments => name.toList ++ '(' :: renderArguments arguments ++ [')']

def renderArguments : List Formula → List Char
  | [] => []
  | [f] => renderChars f
  | f :: fs => renderChars f ++ ',' :: renderArguments fs
end

def render (f : Formula) : String := String.ofList (renderChars f)

end Gridcalc.Formula
