/-! # Formulas

The tree of a formula. References and operators are kept as written: a tree need not come from
a text, so an operator or a reference can be any text.
-/

namespace Gridcalc

inductive Formula where
  | number (value : Float)
  | text (value : String)
  | cell (reference : String)
  | range (first last : String)
  | binary (operator : String) (left right : Formula)
  | unary (operator : String) (operand : Formula)
  | call (name : String) (arguments : List Formula)
deriving Inhabited

namespace Formula

mutual
/-- Equality of trees in which numbers are compared by value, zero having no sign. -/
def agrees : Formula → Formula → Bool
  | .number v, .number w => v == w
  | .text s, .text t => s == t
  | .cell r, .cell q => r == q
  | .range a b, .range c d => a == c && b == d
  | .binary o l r, .binary p m s => o == p && agrees l m && agrees r s
  | .unary o f, .unary p g => o == p && agrees f g
  | .call n fs, .call m gs => n == m && agreesAll fs gs
  | _, _ => false

def agreesAll : List Formula → List Formula → Bool
  | [], [] => true
  | f :: fs, g :: gs => agrees f g && agreesAll fs gs
  | _, _ => false
end

end Formula

end Gridcalc
