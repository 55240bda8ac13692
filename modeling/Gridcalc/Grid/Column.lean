import Gridcalc.Text.Upper

/-! # Column letters

Columns count A, B, …, Z, AA, AB, … : base 26 without a zero digit. Any text can be read as
letters; only A to Z are ever written.
-/

namespace Gridcalc.Column

/-- The weight of one letter, A being one. -/
def weight (c : Char) : Int := (c.toNat : Int) - 64

/-- The zero-based column that the letters name, in either case. -/
def index (letters : String) : Int :=
  (Text.upperChars letters.toList).foldl (fun i c => i * 26 + weight c) 0 - 1

def letter (n : Nat) : Char := Char.ofNat (65 + n % 26)

/-- The letters of the `n`-th column, counted from one. -/
def lettersFrom (n : Nat) : List Char :=
  if n = 0 then [] else lettersFrom ((n - 1) / 26) ++ [letter (n - 1)]
termination_by n
decreasing_by omega

/-- The letters of a zero-based column; left of the grid there are none. -/
def letters (index : Int) : String := String.ofList (lettersFrom (index + 1).toNat)

end Gridcalc.Column
