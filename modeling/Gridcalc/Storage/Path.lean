import Gridcalc.Text.Pieces

/-! # Paths

The way to a file: the names of the folders to go through, `..` for the folder above. Empty names
and single dots are dropped when a path is read.
-/

namespace Gridcalc

structure Path where
  absolute : Bool
  parts : List String
deriving DecidableEq, Repr, Inhabited

namespace Path

/-- The folder in which everything happens. -/
def here : Path := ⟨false, []⟩

def isAbsoluteText (s : String) : Bool := s.toList.head? == some '/'

def partsOf (s : String) : List String :=
  (Text.pieces (· == '/') s.toList).map String.ofList

def ofText (s : String) : Path where
  absolute := isAbsoluteText s
  parts := (partsOf s).filter fun part => part != "" && part != "."

def toText (p : Path) : String :=
  let joined := "/".intercalate p.parts
  if p.absolute then "/" ++ joined else if p.parts.isEmpty then "." else joined

def child (p : Path) (name : String) : Path := ⟨p.absolute, p.parts ++ [name]⟩

def parent (p : Path) : Path := ⟨p.absolute, p.parts.dropLast⟩

def name (p : Path) : String := p.parts.getLast?.getD ""

/-- The name without its last extension. A dot at either end of the name starts none. -/
def stem (p : Path) : String :=
  let reversed := p.name.toList.reverse
  let extension := reversed.takeWhile (· != '.')
  match reversed.dropWhile (· != '.') with
  | _ :: c :: cs => if extension.isEmpty then p.name else String.ofList (c :: cs).reverse
  | _ => p.name

/-- The longest text, in octets, that can be followed as a path. -/
def longestText : Nat := 4095

/-- The longest name, in octets, that a file can have. -/
def longestName : Nat := 255

def isTooLong (p : Path) : Bool := decide (longestText < p.toText.utf8ByteSize)

end Path

end Gridcalc
