import Gridcalc.Grid.Address

/-! # References

A cell as a formula names it: a position in which column and row may each be pinned by a `$`.
Copying a formula moves what is not pinned.
-/

namespace Gridcalc

structure Reference where
  column : Int
  row : Int
  absoluteColumn : Bool := false
  absoluteRow : Bool := false
deriving DecidableEq, Repr, Inhabited

namespace Reference

def address (r : Reference) : Address := ⟨r.row, r.column⟩

def marker (absolute : Bool) : String := if absolute then "$" else ""

def toText (r : Reference) : String :=
  marker r.absoluteColumn ++ Column.letters r.column ++
    (marker r.absoluteRow ++ toString (r.row + 1))

def takeMarker : List Char → Bool × List Char
  | '$' :: cs => (true, cs)
  | cs => (false, cs)

def ofChars? (cs : List Char) : Option Reference :=
  let (absoluteColumn, cs) := takeMarker cs
  let letters := cs.takeWhile Address.isColumnLetter
  let (absoluteRow, cs) := takeMarker (cs.dropWhile Address.isColumnLetter)
  let number := Text.digitsValue (cs.takeWhile Text.isDigit)
  if letters != [] && number != 0 && Address.atEnd (cs.dropWhile Text.isDigit) then
    some ⟨Column.index (String.ofList letters), (number : Int) - 1, absoluteColumn, absoluteRow⟩
  else none

def ofText? (s : String) : Option Reference := ofChars? s.toList

/-- The reference after a copy by the given distance; what is pinned stays. -/
def shift (r : Reference) (rows columns : Int) : Reference :=
  { r with
    column := if r.absoluteColumn then r.column else r.column + columns
    row := if r.absoluteRow then r.row else r.row + rows }

end Reference

def stripMarkers (s : String) : String := String.ofList (s.toList.filter (· != '$'))

def keyOfReference? (s : String) : Option String :=
  (Address.ofA1? (stripMarkers s)).map Address.key

end Gridcalc
