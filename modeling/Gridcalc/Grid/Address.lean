import Gridcalc.Grid.Column
import Gridcalc.Text.Digit
import Gridcalc.Text.Quoted

/-! # Addresses

A position in the grid, counted from zero, and its two written forms: A1 text for people and
storage keys such as `r0c2` for the dependency graph. Positions may be negative while they are
being computed; `InGrid` says which ones a grid has.
-/

namespace Gridcalc

structure Address where
  row : Int
  column : Int
deriving DecidableEq, Repr, Inhabited

namespace Address

def toA1 (a : Address) : String := Column.letters a.column ++ toString (a.row + 1)

def key (a : Address) : String := "r" ++ toString a.row ++ "c" ++ toString a.column

/-- The letters of a column name, whichever case: those whose simple case variants are A to Z. -/
def isColumnLetter (c : Char) : Bool :=
  (decide ('a' ≤ c) && decide (c ≤ 'z')) || (decide ('A' ≤ c) && decide (c ≤ 'Z')) ||
    c == '\u0130' || c == '\u0131' || c == '\u017f' || c == '\u212a'

/-- A text may end in one line break that is not part of it. -/
def atEnd (cs : List Char) : Bool := cs == [] || cs == ['\n']

def ofA1Chars? (cs : List Char) : Option Address :=
  let letters := cs.takeWhile isColumnLetter
  let rest := cs.dropWhile isColumnLetter
  let number := Text.digitsValue (rest.takeWhile Text.isDigit)
  if letters != [] && number != 0 && atEnd (rest.dropWhile Text.isDigit) then
    some ⟨(number : Int) - 1, Column.index (String.ofList letters)⟩
  else none

/-- Reads A1 text without `$` markers; rows start at one. -/
def ofA1? (s : String) : Option Address := ofA1Chars? s.toList

def ofKeyChars? : List Char → Option Address
  | 'r' :: cs =>
    let row := cs.takeWhile Text.isDigit
    match cs.dropWhile Text.isDigit with
    | 'c' :: cs =>
      let column := cs.takeWhile Text.isDigit
      if row != [] && column != [] && atEnd (cs.dropWhile Text.isDigit) then
        some ⟨Text.digitsValue row, Text.digitsValue column⟩
      else none
    | _ => none
  | _ => none

def ofKey? (s : String) : Option Address := ofKeyChars? s.toList

def InGrid (a : Address) (rows columns : Int) : Prop :=
  0 ≤ a.column ∧ a.column < columns ∧ 0 ≤ a.row ∧ a.row < rows

instance (a : Address) (rows columns : Int) : Decidable (a.InGrid rows columns) :=
  inferInstanceAs (Decidable (_ ∧ _ ∧ _ ∧ _))

def span (first last : Int) : List Int :=
  (List.range (last + 1 - first).toNat).map fun (i : Nat) => first + (i : Int)

/-- The cells of the rectangle with the two given corners, row by row. -/
def rectangle (a b : Address) : List Address :=
  (span (min a.row b.row) (max a.row b.row)).flatMap fun row =>
    (span (min a.column b.column) (max a.column b.column)).map fun column => ⟨row, column⟩

end Address

inductive AddressError where
  | malformed (text : String)
  | outside (address : Address) (rows columns : Int)
deriving DecidableEq, Repr

def AddressError.message : AddressError → String
  | malformed text => "Invalid cell address: " ++ Text.quoted text
  | outside a rows columns =>
    "Cell " ++ a.toA1 ++ " is outside the " ++ toString rows ++ "x" ++ toString columns ++ " grid"

def Address.read (s : String) : Except AddressError Address :=
  match ofA1? s with
  | some a => .ok a
  | none => .error (.malformed s)

def keyToA1? (key : String) : Option String := (Address.ofKey? key).map Address.toA1

end Gridcalc
