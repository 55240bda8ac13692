import Gridcalc.Formula.Parse
import Gridcalc.Formula.Render
import Gridcalc.Grid.Reference

/-! # Shifting formulas

What a copy does to a formula: every reference moves by the distance of the copy, markers
permitting. A reference that would leave the grid makes the shift fail with that reference; a
text that is no reference is left alone. A host's limits on open calls and on digits are left out
here; `shiftWithin` has them.
-/

namespace Gridcalc

/-- A shift of the reference text; `none` if it would leave the grid. -/
def Reference.shiftText? (text : String) (rows columns : Int) : Option String :=
  match Reference.ofText? text with
  | none => some text
  | some r =>
    let moved := r.shift rows columns
    if moved.row < 0 ∨ moved.column < 0 then none else some moved.toText

namespace Formula

def shiftReference (text : String) (rows columns : Int) : Except String String :=
  match Reference.shiftText? text rows columns with
  | some moved => .ok moved
  | none => .error text

mutual
def shift (rows columns : Int) : Formula → Except String Formula
  | .cell r =>
    match shiftReference r rows columns with
    | .error e => .error e
    | .ok r => .ok (.cell r)
  | .range a b =>
    match shiftReference a rows columns with
    | .error e => .error e
    | .ok a =>
      match shiftReference b rows columns with
      | .error e => .error e
      | .ok b => .ok (.range a b)
  | .binary operator left right =>
    match shift rows columns left with
    | .error e => .error e
    | .ok left =>
      match shift rows columns right with
      | .error e => .error e
      | .ok right => .ok (.binary operator left right)
  | .unary operator operand =>
    match shift rows columns operand with
    | .error e => .error e
    | .ok operand => .ok (.unary operator operand)
  | .call name arguments =>
    match shiftAll rows columns arguments with
    | .error e => .error e
    | .ok arguments => .ok (.call name arguments)
  | f => .ok f

def shiftAll (rows columns : Int) : List Formula → Except String (List Formula)
  | [] => .ok []
  | f :: fs =>
    match shift rows columns f with
    | .error e => .error e
    | .ok f =>
      match shiftAll rows columns fs with
      | .error e => .error e
      | .ok fs => .ok (f :: fs)
end

/-- The text of a formula as it reads after a copy by the given distance. A text that is no
formula, and one of whose references would leave the grid, is copied as it stands. -/
def shiftText (text : String) (rows columns : Int) : String :=
  match parse text with
  | .error _ => text
  | .ok f =>
    match f.shift rows columns with
    | .error _ => text
    | .ok moved => String.ofList ('=' :: renderChars moved)

end Formula

end Gridcalc
