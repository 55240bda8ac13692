import Gridcalc.Formula.Evaluate
import Gridcalc.Formula.Shift
import Gridcalc.Limits.Parse

/-! # Formulas within limits

Evaluating, shifting and rendering a tree goes down it call by call. Whatever breaks an evaluation
off is caught where it began and becomes the verdict; what breaks off a parse, a shift or a
rendering is not caught.
-/

namespace Gridcalc

def Run.call {α : Type} (l : Limits) (n : Nat) (f : Nat → Run α) : Run α :=
  match n with
  | 0 => .fail (.interrupted (l.complaint .depth))
  | n + 1 => f n

namespace Formula

def readRangeWithin (l : Limits) (lookup : Lookup) (first last : String) : Run Datum := do
  Run.consult first
  Run.consult last
  match l.address? (stripMarkers first) with
  | none => Run.fail (.reference first)
  | some a =>
    match l.address? (stripMarkers last) with
    | none => Run.fail (.reference last)
    | some b =>
      let ds ← readCells lookup (Address.rectangle a b)
      return .list ds

mutual
/-- Evaluates with at most `n` calls open. An operation takes a second call for its operands, a
function a second and a third one for its arguments. -/
def evaluateWithin (l : Limits) (lookup : Lookup) (n : Nat) : Formula → Run Datum
  | .number v => Run.call l n fun _ => return .float v
  | .text s => Run.call l n fun _ => return .text s
  | .cell ref => Run.call l n fun _ => readCell lookup ref
  | .range first last => Run.call l n fun _ => readRangeWithin l lookup first last
  | .binary operator left right => Run.call l n fun n => Run.call l n fun n => do
    let x ← Run.ofExcept (← evaluateWithin l lookup n left).toNumber
    let y ← Run.ofExcept (← evaluateWithin l lookup n right).toNumber
    let z ← Run.ofExcept (applyBinary operator x y)
    return .float z
  | .unary operator operand => Run.call l n fun n => do
    let x ← Run.ofExcept (← evaluateWithin l lookup n operand).toNumber
    let z ← Run.ofExcept (applyUnary operator x)
    return .float z
  | .call name arguments =>
    Run.call l n fun n => Run.call l n fun n => do
      let vs ← Run.call l n fun n => collectWithin l lookup n arguments
      let z ← Run.ofExcept (applyCall name vs)
      return .float z

def collectWithin (l : Limits) (lookup : Lookup) (n : Nat) : List Formula → Run (List Float)
  | [] => return []
  | f :: fs => do
    let d ← evaluateWithin l lookup n f
    let vs ← Run.ofExcept (Datum.numbers d.arguments)
    let ws ← collectWithin l lookup n fs
    return vs ++ ws
end

def resultWithin (l : Limits) (lookup : Lookup) (f : Formula) : Evaluation :=
  let run := f.evaluateWithin l lookup l.depth
  ⟨Verdict.ofOutcome run.outcome, Text.firsts run.consulted⟩

/-- The shifted text; an error names the reference that left the grid. -/
def shiftReferenceWithin (l : Limits) (text : String) (rows columns : Int) :
    Except (Halt String) String :=
  if l.reads text then
    match Reference.ofText? text with
    | none => .ok text
    | some r =>
      let moved := r.shift rows columns
      if moved.row < 0 ∨ moved.column < 0 then .error (.error text)
      else if l.writes (moved.row + 1) then .ok moved.toText
      else .error (.overrun .digits)
  else .error (.overrun .digits)

mutual
/-- Shifts with at most `n` calls open; going through arguments is a call of its own. -/
def shiftWithin (l : Limits) (rows columns : Int) (n : Nat) : Formula → Except (Halt String) Formula
  | .cell r => Halt.call n fun _ => do
    let r ← shiftReferenceWithin l r rows columns
    return .cell r
  | .range a b => Halt.call n fun _ => do
    let a ← shiftReferenceWithin l a rows columns
    let b ← shiftReferenceWithin l b rows columns
    return .range a b
  | .binary operator left right => Halt.call n fun n => do
    let left ← shiftWithin l rows columns n left
    let right ← shiftWithin l rows columns n right
    return .binary operator left right
  | .unary operator operand => Halt.call n fun n => do
    let operand ← shiftWithin l rows columns n operand
    return .unary operator operand
  | .call name arguments => Halt.call n fun n => do
    let arguments ← Halt.call n fun n => shiftAllWithin l rows columns n arguments
    return .call name arguments
  | f => Halt.call n fun _ => .ok f

def shiftAllWithin (l : Limits) (rows columns : Int) (n : Nat) :
    List Formula → Except (Halt String) (List Formula)
  | [] => return []
  | f :: fs => do
    let f ← shiftWithin l rows columns n f
    let fs ← shiftAllWithin l rows columns n fs
    return f :: fs
end

mutual
/-- The calls that are open at once when the tree is rendered, which goes through all of it. -/
def height : Formula → Nat
  | .binary _ left right => max left.height right.height + 1
  | .unary _ operand => operand.height + 1
  | .call _ arguments => heightOfAll arguments + 2
  | _ => 1

def heightOfAll : List Formula → Nat
  | [] => 0
  | f :: fs => max f.height (heightOfAll fs)
end

def shiftTextWithin (l : Limits) (text : String) (rows columns : Int) : Except EditFault String :=
  match parseWithin l.depth text with
  | .error (.overrun o) => .error (.overrun o)
  | .error (.error e) => if e.fault.isOfText then .ok text else .error (.tokens e)
  | .ok f =>
    match f.shiftWithin l rows columns l.depth with
    | .error (.overrun o) => .error (.overrun o)
    | .error (.error _) => .ok text
    | .ok moved =>
      if moved.height ≤ l.depth then .ok (String.ofList ('=' :: renderChars moved))
      else .error (.overrun .depth)

def computeWithin (l : Limits) (lookup : Lookup) (s : String) : Except EditFault Evaluation :=
  match parseWithin l.depth s with
  | .error (.overrun o) => .error (.overrun o)
  | .error (.error e) => if e.fault.isOfText then .ok ⟨.malformed e, []⟩ else .error (.tokens e)
  | .ok f => .ok (f.resultWithin l lookup)

end Formula

end Gridcalc
