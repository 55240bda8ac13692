import Gridcalc.Formula.Token
import Gridcalc.Grid.Reference

/-! # Limits

What a computation must not use up: the calls that a recursion has open at a time, and the digits
of an integer that is read from a text or written into one. The texts of formulas bound neither, so
both are parameters. A computation that exceeds one is broken off, and that goes on to its caller,
and to the caller's own, up to one who catches it. Of calls those of the recursive functions are
counted; the calls of fixed number that they make besides are taken to fit.
-/

namespace Gridcalc

inductive Overrun where
  | depth
  | digits
deriving DecidableEq, Repr

inductive Halt (ε : Type) where
  | error (e : ε)
  | overrun (o : Overrun)
deriving DecidableEq

/-- Makes a call if one more may be open, and lets it have what is left. -/
def Halt.call {ε α : Type} (n : Nat) (f : Nat → Except (Halt ε) α) : Except (Halt ε) α :=
  match n with
  | 0 => .error (.overrun .depth)
  | n + 1 => f n

/-- Why a target cannot be taken for a cell of the grid. -/
inductive TargetFault where
  | address (e : AddressError)
  /-- It would name a cell, but with more digits than can be read. -/
  | unreadable
deriving DecidableEq

inductive EditFault where
  | target (e : TargetFault)
  | overrun (o : Overrun)
  /-- A text could not be parsed for a reason that is not one of texts. -/
  | tokens (e : SyntaxError)
deriving DecidableEq

structure Limits where
  depth : Nat
  digits : Nat
  /-- What is said of a computation that was broken off. -/
  complaint : Overrun → String := fun _ => ""

/-- Whether at most `limit` digits follow each other, of which `run` came before the text. -/
def Text.runsWithin (limit : Nat) : Nat → List Char → Bool
  | _, [] => true
  | run, c :: cs =>
    if Text.isDigit c then decide (run < limit) && runsWithin limit (run + 1) cs
    else runsWithin limit 0 cs

namespace Limits

variable (l : Limits)

/-- Whether the numbers in the text can be read. -/
def reads (s : String) : Bool := Text.runsWithin l.digits 0 s.toList

def writes (i : Int) : Bool := decide ((Nat.toDigits 10 i.natAbs).length ≤ l.digits)

/-- The cell that A1 text names; none if its row cannot be read. -/
def address? (s : String) : Option Address := if l.reads s then Address.ofA1? s else none

def key (a : Address) : Except Overrun String :=
  if l.writes a.row && l.writes a.column then .ok a.key else .error .digits

def a1 (a : Address) : Except Overrun String :=
  if l.writes (a.row + 1) then .ok a.toA1 else .error .digits

def addressOfKey? (k : String) : Except Overrun (Option Address) :=
  match Address.ofKey? k with
  | none => .ok none
  | some a => if l.reads k then .ok (some a) else .error .digits

def keyOfReference? (ref : String) : Except Overrun (Option String) :=
  match l.address? (stripMarkers ref) with
  | none => .ok none
  | some a => (l.key a).map some

/-- The keys under which references are known to the graph; that of a text which names no cell is
the text. -/
def readKeys : List String → Except Overrun (List String)
  | [] => .ok []
  | ref :: refs =>
    match l.keyOfReference? ref with
    | .error o => .error o
    | .ok k => (readKeys refs).map (k.getD ref :: ·)

end Limits

end Gridcalc
