import Gridcalc.Json.Basic
import Gridcalc.Number.Layout
import Gridcalc.Text.Quoted

/-! # Data

What a document or a cell lookup may hold. Mappings keep the order of their entries, and any
datum can be a key; numbers that are equal are one key, whatever their kind.
-/

namespace Gridcalc

inductive Datum where
  | null
  | bool (b : Bool)
  | int (i : Int)
  | float (v : Float)
  | text (s : String)
  | list (items : List Datum)
  | mapping (entries : List (Datum × Datum))
deriving Inhabited

namespace Datum

def integer? : Datum → Option Int
  | .bool b => some (if b then 1 else 0)
  | .int i => some i
  | .float v =>
    match Number.shape v with
    | .finite negative bits =>
      if Number.isWhole bits then
        some (if negative then -(Number.wholePart bits : Int) else Number.wholePart bits)
      else none
    | _ => none
  | _ => none

def sameKey (a b : Datum) : Bool :=
  match a, b with
  | .null, .null => true
  | .text s, .text t => s == t
  | a, b =>
    match a.integer?, b.integer? with
    | some i, some j => i == j
    | none, none =>
      match a, b with
      | .float v, .float w => v == w
      | _, _ => false
    | _, _ => false

def setEntry (key value : Datum) : List (Datum × Datum) → List (Datum × Datum)
  | [] => [(key, value)]
  | (k, v) :: entries =>
    if sameKey k key then (k, value) :: entries else (k, v) :: setEntry key value entries

def ofPairs (pairs : List (Datum × Datum)) : Datum :=
  .mapping (pairs.foldl (fun entries p => setEntry p.1 p.2 entries) [])

def find? (key : String) (entries : List (Datum × Datum)) : Option Datum :=
  (entries.find? fun e => sameKey e.1 (.text key)).map (·.2)

def isTrue : Datum → Bool
  | .null => false
  | .bool b => b
  | .int i => i != 0
  | .float v => v != 0.0
  | .text s => s != ""
  | .list items => !items.isEmpty
  | .mapping entries => !entries.isEmpty

def floatLayout : Number.Layout where
  lowest := some (-4)
  highest := some 15
  pointZero := true
  exponentWidth := 2
  notNumber := "nan"
  infinite := "inf"

def scalarText : Datum → String
  | .null => "None"
  | .bool b => if b then "True" else "False"
  | .int i => toString i
  | .float v => floatLayout.write v
  | .text s => Text.quoted s
  | .list _ => "[]"
  | .mapping _ => "\x7b\x7d"

mutual
def inner : Datum → String
  | .list items => "[" ++ innerItems items ++ "]"
  | .mapping entries => "\x7b" ++ innerEntries entries ++ "\x7d"
  | d => scalarText d

def innerItems : List Datum → String
  | [] => ""
  | [d] => inner d
  | d :: ds => inner d ++ ", " ++ innerItems ds

def innerEntries : List (Datum × Datum) → String
  | [] => ""
  | [(k, v)] => inner k ++ ": " ++ inner v
  | (k, v) :: es => inner k ++ ": " ++ inner v ++ ", " ++ innerEntries es
end

/-- The datum as text; a text is itself. -/
def display : Datum → String
  | .text s => s
  | d => inner d

mutual
def ofJson : Json → Datum
  | .null => .null
  | .bool b => .bool b
  | .int i => .int i
  | .float v => .float v
  | .text s => .text s
  | .list items => .list (ofJsonItems items)
  | .object members => .mapping (ofJsonMembers members)

def ofJsonItems : List Json → List Datum
  | [] => []
  | j :: js => ofJson j :: ofJsonItems js

def ofJsonMembers : List (String × Json) → List (Datum × Datum)
  | [] => []
  | (k, v) :: ms => (.text k, ofJson v) :: ofJsonMembers ms
end

end Datum

end Gridcalc
