import Gridcalc.Journal.Basic
import Gridcalc.Json.Read
import Gridcalc.Text.Blank

/-! # Reading journals

Only the end of a file is read. If the file is longer, the line in which the reading starts is
dropped, for it may have begun earlier. Lines that are not JSON are passed over.
-/

namespace Gridcalc

inductive ReadFault where
  | disk (fault : DiskFault)
  /-- A negative number of octets cannot be read. -/
  | negativeLength
  /-- The place to read from is beyond all files. -/
  | placeTooLarge
  /-- A filter met a line without the members it asks for. -/
  | notAnObject
deriving DecidableEq, Repr

/-- Which events are wanted; an empty text asks for nothing in particular. -/
structure Query where
  level : Option String := none
  kind : Option String := none
  cell : Option String := none
  limit : Int := 200
deriving DecidableEq, Repr

namespace Journal

def afterLineBreak (octets : List UInt8) : List UInt8 :=
  match octets.dropWhile (· != 0x0a) with
  | [] => octets
  | _ :: rest => rest

/-- The last `n` octets, without the beginning of a line that is cut. -/
def tail (n : Nat) (octets : List UInt8) : List UInt8 :=
  if octets.length ≤ n then octets else afterLineBreak (octets.drop (octets.length - n))

def window (j : Journal) (octets : List UInt8) : Except ReadFault (List UInt8) :=
  if 0 ≤ j.tailBytes then .ok (tail j.tailBytes.toNat octets)
  else if (Nat.pow 2 63 : Nat) ≤ octets.length - j.tailBytes then .error .placeTooLarge
  else .error .negativeLength

/-- The values in a text with one JSON value a line. -/
def valuesIn (cs : List Char) : List Json :=
  (Text.lines cs).filterMap fun line => Json.parse? (String.ofList (Text.trimChars line))

def valuesAt (j : Journal) (d : Disk) (p : Path) : Except ReadFault (List Json) :=
  match d.find? p with
  | .error fault => .error (.disk fault)
  | .ok none => .ok []
  | .ok (some .folder) => .error (.disk .isFolder)
  | .ok (some e) => (j.window e.octets).map fun tail => valuesIn (Text.Utf8.decode tail)

def isText (s : String) : Json → Bool
  | .text t => s == t
  | _ => false

def hasMember (key s : String) : Json → Except ReadFault Bool
  | .object members => .ok (isText s ((Json.member? key members).getD .null))
  | _ => .error .notAnObject

def isAbout (s : String) : Json → Except ReadFault Bool
  | .object members => hasMember "cell" s ((Json.member? "context" members).getD (.object []))
  | _ => .error .notAnObject

def select (wanted : Option String) (test : String → Json → Except ReadFault Bool)
    (events : List Json) : Except ReadFault (List Json) :=
  match wanted.filter (· != "") with
  | none => .ok events
  | some s => events.filterM (test s)

/-- The first so many; with a negative number, all but the last so many. -/
def cut (limit : Int) (events : List Json) : List Json :=
  if 0 ≤ limit then events.take limit.toNat else events.take (events.length - limit.natAbs)

def mostEvents : Int := 2000

def readCommon (j : Journal) (d : Disk) (q : Query) : Except ReadFault (List Json) := do
  let events ← j.valuesAt d j.commonFile
  let events ← select q.level (hasMember "level") events
  let events ← select q.kind (hasMember "event_type") events
  let events ← select q.cell isAbout events
  return cut (min q.limit mostEvents) events.reverse

def readSheet (j : Journal) (d : Disk) (id : String) : Except ReadFault (List Json) :=
  if isSafe id then j.valuesAt d (j.sheetFile id) else .ok []

end Journal

end Gridcalc
