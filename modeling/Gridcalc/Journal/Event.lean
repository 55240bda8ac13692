import Gridcalc.Journal.Clip
import Gridcalc.Json.Write
import Gridcalc.Sheet.Notice

/-! # Events

What the journal keeps of a notice: its parts, when it came, and the version of this format. An
event is written as one line of printable characters.
-/

namespace Gridcalc

structure Event where
  version : Int := 1
  stamp : String
  level : Level
  kind : NoticeKind
  context : List (String × Json) := []
  message : String := ""
  code : Option String := none

namespace Event

def ofNotice (stamp : String) (n : Notice) : Event where
  stamp := stamp
  level := n.level
  kind := n.kind
  context := n.context
  message := n.message
  code := n.code?

def clipped (e : Event) : Event := { e with context := clipMembers e.context }

def toJson (e : Event) : Json :=
  .object [
    ("context", .object e.context),
    ("error_code", (e.code.map .text).getD .null),
    ("event_type", .text e.kind.label),
    ("level", .text e.level.label),
    ("message", .text e.message),
    ("schema_version", .int e.version),
    ("ts", .text e.stamp)]

def lineChars (e : Event) : List Char := e.toJson.sorted.lineChars ++ ['\n']

end Event

end Gridcalc
