import Gridcalc.Json.Basic

/-! # Clipping

Typed texts are of any length; an event keeps no more than the beginning of each. Keys are kept.
-/

namespace Gridcalc

def clipLength : Nat := 256

def clipText (s : String) : String :=
  if s.length ≤ clipLength then s
  else String.ofList (s.toList.take clipLength) ++ "...[truncated]"

def clipMembers (members : List (String × Json)) : List (String × Json) :=
  Json.mapMembers clipText members

end Gridcalc
