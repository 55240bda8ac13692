import Gridcalc.Journal.Basic

/-! # Recorders

A disk together with the journal that notices go to, if there is one. Recording never fails: an
event that cannot be written is lost.
-/

namespace Gridcalc

structure Recorder where
  disk : Disk
  journal : Option Journal := none
  /-- What the journals that are still to be opened refuse. -/
  refuses : Event → Bool := fun _ => false

namespace Recorder

def record (r : Recorder) (e : Event) (sheet : Option String) : Recorder :=
  match r.journal with
  | none => r
  | some j => { r with disk := (j.write r.disk e.clipped sheet).1 }

def recordNotices (r : Recorder) (stamp : String) (sheet : Option String) (ns : List Notice) :
    Recorder :=
  ns.foldl (fun r n => r.record (Event.ofNotice stamp n) sheet) r

end Recorder

end Gridcalc
