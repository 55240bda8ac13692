import Gridcalc.CommandLine.Run
import Gridcalc.Journal.Stamp
import Std.Time.DateTime.Timestamp

/-! # The program

Reads what there is at the places that the command line touches, runs the command on it, and
writes back what is new.
-/

namespace Gridcalc.CommandLine

def entryAt? (p : Path) : IO (Option Entry) := do
  try
    let path ← IO.FS.realPath p.toText
    if ← path.isDir then return some .folder
    return some (.file [(← IO.FS.readBinFile path).toList])
  catch _ => return none

def readDisk (paths : List Path) : IO Disk := do
  let mut d := Disk.empty
  for p in paths do
    if let some e ← entryAt? p then d := d.put (Place.ofPath p) e
  return d

/-- Writes what `d` has more than `before`. Files only ever grow. -/
def writeDisk (before d : Disk) : IO Unit := do
  for (name, e) in d.entries.toList do
    match e, before.entries[name]? with
    | .folder, none => IO.FS.createDirAll name
    | .file appended, known =>
      let added := appended.take (appended.length - (known.map Entry.pieces).getD 0)
      if !added.isEmpty then
        IO.FS.withFile name .append fun h => h.write ⟨added.reverse.flatten.toArray⟩
    | _, _ => pure ()

def now : IO String := do
  let nanoseconds := (← Std.Time.Timestamp.now).toNanosecondsSinceUnixEpoch.val
  return stampText (nanoseconds / 1000000000) (nanoseconds % 1000000000 / 1000).toNat

def execute (words : List String) : IO UInt32 := do
  let before ← readDisk (pathsOf words)
  let outcome := run (← now) before words
  writeDisk before outcome.disk
  (← IO.getStdout).putStr outcome.output
  if let some f := outcome.failure then (← IO.getStderr).putStr f.report
  return outcome.exitCode.toUInt32

end Gridcalc.CommandLine

def main (words : List String) : IO UInt32 := Gridcalc.CommandLine.execute words
