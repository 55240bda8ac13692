import Gridcalc.Document.SheetFile
import Gridcalc.Journal.Project
import Gridcalc.Journal.Read
import Gridcalc.Sheet.Load

/-! # Outcomes

What a command prints, what it leaves on the disk, and why it failed if it did.
-/

namespace Gridcalc.CommandLine

inductive Failure where
  /-- The command line is not used as it should be. -/
  | usage
  /-- A path cannot have the null character in it. -/
  | nullCharacter
  /-- There is a sentence about what is wrong. -/
  | message (sentence : String)
  | project (fault : ProjectFault)
  | sheetFile (e : SheetFileError)
  | spec (e : SpecError)
  | read (fault : ReadFault)
  /-- The event has a level that cannot be listed. -/
  | unlisted
deriving DecidableEq, Repr

structure Outcome where
  disk : Disk
  output : String := ""
  failure : Option Failure := none

def Outcome.failed (d : Disk) (f : Failure) : Outcome := ⟨d, "", some f⟩

def Outcome.exitCode (o : Outcome) : Nat :=
  match o.failure with
  | none => 0
  | some .usage => 2
  | some _ => 1

def afterControl? : List Char → Option (List Char)
  | '\x1b' :: '[' :: cs =>
    match cs.dropWhile fun c => c == ';' || c == '?' || Text.isAsciiDigit c with
    | c :: rest => if c.isAlpha then some rest else none
    | [] => none
  | _ => none

theorem length_afterControl?_lt {cs rest : List Char} (h : afterControl? cs = some rest) :
    rest.length < cs.length := by
  unfold afterControl? at h
  split at h
  · rename_i cs'
    have := (List.dropWhile_sublist (fun c => c == ';' || c == '?' || Text.isAsciiDigit c)
      (l := cs')).length_le
    split at h <;> simp_all
    omega
  · simp at h

def plainChars (cs : List Char) : List Char :=
  match _h : afterControl? cs with
  | some rest => plainChars rest
  | none =>
    match cs with
    | [] => []
    | c :: cs => c :: plainChars cs
termination_by cs.length
decreasing_by
  · exact length_afterControl?_lt _h
  · simp

def plain (s : String) : String := String.ofList (plainChars s.toList)

def printed (line : String) : String := line ++ "\n"

def padRight (width : Nat) (s : String) : String :=
  s ++ String.ofList (List.replicate (width - s.length) ' ')

def padLeft (width : Nat) (s : String) : String :=
  String.ofList (List.replicate (width - s.length) ' ') ++ s

end Gridcalc.CommandLine
