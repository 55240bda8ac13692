/-! # Pieces

A text cut at separators, and the characters that end a line.
-/

namespace Gridcalc.Text

def pieces (separates : Char → Bool) (cs : List Char) : List (List Char) :=
  match _h : cs.dropWhile (!separates ·) with
  | [] => [cs]
  | _ :: rest => cs.takeWhile (!separates ·) :: pieces separates rest
termination_by cs.length
decreasing_by
  have hle := (List.dropWhile_sublist (!separates ·) (l := cs)).length_le
  rw [_h, List.length_cons] at hle
  omega

def isLineBreak (c : Char) : Bool :=
  ('\n' ≤ c && c ≤ '\r') || ('\x1c' ≤ c && c ≤ '\x1e') || c == '\x85' || c == '\u2028' ||
    c == '\u2029'

/-- The lines of a text. A break of two characters counts as two, with an empty line between
them. -/
def lines (cs : List Char) : List (List Char) := pieces isLineBreak cs

end Gridcalc.Text
