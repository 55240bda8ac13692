import Gridcalc.Document.Datum
import Gridcalc.Number.Numeral

/-! # Data as integers

Documents may give an integer as a number of any kind or as a text; the fraction of a number is
cut off.
-/

namespace Gridcalc.Datum

inductive IntegerFault where
  /-- Neither a number nor a text. -/
  | wrongKind
  /-- A text or a number that denotes no integer. -/
  | notNumeric
  | infinite
deriving DecidableEq, Repr

def toInt : Datum → Except IntegerFault Int
  | .bool b => .ok (if b then 1 else 0)
  | .int i => .ok i
  | .float v =>
    match Number.shape v with
    | .notNumber => .error .notNumeric
    | .infinite _ => .error .infinite
    | .finite negative bits => .ok (Number.signedInt negative (Number.wholePart bits))
  | .text s =>
    match Number.int? s with
    | some i => .ok i
    | none => .error .notNumeric
  | _ => .error .wrongKind

end Gridcalc.Datum
