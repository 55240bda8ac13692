import Mathlib
import Gridcalc.Number.Binary

/-! # Comparing doubles

The doubles that are numbers are ordered by sign, exponent and mantissa, the two zeros standing at
one place. What is no number has no place in this order: it is neither below anything nor equal to
anything.
-/

namespace Gridcalc.Number

open Float.Model (UnpackedFloat)

/-- Where a number stands among the others. -/
def rank : UnpackedFloat → ℤ ×ₗ ℤ ×ₗ ℤ
  | .infinity .negative => toLex (-2, toLex (0, 0))
  | .finite .negative m e _ => toLex (-1, toLex (-e, -m))
  | .zero _ => toLex (0, toLex (0, 0))
  | .finite .positive m e _ => toLex (1, toLex (e, m))
  | .infinity .positive => toLex (2, toLex (0, 0))
  | .notANumber => toLex (0, toLex (0, 0))

theorem compare_toLex (s e m e' m' : ℤ) :
    compare (toLex (s, toLex (e, m)) : ℤ ×ₗ ℤ ×ₗ ℤ) (toLex (s, toLex (e', m'))) =
      (compare e e').then (compare m m') := by
  simp [Prod.Lex.compare_def, compareLex, compareOn]

theorem compare_neg (m n : ℤ) : compare (-m) (-n) = (compare m n).swap := by
  rw [← Std.OrientedCmp.eq_swap, ← cmp_eq_compare, ← cmp_eq_compare]
  exact StrictAnti.cmp_map_eq (fun _ _ => Int.neg_lt_neg) m n

theorem compare_natCast (m n : ℕ) : compare (m : ℤ) n = compare m n := by
  rw [← cmp_eq_compare, ← cmp_eq_compare]
  exact StrictMono.cmp_map_eq (fun _ _ => Int.ofNat_lt.mpr) m n

theorem compare_eq_compare_rank {f g : UnpackedFloat} (hf : f.isNaN = false)
    (hg : g.isNaN = false) : f.compare g = some (compare (rank f) (rank g)) := by
  cases f with
  | notANumber => cases hf
  | infinity s =>
    cases g with
    | notANumber => cases hg
    | infinity t => cases s <;> cases t <;> rfl
    | zero t => cases s <;> rfl
    | finite t n d _ => cases s <;> cases t <;> rfl
  | zero s =>
    cases g with
    | notANumber => cases hg
    | infinity t => cases t <;> rfl
    | zero t => rfl
    | finite t n d _ => cases t <;> rfl
  | finite s m e _ =>
    cases g with
    | notANumber => cases hg
    | infinity t => cases s <;> cases t <;> rfl
    | zero t => cases s <;> rfl
    | finite t n d _ =>
      cases s <;> cases t
      · rw [rank, rank, compare_toLex, compare_neg, compare_neg, compare_natCast,
          ← Ordering.swap_then]
        rfl
      · rfl
      · rfl
      · rw [rank, rank, compare_toLex, compare_natCast]
        rfl

theorem compare_of_isNaN {f g : UnpackedFloat} (h : f.isNaN = true ∨ g.isNaN = true) :
    f.compare g = none := by
  cases f with
  | notANumber => rw [UnpackedFloat.compare]
  | _ =>
    cases g with
    | notANumber => rfl
    | _ => rcases h with h | h <;> cases h

theorem compare_eq_some_iff {f g : UnpackedFloat} {o : Ordering} :
    f.compare g = some o ↔
      f.isNaN = false ∧ g.isNaN = false ∧ compare (rank f) (rank g) = o := by
  cases hf : f.isNaN with
  | true => simp [compare_of_isNaN (.inl hf)]
  | false =>
    cases hg : g.isNaN with
    | true => simp [compare_of_isNaN (.inr hg)]
    | false => simp [compare_eq_compare_rank hf hg]

/-- Where a double that is a number stands among the others. -/
def place (v : Float) : ℤ ×ₗ ℤ ×ₗ ℤ := rank v.toModel.unpack

variable {v w : Float}

theorem lt_iff_place_lt :
    v < w ↔ v.isNaN = false ∧ w.isNaN = false ∧ place v < place w := by
  have hlt : v < w ↔ v.toModel.unpack.compare w.toModel.unpack = some .lt := by
    change Float.lt v w = true ↔ _
    rw [Float.lt, decide_eq_true_iff]
    exact beq_iff_eq
  rw [hlt, compare_eq_some_iff, compare_lt_iff_lt]
  rfl

theorem beq_iff_place_eq :
    (v == w) = true ↔ v.isNaN = false ∧ w.isNaN = false ∧ place v = place w := by
  have heq : (v == w) = true ↔ v.toModel.unpack.compare w.toModel.unpack = some .eq := by
    change (v.toModel.unpack.compare w.toModel.unpack == some .eq) = true ↔ _
    exact beq_iff_eq
  rw [heq, compare_eq_some_iff, compare_eq_iff_eq]
  rfl

end Gridcalc.Number
