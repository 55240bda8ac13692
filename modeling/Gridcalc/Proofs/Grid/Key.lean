import Gridcalc.Grid.Address
import Gridcalc.Proofs.Text.Digit

/-! # Storage keys

A position with no negative part can be read back from its key, so different cells of a grid
never share one.
-/

namespace Gridcalc

namespace Address

theorem toList_key (m n : Nat) :
    (key ⟨m, n⟩).toList = 'r' :: (Nat.toDigits 10 m ++ 'c' :: Nat.toDigits 10 n) := by
  have h (i : Nat) : (Int.repr i).toList = Nat.toDigits 10 i := Nat.toList_repr
  simp [key, h]

theorem ofKey?_key {a : Address} (hr : 0 ≤ a.row) (hc : 0 ≤ a.column) : ofKey? a.key = some a := by
  obtain ⟨row, column⟩ := a
  obtain ⟨m, rfl⟩ := Int.eq_ofNat_of_zero_le hr
  obtain ⟨n, rfl⟩ := Int.eq_ofNat_of_zero_le hc
  have hm : ∀ c ∈ Nat.toDigits 10 m, Text.isDigit c = true := fun _ =>
    Text.isDigit_of_mem_toDigits
  have hn : ∀ c ∈ Nat.toDigits 10 n, Text.isDigit c = true := fun _ =>
    Text.isDigit_of_mem_toDigits
  have hmark : ¬ Text.isDigit 'c' = true := by decide
  have hend : (Nat.toDigits 10 n).takeWhile Text.isDigit = Nat.toDigits 10 n ∧
      (Nat.toDigits 10 n).dropWhile Text.isDigit = [] := by
    rw [← List.append_nil (Nat.toDigits 10 n), List.takeWhile_append_of_pos hn,
      List.dropWhile_append_of_pos hn]
    simp
  rw [ofKey?, toList_key, ofKeyChars?]
  simp only [List.takeWhile_append_of_pos hm, List.dropWhile_append_of_pos hm,
    List.takeWhile_cons_of_neg hmark, List.dropWhile_cons_of_neg hmark, List.append_nil, hend,
    Text.digitsValue_toDigits, atEnd]
  simp [Nat.toDigits_ne_nil]

theorem key_injective_of_nonneg {a b : Address} (har : 0 ≤ a.row) (hac : 0 ≤ a.column)
    (hbr : 0 ≤ b.row) (hbc : 0 ≤ b.column) (h : a.key = b.key) : a = b := by
  have ha := ofKey?_key har hac
  rw [h, ofKey?_key hbr hbc] at ha
  exact (Option.some.inj ha).symm

theorem ofKey?_key_of_inGrid {a : Address} {rows columns : Int} (h : a.InGrid rows columns) :
    ofKey? a.key = some a :=
  ofKey?_key h.2.2.1 h.1

end Address

end Gridcalc
