import Mathlib.Order.Filter.AtTopBot.Prod
import Gridcalc.Limits.Basic
import Gridcalc.Proofs.Grid.Key
import Gridcalc.Sheet.Basic

/-! # Ample limits

What holds within all limits that are large enough. Any one text and any one integer are within
them, and with these whatever is made of numbers: names of cells, keys and references.
-/

namespace Gridcalc

theorem Text.runsWithin_append {limit run : Nat} {cs rest : List Char}
    (h : run + cs.length ≤ limit) (hrest : ∀ run, Text.runsWithin limit run rest = true) :
    Text.runsWithin limit run (cs ++ rest) = true := by
  induction cs generalizing run with
  | nil => exact hrest run
  | cons c cs ih =>
    rw [List.length_cons] at h
    rw [List.cons_append, runsWithin]
    split
    · rw [Bool.and_eq_true, decide_eq_true_eq]
      exact ⟨by omega, ih (by omega)⟩
    · exact ih (by omega)

namespace Limits

open Filter

/-- A key can be read where it could be written. -/
theorem reads_key {l : Limits} {a : Address} {k : String} (hrow : 0 ≤ a.row)
    (hcolumn : 0 ≤ a.column) (h : l.key a = .ok k) : k = a.key ∧ l.reads k = true := by
  obtain ⟨row, column⟩ := a
  obtain ⟨m, rfl⟩ := Int.eq_ofNat_of_zero_le hrow
  obtain ⟨n, rfl⟩ := Int.eq_ofNat_of_zero_le hcolumn
  rw [key] at h
  split at h
  · rename_i hwrites
    cases h
    obtain ⟨hm, hn⟩ := (Bool.and_eq_true _ _).mp hwrites
    have hlast : Text.runsWithin l.digits 0 (Nat.toDigits 10 n ++ []) = true :=
      Text.runsWithin_append (by simpa [writes] using hn) fun _ => rfl
    refine ⟨rfl, ?_⟩
    rw [reads, Address.toList_key, ← List.append_nil (Nat.toDigits 10 n)]
    exact Text.runsWithin_append (by simpa [writes] using hm) fun _ => hlast
  · cases h

def ample : Filter Limits := atTop.comap fun l => (l.depth, l.digits)

theorem eventually_ample_iff {p : Limits → Prop} : (∀ᶠ l in ample, p l) ↔
    ∃ depth digits, ∀ l : Limits, depth ≤ l.depth → digits ≤ l.digits → p l := by
  rw [ample, eventually_comap, eventually_atTop, Prod.exists]
  refine exists_congr fun depth => exists_congr fun digits => ⟨?_, ?_⟩
  · intro h l hdepth hdigits
    exact h (l.depth, l.digits) ⟨hdepth, hdigits⟩ l rfl
  · rintro h _ ⟨hdepth, hdigits⟩ l rfl
    exact h l hdepth hdigits

theorem eventually_le_depth (n : Nat) : ∀ᶠ l in ample, n ≤ l.depth :=
  eventually_ample_iff.mpr ⟨n, 0, fun _ h _ => h⟩

theorem eventually_le_digits (n : Nat) : ∀ᶠ l in ample, n ≤ l.digits :=
  eventually_ample_iff.mpr ⟨0, n, fun _ _ h => h⟩

theorem eventually_reads (s : String) : ∀ᶠ l in ample, l.reads s = true := by
  filter_upwards [eventually_le_digits s.toList.length] with l hl
  rw [reads, ← List.append_nil s.toList]
  exact Text.runsWithin_append (by rwa [Nat.zero_add]) fun _ => rfl

theorem eventually_writes (i : Int) : ∀ᶠ l in ample, l.writes i = true := by
  filter_upwards [eventually_le_digits (Nat.toDigits 10 i.natAbs).length] with l hl
  exact decide_eq_true hl

theorem eventually_address? (s : String) : ∀ᶠ l in ample, l.address? s = Address.ofA1? s := by
  filter_upwards [eventually_reads s] with l hreads
  rw [address?, if_pos hreads]

theorem eventually_key (a : Address) : ∀ᶠ l in ample, l.key a = .ok a.key := by
  filter_upwards [eventually_writes a.row, eventually_writes a.column] with l hrow hcolumn
  rw [key, hrow, hcolumn]
  rfl

theorem eventually_a1 (a : Address) : ∀ᶠ l in ample, l.a1 a = .ok a.toA1 := by
  filter_upwards [eventually_writes (a.row + 1)] with l hrow
  rw [a1, if_pos hrow]

theorem eventually_addressOfKey? (k : String) :
    ∀ᶠ l in ample, l.addressOfKey? k = .ok (Address.ofKey? k) := by
  filter_upwards [eventually_reads k] with l hreads
  rw [addressOfKey?]
  cases Address.ofKey? k with
  | none => rfl
  | some a => simp only [if_pos hreads]

theorem eventually_keyOfReference? (ref : String) :
    ∀ᶠ l in ample, l.keyOfReference? ref = .ok (Gridcalc.keyOfReference? ref) := by
  have haddress := eventually_address? (stripMarkers ref)
  cases hcell : Address.ofA1? (stripMarkers ref) with
  | none =>
    filter_upwards [haddress] with l haddress
    rw [keyOfReference?, haddress, Gridcalc.keyOfReference?, hcell]
    rfl
  | some a =>
    filter_upwards [haddress, eventually_key a] with l haddress hkey
    rw [keyOfReference?, haddress, Gridcalc.keyOfReference?, hcell]
    simp only [hkey]
    rfl

theorem eventually_readKeys (refs : List String) :
    ∀ᶠ l in ample, l.readKeys refs = .ok (refs.map Sheet.readKey) := by
  induction refs with
  | nil => exact .of_forall fun _ => rfl
  | cons ref refs ih =>
    filter_upwards [eventually_keyOfReference? ref, ih] with l hkey hrest
    rw [readKeys, hkey]
    simp only [hrest]
    rfl

end Limits

end Gridcalc
