import Gridcalc.Proofs.Text.Digit

/-! # Trimmed texts

A text is its trimmed text between blanks, and the trimmed text neither begins nor ends with a
blank. A text of that kind is left alone; digits are no blanks.
-/

namespace Gridcalc.Text

variable {cs : List Char}

/-- What holds of the ten digits of each run holds of every digit. -/
theorem forall_isDigit {p : Char → Prop}
    (hrun : ∀ first ∈ 0x30 :: digitZeros, ∀ k : Fin 10, p (Char.ofNat (first + k))) {c : Char}
    (h : isDigit c = true) : p c := by
  obtain ⟨first, hfirst, hle, hlt⟩ : ∃ first ∈ 0x30 :: digitZeros,
      first ≤ c.toNat ∧ c.toNat < first + 10 := by
    obtain ⟨value, hvalue⟩ := Option.isSome_iff_exists.mp h
    rw [digitValue?] at hvalue
    split at hvalue
    · split at hvalue
      · exact ⟨0x30, List.mem_cons_self, by omega, by omega⟩
      · cases hvalue
    · obtain ⟨first, hfind, -⟩ := Option.map_eq_some_iff.mp hvalue
      have hrange := List.find?_some hfind
      rw [Bool.and_eq_true, decide_eq_true_eq, decide_eq_true_eq] at hrange
      exact ⟨first, List.mem_cons_of_mem _ (List.mem_of_find?_eq_some hfind), hrange⟩
  have hc := hrun first hfirst ⟨c.toNat - first, by omega⟩
  rwa [show first + (c.toNat - first) = c.toNat by omega, Char.ofNat_toNat] at hc

theorem isBlank_of_isDigit {c : Char} (h : isDigit c = true) : isBlank c = false :=
  forall_isDigit (p := fun c => isBlank c = false) (by decide +kernel) h

theorem trimChars_eq_self (hhead : Stops isBlank cs) (hlast : Stops isBlank cs.reverse) :
    trimChars cs = cs := by
  rw [trimChars, dropWhile_of_stops hhead, dropWhile_of_stops hlast, List.reverse_reverse]

/-- What is left of a text without the blanks at its ends. -/
structure Trims (cs trimmed : List Char) : Prop where
  around : ∃ front back, cs = front ++ (trimmed ++ back) ∧ ∀ c ∈ front ++ back, isBlank c = true
  head : Stops isBlank trimmed
  last : Stops isBlank trimmed.reverse

theorem exists_dropWhile_eq_trimChars (cs : List Char) :
    ∃ back, cs.dropWhile isBlank = trimChars cs ++ back ∧ ∀ c ∈ back, isBlank c = true := by
  refine ⟨((cs.dropWhile isBlank).reverse.takeWhile isBlank).reverse, ?_, fun c hc => ?_⟩
  · rw [trimChars, ← List.reverse_append, List.takeWhile_append_dropWhile, List.reverse_reverse]
  · exact List.all_eq_true.mp List.all_takeWhile c (List.mem_reverse.mp hc)

theorem trims_trimChars (cs : List Char) : Trims cs (trimChars cs) := by
  obtain ⟨back, hdrop, hback⟩ := exists_dropWhile_eq_trimChars cs
  have hstop := stops_dropWhile isBlank cs
  refine ⟨⟨cs.takeWhile isBlank, back, ?_, List.forall_mem_append.mpr ⟨?_, hback⟩⟩, ?_, ?_⟩
  · rw [← hdrop, List.takeWhile_append_dropWhile]
  · exact List.all_eq_true.mp List.all_takeWhile
  · rw [hdrop] at hstop
    exact hstop.of_append
  · rw [trimChars, List.reverse_reverse]
    exact stops_dropWhile isBlank _

theorem trimChars_trimChars (cs : List Char) : trimChars (trimChars cs) = trimChars cs :=
  trimChars_eq_self (trims_trimChars cs).head (trims_trimChars cs).last

@[simp] theorem trim_trim (s : String) : trim (trim s) = trim s := by
  rw [trim, toList_trim, trimChars_trimChars, trim]

end Gridcalc.Text
