import Gridcalc.Proofs.Number.Legible
import Gridcalc.Proofs.Sheet.Process

/-! # Numbers typed into a cell

A typed text that is read as a number to its end becomes a number cell when the number is shown as
that text, and a text cell otherwise. What a number shows can be typed in again.
-/

namespace Gridcalc.Sheet

open Number (Legible Layout Decimal shape)

variable {s : Sheet} {a : Address} {cs : List Char} {d : Decimal} {v : Float} {negative : Bool}

theorem isFormulaText_signed (h : Legible cs d) (negative : Bool) :
    isFormulaText (String.ofList (Layout.signed negative cs)) = false := by
  rw [isFormulaText, h.trim_signed, String.toList_ofList, beq_eq_false_iff_ne]
  cases negative with
  | true => simp [Layout.signed]
  | false =>
    obtain ⟨c, tail, rfl, hc⟩ := h.head
    have hall : ∀ c ∈ Text.asciiDigits, some c ≠ some '=' := by decide
    exact hall c (Text.mem_asciiDigits hc)

theorem signed_ne_empty (h : Legible cs d) (negative : Bool) :
    String.ofList (Layout.signed negative cs) ≠ "" := by
  obtain ⟨c, tail, rfl, -⟩ := h.head
  intro hempty
  have hchars := congrArg String.toList hempty
  cases negative <;> simp [Layout.signed] at hchars

theorem cell_process_signed (h : Legible cs d) (negative : Bool) :
    (s.process (String.ofList (Layout.signed negative cs)) a).cell =
      if displayNumber (d.toFloat negative) = String.ofList (Layout.signed negative cs) then
        .number (String.ofList (Layout.signed negative cs)) (d.toFloat negative)
      else .text (String.ofList (Layout.signed negative cs)) := by
  have htrim := h.trim_signed negative
  have hsome : Text.trim (String.ofList (Layout.signed negative cs)) ≠ "" := by
    rw [htrim]
    exact signed_ne_empty h negative
  rw [cell_process_of_plain hsome (isFormulaText_signed h negative), htrim, plainCell,
    h.numericPrefix?_signed]

/-- What a number shows can be typed back, except for the double that is no number and for the
zero with a sign, which shows none. -/
theorem process_displayNumber_iff (s : Sheet) (a : Address) (v : Float) :
    (s.process (displayNumber v) a).cell = .number (displayNumber v) v ↔
      v ≠ Number.notNumber ∧ v ≠ -0.0 := by
  constructor
  · intro h
    constructor
    · rintro rfl
      have hshown : displayNumber Number.notNumber = "NaN" := by decide +kernel
      have hsome : Text.trim "NaN" ≠ "" := by decide
      rw [hshown, cell_process_of_plain hsome (by decide)] at h
      exact absurd h (by decide +kernel)
    · rintro rfl
      have hshown : displayNumber (-0.0) = "0" := by decide +kernel
      have hsome : Text.trim "0" ≠ "" := by decide
      rw [hshown, cell_process_of_plain hsome (by decide)] at h
      exact absurd h (by decide +kernel)
  · rintro ⟨hnumber, hzero⟩
    cases hshape : shape v with
    | notNumber => exact absurd (Number.eq_notNumber_of_shape hshape) hnumber
    | infinite negative =>
      rw [Number.eq_infinity_of_shape hshape]
      have htrim : ∀ negative, Text.trim (displayNumber (Number.infinity negative)) ≠ "" ∧
          isFormulaText (displayNumber (Number.infinity negative)) = false ∧
          plainCell (Text.trim (displayNumber (Number.infinity negative))) =
            .number (displayNumber (Number.infinity negative)) (Number.infinity negative) := by
        decide +kernel
      obtain ⟨hne, hformula, hcell⟩ := htrim negative
      rw [cell_process_of_plain hne hformula, hcell]
    | finite negative bits =>
      obtain ⟨cs, d, hd, hread, hshown⟩ := Number.exists_displayNumber hshape hzero
      have hcell := cell_process_signed (s := s) (a := a) hd negative
      rw [hread, if_pos hshown] at hcell
      rw [hshown]
      exact hcell

end Gridcalc.Sheet
