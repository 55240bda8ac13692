import Gridcalc.Formula.Token
import Gridcalc.Grid.Reference
import Gridcalc.Proofs.Grid.Letters
import Gridcalc.Proofs.Text.Digit

/-! # Spellings of references

A reference in a formula is spelled with letters and digits, each after an optional `$`. Its three
readers, the one of tokens and the two that look for a cell, see the same parts in it.
-/

namespace Gridcalc

open Text (Stops isDigit stops_nil stops_cons takeWhile_run dropWhile_run takeWhile_all
  dropWhile_all)

theorem Address.stops_of_atEnd {cs : List Char} (h : atEnd cs = true) : Stops isDigit cs := by
  simp only [atEnd, Bool.or_eq_true, beq_iff_eq] at h
  rcases h with rfl | rfl
  · exact stops_nil isDigit
  · exact stops_cons (by decide)

namespace Reference

structure Spelling where
  pinnedColumn : Bool
  letters : List Char
  pinnedRow : Bool
  digits : List Char
  letters_ne : letters ≠ []
  letters_spec : ∀ c ∈ letters, Address.isColumnLetter c = true
  digits_ne : digits ≠ []
  digits_spec : ∀ c ∈ digits, isDigit c = true

theorem isDigit_of_isColumnLetter {c : Char} (h : Address.isColumnLetter c = true) :
    isDigit c = false := by
  have hall : ∀ c ∈ Column.allLetters, isDigit c = false := by decide
  exact hall c (Column.mem_allLetters h)

def isMarker (c : Char) : Bool := c == '$'

theorem isMarker_of_isColumnLetter {c : Char} (h : Address.isColumnLetter c = true) :
    isMarker c = false := by
  rw [isMarker, beq_eq_false_iff_ne]
  rintro rfl
  exact absurd h (by decide)

theorem isMarker_of_isDigit {c : Char} (h : isDigit c = true) : isMarker c = false := by
  rw [isMarker, beq_eq_false_iff_ne]
  rintro rfl
  exact absurd h (by decide)

section Markers

variable {cs : List Char} (b : Bool)

theorem markerChars_of_stops (h : Stops isMarker cs) : Token.markerChars cs = [] := by
  fun_cases Token.markerChars cs
  · cases h '$' rfl
  · rfl

theorem markerChars_marker (h : Stops isMarker cs) :
    Token.markerChars ((marker b).toList ++ cs) = (marker b).toList := by
  cases b with
  | true => rfl
  | false => exact markerChars_of_stops h

theorem takeMarker_marker (h : Stops isMarker cs) :
    takeMarker ((marker b).toList ++ cs) = (b, cs) := by
  cases b with
  | true => rfl
  | false =>
    change takeMarker cs = (false, cs)
    fun_cases takeMarker cs
    · cases h '$' rfl
    · rfl

theorem exists_markerChars (cs : List Char) : ∃ b, Token.markerChars cs = (marker b).toList := by
  fun_cases Token.markerChars cs
  · exact ⟨true, rfl⟩
  · exact ⟨false, rfl⟩

theorem markerChars_append_drop (cs : List Char) :
    Token.markerChars cs ++ cs.drop (Token.markerChars cs).length = cs := by
  fun_cases Token.markerChars cs
  · rfl
  · rfl

end Markers

namespace Spelling

variable (s : Spelling) {cs : List Char} (rest : List Char)

def chars : List Char :=
  (marker s.pinnedColumn).toList ++ (s.letters ++ ((marker s.pinnedRow).toList ++ s.digits))

def reference : Reference where
  column := Column.index (String.ofList s.letters)
  row := (Text.digitsValue s.digits : Int) - 1
  absoluteColumn := s.pinnedColumn
  absoluteRow := s.pinnedRow

theorem stops_letters : Stops isMarker (s.letters ++ rest) := by
  refine Stops.append s.letters_ne fun c hc => ?_
  exact isMarker_of_isColumnLetter (s.letters_spec c (List.mem_of_mem_head? hc))

theorem stops_digits : Stops isMarker (s.digits ++ rest) := by
  refine Stops.append s.digits_ne fun c hc => ?_
  exact isMarker_of_isDigit (s.digits_spec c (List.mem_of_mem_head? hc))

theorem stops_isColumnLetter : Stops Address.isColumnLetter (s.digits ++ rest) := by
  refine Stops.append s.digits_ne fun c hc => ?_
  have hdigit := s.digits_spec c (List.mem_of_mem_head? hc)
  by_contra hletter
  rw [isDigit_of_isColumnLetter (by simpa using hletter)] at hdigit
  cases hdigit

theorem stops_row :
    Stops Address.isColumnLetter ((marker s.pinnedRow).toList ++ (s.digits ++ rest)) := by
  cases s.pinnedRow with
  | true => exact stops_cons (by decide)
  | false => exact s.stops_isColumnLetter rest

theorem chars_ne : s.chars ≠ [] := by
  simp [chars, s.letters_ne]

theorem mem_chars {c : Char} (h : c ∈ s.chars) :
    c = '$' ∨ Address.isColumnLetter c = true ∨ isDigit c = true := by
  have hmarker : ∀ b, c ∈ (marker b).toList → c = '$' := by
    intro b hc
    cases b with
    | true => exact List.mem_singleton.mp hc
    | false => cases hc
  rcases List.mem_append.mp h with h | h
  · exact .inl (hmarker _ h)
  · rcases List.mem_append.mp h with h | h
    · exact .inr (.inl (s.letters_spec c h))
    · rcases List.mem_append.mp h with h | h
      · exact .inl (hmarker _ h)
      · exact .inr (.inr (s.digits_spec c h))

theorem filter_chars : s.chars.filter (· != '$') = s.letters ++ s.digits := by
  have hmarker : ∀ b, (marker b).toList.filter (· != '$') = [] := by decide
  have hplain : ∀ cs : List Char, (∀ c ∈ cs, isMarker c = false) → cs.filter (· != '$') = cs := by
    intro cs hcs
    refine List.filter_eq_self.mpr fun c hc => ?_
    simpa [isMarker] using hcs c hc
  simp only [chars, List.filter_append, hmarker, List.nil_append]
  rw [hplain s.letters fun c hc => isMarker_of_isColumnLetter (s.letters_spec c hc),
    hplain s.digits fun c hc => isMarker_of_isDigit (s.digits_spec c hc)]

theorem chars_of_unmarked (h : ∀ c ∈ s.chars, c ≠ '$') : s.chars = s.letters ++ s.digits := by
  rw [← s.filter_chars]
  refine (List.filter_eq_self.mpr fun c hc => ?_).symm
  simpa using h c hc

theorem referenceChars?_chars (h : Stops isDigit rest) :
    Token.referenceChars? (s.chars ++ rest) = some s.chars := by
  simp only [Token.referenceChars?, chars, List.append_assoc, markerChars_marker _ (s.stops_letters _),
    List.drop_left, takeWhile_run s.letters_spec (s.stops_row rest), markerChars_marker _ (s.stops_digits rest),
    takeWhile_run s.digits_spec h]
  rw [if_pos ⟨s.letters_ne, s.digits_ne⟩]

/-- A text that starts with a spelling starts with a reference, which takes in any more digits. -/
theorem referenceChars?_ne_none : Token.referenceChars? (s.chars ++ rest) ≠ none := by
  let longer : Spelling :=
    { s with
      digits := s.digits ++ rest.takeWhile isDigit
      digits_ne := by simp [s.digits_ne]
      digits_spec := by
        intro c hc
        rcases List.mem_append.mp hc with hc | hc
        · exact s.digits_spec c hc
        · exact List.all_eq_true.mp List.all_takeWhile c hc }
  have hchars : s.chars ++ rest = longer.chars ++ rest.dropWhile isDigit := by
    simp [chars, longer]
  rw [hchars, longer.referenceChars?_chars _ (Text.stops_dropWhile isDigit rest)]
  exact Option.some_ne_none _

/-- What the reader of tokens takes is a spelling, and all the digits there are. -/
theorem exists_of_referenceChars? {taken : List Char} (h : Token.referenceChars? cs = some taken) :
    ∃ s : Spelling, taken = s.chars ∧ ∃ rest, cs = s.chars ++ rest ∧ Stops isDigit rest := by
  simp only [Token.referenceChars?, Text.drop_length_takeWhile] at h
  obtain ⟨pinnedColumn, hcolumn⟩ := exists_markerChars cs
  have hafter := markerChars_append_drop cs
  rw [hcolumn] at h hafter
  generalize cs.drop (marker pinnedColumn).toList.length = fromLetters at h hafter
  have hletters := List.takeWhile_append_dropWhile (p := Address.isColumnLetter) (l := fromLetters)
  have hletter := List.all_takeWhile (p := Address.isColumnLetter) (l := fromLetters)
  generalize fromLetters.takeWhile Address.isColumnLetter = letters at h hletters hletter
  generalize fromLetters.dropWhile Address.isColumnLetter = fromRow at h hletters
  obtain ⟨pinnedRow, hrow⟩ := exists_markerChars fromRow
  have hmiddle := markerChars_append_drop fromRow
  rw [hrow] at h hmiddle
  generalize fromRow.drop (marker pinnedRow).toList.length = fromDigits at h hmiddle
  have hdigits := List.takeWhile_append_dropWhile (p := isDigit) (l := fromDigits)
  have hdigit := List.all_takeWhile (p := isDigit) (l := fromDigits)
  split at h
  · rename_i hne
    cases h
    refine ⟨⟨pinnedColumn, letters, pinnedRow, fromDigits.takeWhile isDigit, hne.1,
      List.all_eq_true.mp hletter, hne.2, List.all_eq_true.mp hdigit⟩, ?_,
      fromDigits.dropWhile isDigit, ?_, Text.stops_dropWhile isDigit fromDigits⟩
    · simp [chars]
    · simp [chars, hdigits, hmiddle, hletters, hafter]
  · cases h

theorem ofChars?_append (h : Address.atEnd rest = true) :
    ofChars? (s.chars ++ rest) =
      if Text.digitsValue s.digits = 0 then none else some s.reference := by
  have hstop := Address.stops_of_atEnd h
  simp only [ofChars?, chars, List.append_assoc, takeMarker_marker _ (s.stops_letters _),
    takeWhile_run s.letters_spec (s.stops_row rest), dropWhile_run s.letters_spec (s.stops_row rest),
    takeMarker_marker _ (s.stops_digits rest), takeWhile_run s.digits_spec hstop,
    dropWhile_run s.digits_spec hstop]
  by_cases hzero : Text.digitsValue s.digits = 0
  · simp [hzero]
  · simp [hzero, s.letters_ne, h, reference]

theorem ofChars?_chars :
    ofChars? s.chars = if Text.digitsValue s.digits = 0 then none else some s.reference := by
  have hend := s.ofChars?_append [] rfl
  rwa [List.append_nil] at hend

theorem ofA1?_stripMarkers :
    Address.ofA1? (stripMarkers (String.ofList s.chars)) = (ofChars? s.chars).map address := by
  have hdigits := s.stops_isColumnLetter []
  rw [List.append_nil] at hdigits
  rw [stripMarkers, String.toList_ofList, filter_chars, Address.ofA1?, String.toList_ofList,
    Address.ofA1Chars?, takeWhile_run s.letters_spec hdigits, dropWhile_run s.letters_spec hdigits,
    takeWhile_all s.digits_spec, dropWhile_all s.digits_spec, ofChars?_chars]
  by_cases hzero : Text.digitsValue s.digits = 0
  · simp [hzero]
  · simp [hzero, s.letters_ne, Address.atEnd, reference, address]

end Spelling

/-- The text is a spelling from its first character to its last. -/
def Spelled (text : String) : Prop := ∃ s : Spelling, text.toList = s.chars

variable {r : Reference} {text : String}

theorem Spelled.ofA1?_stripMarkers (h : Spelled text) :
    Address.ofA1? (stripMarkers text) = (ofText? text).map address := by
  obtain ⟨s, hs⟩ := h
  rw [ofText?, hs, ← s.ofA1?_stripMarkers, ← hs, String.ofList_toList]

theorem nonneg_of_ofText? (h : ofText? text = some r) : 0 ≤ r.row ∧ 0 ≤ r.column := by
  simp only [ofText?, ofChars?] at h
  split at h
  · rename_i hparts
    cases h
    simp only [Bool.and_eq_true, bne_iff_ne, ne_eq] at hparts
    obtain ⟨⟨hletters, hnumber⟩, -⟩ := hparts
    constructor
    · simp only
      omega
    · exact Column.index_nonneg hletters (List.all_eq_true.mp List.all_takeWhile)
  · cases h

theorem exists_spelling (hrow : 0 ≤ r.row) (hcolumn : 0 ≤ r.column) :
    ∃ s : Spelling, r.toText.toList = s.chars ∧ ofChars? s.chars = some r ∧
      ∀ c ∈ s.letters, c ∈ Column.capitals := by
  obtain ⟨column, row, pinnedColumn, pinnedRow⟩ := r
  obtain ⟨i, rfl⟩ := Int.eq_ofNat_of_zero_le hrow
  obtain ⟨j, rfl⟩ := Int.eq_ofNat_of_zero_le hcolumn
  have hall : ∀ c ∈ Column.capitals, Address.isColumnLetter c = true := by decide
  let s : Spelling :=
    { pinnedColumn, pinnedRow
      letters := Column.lettersFrom (j + 1)
      digits := Nat.toDigits 10 (i + 1)
      letters_ne := Column.lettersFrom_ne_nil (Nat.succ_pos j)
      letters_spec := fun c hc => hall c (Column.mem_capitals_of_mem_lettersFrom hc)
      digits_ne := Nat.toDigits_ne_nil
      digits_spec := fun c hc => Text.isDigit_of_mem_toDigits hc }
  have hdigits : (Int.repr (i + 1)).toList = Nat.toDigits 10 (i + 1) := Nat.toList_repr
  refine ⟨s, ?_, ?_, fun c hc => Column.mem_capitals_of_mem_lettersFrom hc⟩
  · simp [toText, Column.letters, Spelling.chars, s, hdigits]
  · rw [s.ofChars?_chars, if_neg (by simp [s, Text.digitsValue_toDigits])]
    simp [Spelling.reference, s, Text.digitsValue_toDigits, Column.index_lettersFrom]

theorem ofText?_toText (hrow : 0 ≤ r.row) (hcolumn : 0 ≤ r.column) :
    ofText? r.toText = some r := by
  obtain ⟨s, hs, hread, -⟩ := exists_spelling hrow hcolumn
  rw [ofText?, hs, hread]

end Reference

end Gridcalc
