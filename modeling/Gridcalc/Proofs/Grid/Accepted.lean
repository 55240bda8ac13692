import Gridcalc.Proofs.Grid.Notation

/-! # What the readers of cells accept

A cell is named by ASCII letters and an ASCII number of at least one, and a text in this form is
read and written back in capitals and without zeros in front. The readers accept more than this
form: four letters that a comparison without case takes for one of A to Z, the digits of other
scripts, and a line break at the end. Nothing else gets past them.
-/

namespace Gridcalc

open Text (isDigit isAsciiDigit takeWhile_all)

variable {cs letters digits : List Char} {a : Address} {r : Reference}

/-- Letters and digits that name a cell. -/
structure Named (letters digits : List Char) : Prop where
  letters_ne : letters ≠ []
  letters_spec : ∀ c ∈ letters, c.isAlpha = true
  digits_spec : ∀ c ∈ digits, isAsciiDigit c = true
  number : 1 ≤ Text.digitsValue digits

/-- A reference and its normal form: capitals, no zeros in front, the markers kept. -/
inductive ReferenceForm : List Char → List Char → Prop
  | intro {letters digits : List Char} (pinnedColumn pinnedRow : Bool)
    (h : Named letters digits) :
    ReferenceForm
      ((Reference.marker pinnedColumn).toList ++
        (letters ++ ((Reference.marker pinnedRow).toList ++ digits)))
      ((Reference.marker pinnedColumn).toList ++
        (letters.map Char.toUpper ++
          ((Reference.marker pinnedRow).toList ++ digits.dropWhile (· == '0'))))

/-- An A1 text and its normal form. -/
inductive AddressForm : List Char → List Char → Prop
  | intro {letters digits : List Char} (h : Named letters digits) :
    AddressForm (letters ++ digits) (letters.map Char.toUpper ++ digits.dropWhile (· == '0'))

/-- All in ASCII, and no line break at the end. -/
def Plain (cs : List Char) : Prop := (∀ c ∈ cs, c.toNat < 128) ∧ cs.getLast? ≠ some '\n'

def asciiLetters : List Char := Column.capitals ++ Column.capitals.map Char.toLower

theorem mem_asciiLetters {c : Char} (h : c.isAlpha = true) : c ∈ asciiLetters := by
  have hletter : Address.isColumnLetter c = true := by
    have hcase : (c.isUpper || c.isLower) = true := h
    rcases Bool.or_eq_true_iff.mp hcase with hupper | hlower
    · have hrange : 'A' ≤ c ∧ c ≤ 'Z' := of_decide_eq_true hupper
      simp [Address.isColumnLetter, hrange]
    · have hends : (decide ('a' ≤ c) && decide (c ≤ 'z')) = true := hlower
      have hrange : 'a' ≤ c ∧ c ≤ 'z' := by simpa using hends
      simp [Address.isColumnLetter, hrange]
  have hall : ∀ c ∈ Column.allLetters, c.isAlpha = true → c ∈ asciiLetters := by decide
  exact hall c (Column.mem_allLetters hletter) h

theorem isAlpha_of_isColumnLetter {c : Char} (h : Address.isColumnLetter c = true)
    (hascii : c.toNat < 128) : c.isAlpha = true := by
  have hall : ∀ c ∈ Column.allLetters, c.toNat < 128 → c.isAlpha = true := by decide
  exact hall c (Column.mem_allLetters h) hascii

theorem isAsciiDigit_of_isDigit {c : Char} (h : isDigit c = true) (hascii : c.toNat < 128) :
    isAsciiDigit c = true := by
  simp only [isDigit, Text.digitValue?, if_pos hascii] at h
  split at h
  · rename_i hrange
    simpa [isAsciiDigit, Char.le_def, UInt32.le_iff_toNat_le] using hrange
  · cases h

theorem upperChars_of_isAlpha (h : ∀ c ∈ letters, c.isAlpha = true) :
    Text.upperChars letters = letters.map Char.toUpper := by
  have hall : ∀ c ∈ asciiLetters, Text.upperChar c = [c.toUpper] := by decide
  induction letters with
  | nil => rfl
  | cons c letters ih =>
    rw [Text.upperChars, List.flatMap_cons, hall c (mem_asciiLetters (h c List.mem_cons_self)),
      List.map_cons]
    exact congrArg (c.toUpper :: ·) (ih fun d hd => h d (List.mem_cons_of_mem c hd))

theorem Column.letters_index_of_isAlpha (h : ∀ c ∈ letters, c.isAlpha = true) :
    Column.letters (Column.index (String.ofList letters)) =
      String.ofList (letters.map Char.toUpper) := by
  have hall : ∀ c ∈ asciiLetters, c.toUpper ∈ Column.capitals := by decide
  have hcapitals : ∀ c ∈ letters.map Char.toUpper, c ∈ Column.capitals := by
    intro c hc
    obtain ⟨d, hd, rfl⟩ := List.mem_map.mp hc
    exact hall d (mem_asciiLetters (h d hd))
  obtain ⟨n, hfold, hletters⟩ := Column.lettersFrom_foldl hcapitals
  rw [Column.index, String.toList_ofList, upperChars_of_isAlpha h, hfold, Column.letters,
    sub_add_cancel, Int.toNat_natCast, hletters]

/-- A partial reader keeps to the texts of a class when it reads no other text. -/
theorem forall_iff_and_iff {α β : Type} {o : Option α} {f : α → β} {p : Prop} :
    (∀ y, (∃ x, o = some x ∧ f x = y) ↔ p ∧ ∃ x, o = some x ∧ f x = y) ↔ (o ≠ none → p) := by
  constructor
  · intro h hne
    obtain ⟨x, hx⟩ := Option.ne_none_iff_exists'.mp hne
    exact ((h (f x)).mp ⟨x, hx, rfl⟩).1
  · intro hp y
    refine ⟨fun hread => ⟨hp ?_, hread⟩, And.right⟩
    obtain ⟨x, hx, -⟩ := hread
    rw [hx]
    exact Option.some_ne_none x

namespace Named

variable (h : Named letters digits)

include h

theorem digits_ne : digits ≠ [] := by
  rintro rfl
  exact absurd h.number (by decide)

theorem isColumnLetter : ∀ c ∈ letters, Address.isColumnLetter c = true := by
  have hall : ∀ c ∈ asciiLetters, Address.isColumnLetter c = true := by decide
  exact fun c hc => hall c (mem_asciiLetters (h.letters_spec c hc))

theorem written :
    Column.letters (Column.index (String.ofList letters)) =
        String.ofList (letters.map Char.toUpper) ∧
      toString ((Text.digitsValue digits : Int) - 1 + 1) =
        String.ofList (digits.dropWhile (· == '0')) := by
  constructor
  · exact Column.letters_index_of_isAlpha h.letters_spec
  · have hnumber := h.number
    rw [Text.dropWhile_zero_eq h.digits_spec, if_neg (by omega), sub_add_cancel]
    rfl

def spelling (pinnedColumn pinnedRow : Bool) : Reference.Spelling where
  pinnedColumn := pinnedColumn
  letters := letters
  pinnedRow := pinnedRow
  digits := digits
  letters_ne := h.letters_ne
  letters_spec := h.isColumnLetter
  digits_ne := h.digits_ne
  digits_spec := fun c hc => Text.isDigit_of_isAsciiDigit (h.digits_spec c hc)

theorem toText_reference (pinnedColumn pinnedRow : Bool) :
    (h.spelling pinnedColumn pinnedRow).reference.toText.toList =
      (Reference.marker pinnedColumn).toList ++
        (letters.map Char.toUpper ++
          ((Reference.marker pinnedRow).toList ++ digits.dropWhile (· == '0'))) := by
  obtain ⟨hletters, hdigits⟩ := h.written
  simp only [Reference.toText, Reference.Spelling.reference, spelling, hletters, hdigits,
    String.toList_append, String.toList_ofList, List.append_assoc]

end Named

theorem plain_append (hcs : cs ≠ []) (h : Plain cs) {pre : List Char}
    (hpre : ∀ c ∈ pre, c.toNat < 128) : Plain (pre ++ cs) := by
  refine ⟨fun c hc => ?_, ?_⟩
  · rcases List.mem_append.mp hc with hc | hc
    · exact hpre c hc
    · exact h.1 c hc
  · rw [List.getLast?_append, List.getLast?_eq_some_getLast hcs, Option.some_or]
    rw [← List.getLast?_eq_some_getLast hcs]
    exact h.2

theorem Named.plain (h : Named letters digits) : Plain digits ∧ ∀ c ∈ letters, c.toNat < 128 := by
  have hdigit : ∀ c ∈ Text.asciiDigits, c.toNat < 128 ∧ c ≠ '\n' := by decide
  have hletter : ∀ c ∈ asciiLetters, c.toNat < 128 := by decide
  refine ⟨⟨fun c hc => (hdigit c (Text.mem_asciiDigits (h.digits_spec c hc))).1, fun hlast => ?_⟩,
    fun c hc => hletter c (mem_asciiLetters (h.letters_spec c hc))⟩
  have hmem := List.mem_of_getLast? hlast
  exact (hdigit '\n' (Text.mem_asciiDigits (h.digits_spec _ hmem))).2 rfl

theorem ReferenceForm.plain {normal : List Char} (h : ReferenceForm cs normal) : Plain cs := by
  cases h with
  | intro pinnedColumn pinnedRow h =>
    have hmarker : ∀ b, ∀ c ∈ (Reference.marker b).toList, c.toNat < 128 := by decide
    obtain ⟨hdigits, hletters⟩ := h.plain
    have hrow := plain_append h.digits_ne hdigits (hmarker pinnedRow)
    have hcolumn := plain_append (by simp [h.digits_ne]) hrow hletters
    exact plain_append (by simp [h.digits_ne]) hcolumn (hmarker pinnedColumn)

namespace Reference

theorem marker_append_takeMarker (cs : List Char) :
    (marker (takeMarker cs).1).toList ++ (takeMarker cs).2 = cs := by
  fun_cases takeMarker cs <;> simp [marker]

/-- A reference is read from a spelling of it, with a number of at least one and perhaps a line
break behind it, and from nothing else. -/
theorem ofChars?_eq_some_iff :
    ofChars? cs = some r ↔ ∃ (s : Spelling) (rest : List Char), cs = s.chars ++ rest ∧
      Address.atEnd rest = true ∧ Text.digitsValue s.digits ≠ 0 ∧ r = s.reference := by
  constructor
  · intro h
    simp only [ofChars?] at h
    split at h
    · rename_i hparts
      cases h
      simp only [Bool.and_eq_true, bne_iff_ne, ne_eq] at hparts
      obtain ⟨⟨hletters, hnumber⟩, hend⟩ := hparts
      have hcolumn := marker_append_takeMarker cs
      generalize takeMarker cs = marked at *
      obtain ⟨pinnedColumn, fromLetters⟩ := marked
      have hrow := marker_append_takeMarker (fromLetters.dropWhile Address.isColumnLetter)
      dsimp only at *
      generalize takeMarker (fromLetters.dropWhile Address.isColumnLetter) = marked at *
      obtain ⟨pinnedRow, fromDigits⟩ := marked
      dsimp only at *
      have hdigits : fromDigits.takeWhile isDigit ≠ [] := by
        intro hnone
        rw [hnone] at hnumber
        exact hnumber rfl
      refine ⟨⟨pinnedColumn, _, pinnedRow, _, hletters, List.all_eq_true.mp List.all_takeWhile,
        hdigits, List.all_eq_true.mp List.all_takeWhile⟩, fromDigits.dropWhile isDigit, ?_, hend,
        hnumber, rfl⟩
      simp only [Spelling.chars, List.append_assoc, List.takeWhile_append_dropWhile]
      rw [hrow, List.takeWhile_append_dropWhile, hcolumn]
    · cases h
  · rintro ⟨s, rest, rfl, hend, hnumber, rfl⟩
    rw [s.ofChars?_append rest hend, if_neg hnumber]

end Reference

theorem named_of_ofChars? (h : Reference.ofChars? cs = some r) (hplain : Plain cs) :
    ∃ (letters digits : List Char) (h : Named letters digits),
      cs = (h.spelling r.absoluteColumn r.absoluteRow).chars ∧
        r = (h.spelling r.absoluteColumn r.absoluteRow).reference := by
  obtain ⟨s, rest, rfl, hend, hnumber, rfl⟩ := Reference.ofChars?_eq_some_iff.mp h
  obtain ⟨hascii, hlast⟩ := hplain
  have hnamed : Named s.letters s.digits :=
    { letters_ne := s.letters_ne
      letters_spec := fun c hc => isAlpha_of_isColumnLetter (s.letters_spec c hc)
        (hascii c (by simp [Reference.Spelling.chars, hc]))
      digits_spec := fun c hc => isAsciiDigit_of_isDigit (s.digits_spec c hc)
        (hascii c (by simp [Reference.Spelling.chars, hc]))
      number := Nat.one_le_iff_ne_zero.mpr hnumber }
  simp only [Address.atEnd, Bool.or_eq_true, beq_iff_eq] at hend
  rcases hend with rfl | rfl
  · exact ⟨s.letters, s.digits, hnamed, List.append_nil s.chars, rfl⟩
  · rw [List.getLast?_concat] at hlast
    exact absurd rfl hlast

theorem Named.ofChars?_chars (h : Named letters digits) (pinnedColumn pinnedRow : Bool) :
    Reference.ofChars? (h.spelling pinnedColumn pinnedRow).chars =
      some (h.spelling pinnedColumn pinnedRow).reference :=
  ((h.spelling pinnedColumn pinnedRow).ofChars?_chars).trans
    (if_neg (Nat.one_le_iff_ne_zero.mp h.number))

theorem referenceForm_iff {normal : List Char} :
    ReferenceForm cs normal ↔
      Plain cs ∧ ∃ r, Reference.ofChars? cs = some r ∧ r.toText.toList = normal := by
  constructor
  · intro hform
    refine ⟨hform.plain, ?_⟩
    cases hform with
    | intro pinnedColumn pinnedRow h =>
      exact ⟨_, h.ofChars?_chars pinnedColumn pinnedRow, h.toText_reference pinnedColumn pinnedRow⟩
  · rintro ⟨hplain, r, hr, rfl⟩
    obtain ⟨letters, digits, h, hcs, hreference⟩ := named_of_ofChars? hr hplain
    rw [hcs, hreference, h.toText_reference]
    exact .intro r.absoluteColumn r.absoluteRow h

namespace Address

theorem ofA1Chars?_eq_some_iff :
    ofA1Chars? cs = some a ↔ Reference.ofChars? cs = some ⟨a.column, a.row, false, false⟩ := by
  constructor
  · intro h
    cases a1Spelled_of_ofA1Chars? h with
    | intro hne hletters hdigits hnumber hend =>
      rename_i letters digits rest
      have hdigits_ne : digits ≠ [] := by
        rintro rfl
        exact hnumber rfl
      let s : Reference.Spelling :=
        ⟨false, letters, false, digits, hne, hletters, hdigits_ne, hdigits⟩
      refine Reference.ofChars?_eq_some_iff.mpr ⟨s, rest, ?_, hend, hnumber, rfl⟩
      simp [Reference.Spelling.chars, Reference.marker, s]
  · intro h
    obtain ⟨s, rest, rfl, hend, hnumber, hs⟩ := Reference.ofChars?_eq_some_iff.mp h
    obtain ⟨row, column⟩ := a
    simp only [Reference.Spelling.reference, Reference.mk.injEq] at hs
    obtain ⟨rfl, rfl, hcolumn, hrow⟩ := hs
    have hspelled := A1Spelled.intro s.letters_ne s.letters_spec s.digits_spec hnumber hend
    have hchars : s.chars ++ rest = s.letters ++ (s.digits ++ rest) := by
      simp [Reference.Spelling.chars, ← hcolumn, ← hrow, Reference.marker]
    rw [hchars]
    exact hspelled.ofA1Chars?

end Address

theorem addressForm_iff {normal : List Char} :
    AddressForm cs normal ↔
      Plain cs ∧ ∃ a, Address.ofA1Chars? cs = some a ∧ a.toA1.toList = normal := by
  constructor
  · intro hform
    cases hform with
    | intro h =>
      rename_i letters digits
      have hreference : ReferenceForm _ _ := .intro false false h
      obtain ⟨hplain, -⟩ := referenceForm_iff.mp hreference
      have hread := h.ofChars?_chars false false
      have hwritten := h.toText_reference false false
      refine ⟨hplain, (h.spelling false false).reference.address, ?_, ?_⟩
      · exact Address.ofA1Chars?_eq_some_iff.mpr hread
      · rw [Address.toA1_eq_toText]
        exact hwritten
  · rintro ⟨hplain, a, ha, rfl⟩
    have hr := Address.ofA1Chars?_eq_some_iff.mp ha
    obtain ⟨letters, digits, h, hcs, hreference⟩ := named_of_ofChars? hr hplain
    rw [Address.toA1_eq_toText, hreference, hcs, h.toText_reference]
    exact .intro h

/-- A reader is right about a text, in whether it accepts it and in what is written back, exactly
when the text is plain or is not read. -/
theorem read_in_form_iff (text : String) :
    ((∀ normal : String, (∃ a, Address.ofA1? text = some a ∧ a.toA1 = normal) ↔
        AddressForm text.toList normal.toList) ↔
      (Address.ofA1? text ≠ none → Plain text.toList)) ∧
    ((∀ normal : String, (∃ r, Reference.ofText? text = some r ∧ r.toText = normal) ↔
        ReferenceForm text.toList normal.toList) ↔
      (Reference.ofText? text ≠ none → Plain text.toList)) := by
  simp only [addressForm_iff, referenceForm_iff, String.toList_inj]
  exact ⟨forall_iff_and_iff, forall_iff_and_iff⟩

/-- A line break at the end, a letter or a digit outside ASCII is let in: the three texts are read
as A1 and as A1 and as a cell far to the right, and none of them has the form. -/
theorem read_outside_form :
    (Address.ofA1? "A1\n" = some ⟨0, 0⟩ ∧ ∀ normal, ¬ AddressForm "A1\n".toList normal) ∧
    (Address.ofA1? "A\u0661" = some ⟨0, 0⟩ ∧ ∀ normal, ¬ AddressForm "A\u0661".toList normal) ∧
    (Reference.ofText? "$\u212a1" = some ⟨8425, 0, true, false⟩ ∧
      ∀ normal, ¬ ReferenceForm "$\u212a1".toList normal) := by
  refine ⟨⟨by decide +kernel, fun normal h => ?_⟩, ⟨by decide +kernel, fun normal h => ?_⟩,
    by decide +kernel, fun normal h => ?_⟩
  · exact absurd (addressForm_iff.mp h).1.2 (by decide +kernel)
  · exact absurd (addressForm_iff.mp h).1.1 (by decide +kernel)
  · exact absurd (referenceForm_iff.mp h).1.1 (by decide +kernel)

end Gridcalc
