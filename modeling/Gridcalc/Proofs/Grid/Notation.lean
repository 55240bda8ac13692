import Gridcalc.Proofs.Grid.Key
import Gridcalc.Proofs.Grid.Rectangle

/-! # The notations of a cell

A cell is written as A1 text, as a storage key, or as a reference with markers. Keys and A1 texts
are recognised by their parts, of which they have no common choice: a key goes on with a letter
after its first digits, where an A1 text has ended.
-/

namespace Gridcalc

open Text (Stops isDigit stops_nil stops_cons takeWhile_run dropWhile_run)

variable {a b : Address} {r : Reference} {cs : List Char} {s : String}

namespace Address

/-- Neither above the first row nor left of the first column. -/
def Proper (a : Address) : Prop := 0 ≤ a.row ∧ 0 ≤ a.column

instance (a : Address) : Decidable a.Proper := inferInstanceAs (Decidable (_ ∧ _))

def IsNumber (cs : List Char) : Prop := cs ≠ [] ∧ ∀ c ∈ cs, isDigit c = true

/-- The text is a storage key of the cell, perhaps with a line break after it. -/
inductive KeySpelled : List Char → Address → Prop
  | intro {row column rest : List Char} (hrow : IsNumber row) (hcolumn : IsNumber column)
    (hend : atEnd rest = true) :
    KeySpelled ('r' :: (row ++ 'c' :: (column ++ rest)))
      ⟨Text.digitsValue row, Text.digitsValue column⟩

/-- The text is an A1 text of the cell, perhaps with a line break after it. -/
inductive A1Spelled : List Char → Address → Prop
  | intro {letters digits rest : List Char} (hne : letters ≠ [])
    (hletters : ∀ c ∈ letters, isColumnLetter c = true) (hdigits : ∀ c ∈ digits, isDigit c = true)
    (hnumber : Text.digitsValue digits ≠ 0) (hend : atEnd rest = true) :
    A1Spelled (letters ++ (digits ++ rest))
      ⟨(Text.digitsValue digits : Int) - 1, Column.index (String.ofList letters)⟩

theorem stops_digit_c (cs : List Char) : Stops isDigit ('c' :: cs) := stops_cons (by decide)

theorem KeySpelled.ofKeyChars? (h : KeySpelled cs a) : Address.ofKeyChars? cs = some a := by
  cases h with
  | intro hrow hcolumn hend =>
    have hstop := stops_of_atEnd hend
    simp only [Address.ofKeyChars?, takeWhile_run hrow.2 (stops_digit_c _),
      dropWhile_run hrow.2 (stops_digit_c _), takeWhile_run hcolumn.2 hstop,
      dropWhile_run hcolumn.2 hstop]
    simp [hrow.1, hcolumn.1, hend]

theorem keySpelled_of_ofKeyChars? (h : Address.ofKeyChars? cs = some a) : KeySpelled cs a := by
  unfold Address.ofKeyChars? at h
  split at h
  · rename_i tail
    split at h
    · rename_i columnAndRest hmark
      dsimp only at h
      split at h
      · rename_i hparts
        simp only [Bool.and_eq_true, bne_iff_ne, ne_eq] at hparts
        obtain ⟨⟨hrow, hcolumn⟩, hend⟩ := hparts
        cases h
        have hspelled := KeySpelled.intro ⟨hrow, List.all_eq_true.mp List.all_takeWhile⟩
          ⟨hcolumn, List.all_eq_true.mp List.all_takeWhile⟩ hend
        rwa [List.takeWhile_append_dropWhile, ← hmark, List.takeWhile_append_dropWhile]
          at hspelled
      · cases h
    · cases h
  · cases h

theorem ofKey?_eq_some_iff : ofKey? s = some a ↔ KeySpelled s.toList a :=
  ⟨keySpelled_of_ofKeyChars?, KeySpelled.ofKeyChars?⟩

theorem stops_isColumnLetter {digits rest : List Char} (hdigits : ∀ c ∈ digits, isDigit c = true)
    (hend : atEnd rest = true) : Stops isColumnLetter (digits ++ rest) := by
  cases digits with
  | nil =>
    simp only [atEnd, Bool.or_eq_true, beq_iff_eq] at hend
    rcases hend with rfl | rfl
    · exact stops_nil isColumnLetter
    · exact stops_cons (by decide)
  | cons c digits =>
    refine stops_cons ?_
    by_contra hletter
    have hdigit := hdigits c List.mem_cons_self
    rw [Reference.isDigit_of_isColumnLetter (by simpa using hletter)] at hdigit
    cases hdigit

theorem A1Spelled.ofA1Chars? (h : A1Spelled cs a) : Address.ofA1Chars? cs = some a := by
  cases h with
  | intro hne hletters hdigits hnumber hend =>
    have hletter := stops_isColumnLetter hdigits hend
    have hstop := stops_of_atEnd hend
    simp only [Address.ofA1Chars?, takeWhile_run hletters hletter, dropWhile_run hletters hletter,
      takeWhile_run hdigits hstop, dropWhile_run hdigits hstop]
    simp [hne, hnumber, hend]

theorem a1Spelled_of_ofA1Chars? (h : Address.ofA1Chars? cs = some a) : A1Spelled cs a := by
  simp only [Address.ofA1Chars?] at h
  split at h
  · rename_i hparts
    simp only [Bool.and_eq_true, bne_iff_ne, ne_eq] at hparts
    obtain ⟨⟨hletters, hnumber⟩, hend⟩ := hparts
    cases h
    have hspelled := A1Spelled.intro hletters (List.all_eq_true.mp List.all_takeWhile)
      (List.all_eq_true.mp List.all_takeWhile) hnumber hend
    rwa [List.takeWhile_append_dropWhile, List.takeWhile_append_dropWhile] at hspelled
  · cases h

theorem ofA1?_eq_some_iff : ofA1? s = some a ↔ A1Spelled s.toList a :=
  ⟨a1Spelled_of_ofA1Chars?, A1Spelled.ofA1Chars?⟩

theorem A1Spelled.proper (h : A1Spelled cs a) : a.Proper := by
  cases h with
  | intro hne hletters _ hnumber _ =>
    have hpos := Nat.pos_of_ne_zero hnumber
    exact ⟨by simp only; omega, Column.index_nonneg hne hletters⟩

theorem proper_of_namedCell? (h : namedCell? s = some a) : a.Proper :=
  (ofA1?_eq_some_iff.mp h).proper

/-- The letters of an A1 text are followed by digits to its end, so there is no second letter
behind a digit. -/
theorem not_a1Spelled_of_keySpelled (hkey : KeySpelled cs a) : ¬ A1Spelled cs b := by
  intro ha1
  have hread := ha1.ofA1Chars?
  cases hkey with
  | intro hrow hcolumn hend =>
    rename_i row column rest
    have hr : ∀ c ∈ ['r'], isColumnLetter c = true := by decide
    have hletter : Stops isColumnLetter (row ++ 'c' :: (column ++ rest)) := by
      obtain ⟨d, ds, rfl⟩ := List.exists_cons_of_ne_nil hrow.1
      have hstop : Stops isColumnLetter ((d :: ds) ++ []) := stops_isColumnLetter hrow.2 rfl
      exact stops_cons (hstop d rfl)
    rw [← List.singleton_append] at hread
    simp only [Address.ofA1Chars?, takeWhile_run hr hletter, dropWhile_run hr hletter,
      takeWhile_run hrow.2 (stops_digit_c _), dropWhile_run hrow.2 (stops_digit_c _)] at hread
    simp [atEnd] at hread

theorem ofA1?_eq_none_of_ofKey? (h : ofKey? s = some a) : ofA1? s = none := by
  rw [ofKey?_eq_some_iff] at h
  refine Option.eq_none_iff_forall_ne_some.mpr fun b hb => ?_
  exact not_a1Spelled_of_keySpelled h (ofA1?_eq_some_iff.mp hb)

/-- There is no marker in a key, so it reads the same without markers. -/
theorem KeySpelled.stripMarkers (h : KeySpelled s.toList a) : stripMarkers s = s := by
  have hdollar : ∀ c ∈ s.toList, (c != '$') = true := by
    intro c hc
    rw [bne_iff_ne]
    rintro rfl
    have hdigit : isDigit '$' = false := by decide
    generalize s.toList = cs at h hc
    cases h with
    | intro hrow hcolumn hend =>
      simp only [atEnd, Bool.or_eq_true, beq_iff_eq] at hend
      simp only [List.mem_cons, List.mem_append] at hc
      rcases hc with hc | hc | hc | hc | hc
      · cases hc
      · rw [hrow.2 _ hc] at hdigit
        cases hdigit
      · cases hc
      · rw [hcolumn.2 _ hc] at hdigit
        cases hdigit
      · rcases hend with rfl | rfl
        · cases hc
        · cases List.mem_singleton.mp hc
  rw [Gridcalc.stripMarkers, List.filter_eq_self.mpr hdollar, String.ofList_toList]

theorem namedCell?_eq_none_of_ofKey? (h : ofKey? s = some a) : namedCell? s = none := by
  rw [namedCell?, (ofKey?_eq_some_iff.mp h).stripMarkers]
  exact ofA1?_eq_none_of_ofKey? h

theorem a1Spelled_toA1 (h : a.Proper) : A1Spelled a.toA1.toList a := by
  obtain ⟨row, column⟩ := a
  obtain ⟨i, rfl⟩ := Int.eq_ofNat_of_zero_le h.1
  obtain ⟨j, rfl⟩ := Int.eq_ofNat_of_zero_le h.2
  have hall : ∀ c ∈ Column.capitals, isColumnLetter c = true := by decide
  have hnumber : Text.digitsValue (Nat.toDigits 10 (i + 1)) ≠ 0 := by
    rw [Text.digitsValue_toDigits]
    exact Nat.succ_ne_zero i
  have hspelled := A1Spelled.intro (Column.lettersFrom_ne_nil (Nat.succ_pos j))
    (fun c hc => hall c (Column.mem_capitals_of_mem_lettersFrom hc))
    (fun c hc => Text.isDigit_of_mem_toDigits hc) hnumber (show atEnd [] = true from rfl)
  have hdigits : (Int.repr (i + 1)).toList = Nat.toDigits 10 (i + 1) := Nat.toList_repr
  simpa [toA1, Column.letters, Column.index_lettersFrom, Text.digitsValue_toDigits, hdigits]
    using hspelled

theorem ofA1?_toA1 (h : a.Proper) : ofA1? a.toA1 = some a :=
  ofA1?_eq_some_iff.mpr (a1Spelled_toA1 h)

theorem keyToA1?_key (h : a.Proper) : keyToA1? a.key = some a.toA1 := by
  rw [keyToA1?, ofKey?_key h.1 h.2, Option.map_some]

theorem keyOfReference?_toText (h : r.address.Proper) :
    keyOfReference? r.toText = some r.address.key := by
  obtain ⟨s, hs, -, -⟩ := Reference.exists_spelling h.1 h.2
  have hspelled : Reference.Spelled r.toText := ⟨s, hs⟩
  rw [keyOfReference?, hspelled.ofA1?_stripMarkers, Reference.ofText?_toText h.1 h.2]
  rfl

/-- Each notation of a cell is read as that cell, so that different cells have different keys and
different A1 texts, and no text is both. -/
theorem notations_agree :
    (∀ a : Address, a.Proper →
      ofA1? a.toA1 = some a ∧ ofKey? a.key = some a ∧ keyToA1? a.key = some a.toA1) ∧
    (∀ r : Reference, r.address.Proper →
      Reference.ofText? r.toText = some r ∧ keyOfReference? r.toText = some r.address.key) ∧
    (∀ a b : Address, a.Proper → b.Proper → a ≠ b → a.key ≠ b.key ∧ a.toA1 ≠ b.toA1) ∧
    (∀ s, ofKey? s ≠ none → ofA1? s = none ∧ ofA1? (stripMarkers s) = none) := by
  refine ⟨fun a ha => ⟨ofA1?_toA1 ha, ofKey?_key ha.1 ha.2, keyToA1?_key ha⟩,
    fun r hr => ⟨Reference.ofText?_toText hr.1 hr.2, keyOfReference?_toText hr⟩,
    fun a b ha hb hne => ⟨?_, ?_⟩, fun s hs => ?_⟩
  · exact fun hkey => hne (key_injective_of_nonneg ha.1 ha.2 hb.1 hb.2 hkey)
  · intro htext
    have hread := ofA1?_toA1 ha
    rw [htext, ofA1?_toA1 hb] at hread
    exact hne (Option.some.inj hread).symm
  · obtain ⟨a, ha⟩ := Option.ne_none_iff_exists'.mp hs
    exact ⟨ofA1?_eq_none_of_ofKey? ha, namedCell?_eq_none_of_ofKey? ha⟩

/-- `AA` is the first column with two letters. -/
theorem notations_agree_AA100 :
    ofA1? "AA100" = some ⟨99, 26⟩ ∧ ofKey? "r99c26" = some ⟨99, 26⟩ ∧
      keyToA1? "r99c26" = some "AA100" ∧
      Reference.ofText? "$AA100" = some ⟨26, 99, true, false⟩ ∧
      keyOfReference? "$AA100" = some "r99c26" ∧ "r99c26" ≠ "r0c0" ∧
      ofA1? "r99c26" = none := by
  have ha1 : (⟨99, 26⟩ : Address).toA1 = "AA100" := by decide +kernel
  have hkey : (⟨99, 26⟩ : Address).key = "r99c26" := by decide +kernel
  have hfirst : (⟨0, 0⟩ : Address).key = "r0c0" := by decide +kernel
  have htext : (⟨26, 99, true, false⟩ : Reference).toText = "$AA100" := by decide +kernel
  obtain ⟨hcell, hreference, hdistinct, hone⟩ := notations_agree
  have hread := hcell ⟨99, 26⟩ (by decide)
  rw [ha1, hkey] at hread
  have hpinned := hreference ⟨26, 99, true, false⟩ (by decide)
  rw [htext, show Reference.address ⟨26, 99, true, false⟩ = ⟨99, 26⟩ from rfl, hkey] at hpinned
  have hkeys := hdistinct ⟨99, 26⟩ ⟨0, 0⟩ (by decide) (by decide) (by decide)
  rw [hkey, hfirst] at hkeys
  refine ⟨hread.1, hread.2.1, hread.2.2, hpinned.1, hpinned.2, hkeys.1, (hone "r99c26" ?_).1⟩
  rw [hread.2.1]
  exact Option.some_ne_none _

end Address

end Gridcalc
