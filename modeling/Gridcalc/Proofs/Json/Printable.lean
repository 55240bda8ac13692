import Gridcalc.Proofs.Json.RoundTrip

/-! # Lines are printable

Whatever a value holds, its line is made of printable ASCII characters. So a line is one line, in
any encoding that has ASCII in it.
-/

namespace Gridcalc.Json

open Text (isAsciiDigit)

def isPrintable (c : Char) : Bool := decide (' ' ≤ c) && decide (c ≤ '~')

theorem isPrintable_of_isAsciiDigit {c : Char} (h : isAsciiDigit c = true) :
    isPrintable c = true := by
  have hall : ∀ c ∈ Text.asciiDigits, isPrintable c = true := by decide
  exact hall c (Text.mem_asciiDigits h)

theorem isPrintable_digitChar (n : Nat) : isPrintable (n % 16).digitChar = true := by
  have hall : ∀ d < 16, isPrintable d.digitChar = true := by decide
  exact hall _ (Nat.mod_lt n (by decide))

theorem all_signed {cs : List Char} (h : cs.all isPrintable = true) (negative : Bool) :
    (Number.Layout.signed negative cs).all isPrintable = true := by
  cases negative with
  | true => exact h
  | false => exact h

theorem all_digits {cs : List Char} (h : ∀ c ∈ cs, isAsciiDigit c = true) :
    cs.all isPrintable = true :=
  List.all_eq_true.mpr fun c hc => isPrintable_of_isAsciiDigit (h c hc)

theorem all_charChars (c : Char) : (charChars c).all isPrintable = true := by
  have hunit : ∀ n, (unitChars n).all isPrintable = true := by
    intro n
    simp only [unitChars, hexDigits4, List.map_cons, List.map_nil, List.all_cons, List.all_nil,
      isPrintable_digitChar, Bool.and_true]
    decide
  rw [charChars]
  iterate 7
    split
    · decide
  split
  · rename_i h
    simp [isPrintable, h]
  · split
    · exact hunit _
    · rw [List.all_append, hunit, hunit, Bool.and_self]

theorem all_textChars (s : String) : (textChars s).all isPrintable = true := by
  have hbody : (s.toList.flatMap charChars).all isPrintable = true := by
    rw [List.all_flatMap, List.all_eq_true]
    exact fun c _ => all_charChars c
  rw [textChars, List.all_append, List.all_cons, hbody]
  decide

theorem all_double {cs : List Char} {d : Number.Decimal} (h : Double cs d) :
    cs.all isPrintable = true := by
  cases h with
  | fraction hds hne hfs =>
    rw [List.all_append, List.all_cons, all_digits hds.digits, all_digits hfs]
    decide
  | power hds hfs hsign hne hes =>
    rename_i fs es sign
    have hmark : isPrintable sign = true := by
      rcases hsign with rfl | rfl <;> decide
    have hfraction : (if fs = [] then [] else '.' :: fs).all isPrintable = true := by
      split
      · rfl
      · rw [List.all_cons, all_digits hfs]
        decide
    rw [List.all_append, List.all_append, List.all_cons, List.all_cons, all_digits hds.digits,
      hfraction, hmark, all_digits hes]
    decide

theorem all_floatChars (v : Float) : (floatLayout.chars v).all isPrintable = true := by
  rcases floatChars_cases v with ⟨-, hchars⟩ | ⟨negative, -, hchars⟩ | ⟨negative, cs, d, hd, -, hchars⟩
  · rw [hchars]
    decide
  · rw [hchars]
    exact all_signed (by decide) negative
  · rw [hchars]
    exact all_signed (all_double hd) negative

mutual
theorem all_lineChars : ∀ j : Json, (lineChars j).all isPrintable = true
  | .null => by decide
  | .bool true => by decide
  | .bool false => by decide
  | .int i => all_signed (all_digits (whole_toDigits i.natAbs).digits) _
  | .float v => all_floatChars v
  | .text s => all_textChars s
  | .list items => by
    rw [lineChars, List.all_append, List.all_cons, all_itemChars items]
    decide
  | .object members => by
    rw [lineChars, List.all_append, List.all_cons, all_memberChars members]
    decide

theorem all_itemChars : ∀ js : List Json, (itemChars js).all isPrintable = true
  | [] => rfl
  | [j] => all_lineChars j
  | j :: j' :: js => by
    rw [itemChars.eq_3 j (j' :: js) (List.cons_ne_nil j' js), List.all_append, List.all_cons,
      List.all_cons, all_lineChars j, all_itemChars (j' :: js)]
    decide

theorem all_memberChars : ∀ ms : List (String × Json), (memberChars ms).all isPrintable = true
  | [] => rfl
  | [(k, v)] => by
    rw [memberChars, List.all_append, List.all_cons, List.all_cons, all_textChars, all_lineChars v]
    decide
  | (k, v) :: m :: ms => by
    rw [memberChars.eq_3 k v (m :: ms) (List.cons_ne_nil m ms)]
    simp only [List.all_append, List.all_cons, all_textChars, all_lineChars v,
      all_memberChars (m :: ms)]
    decide
end

end Gridcalc.Json
