import Mathlib
import Gridcalc.Json.Read
import Gridcalc.Json.Write

/-! # Texts in JSON

A text is written with escapes, its characters beyond the basic plane as two code units. Reading
takes the units off one by one and joins the pairs again.
-/

namespace Gridcalc.Json

def unitsOf (c : Char) : List Nat :=
  if c.toNat < 0x10000 then [c.toNat]
  else [0xd800 + (c.toNat - 0x10000) / 0x400, 0xdc00 + (c.toNat - 0x10000) % 0x400]

theorem toNat_lt (c : Char) : c.toNat < 0x110000 := by
  rcases c.valid with h | ⟨-, h⟩
  · exact Nat.lt_trans h (by decide)
  · exact h

theorem not_surrogate (c : Char) : ¬ (0xd800 ≤ c.toNat ∧ c.toNat < 0xe000) := by
  rintro ⟨hlow, hhigh⟩
  rcases c.valid with h | ⟨h, -⟩
  · exact absurd h (Nat.not_lt.mpr hlow)
  · exact absurd h (Nat.not_lt.mpr (Nat.le_of_lt_succ hhigh))

theorem hexValue?_digitChar {d : Nat} (h : d < 16) : hexValue? d.digitChar = some d := by
  have hall : ∀ d < 16, hexValue? d.digitChar = some d := by decide
  exact hall d h

theorem readUnits_unitChars {n : Nat} (h : n < 0x10000) (rest : List Char) :
    readUnits (unitChars n ++ rest) = (readUnits rest).map fun p => (n :: p.1, p.2) := by
  have hunit : hexUnit? (n / 4096 % 16).digitChar (n / 256 % 16).digitChar (n / 16 % 16).digitChar
      (n % 16).digitChar = some n := by
    simp only [hexUnit?, hexValue?_digitChar (Nat.mod_lt _ (by decide : 0 < 16)),
      Option.bind_eq_bind, Option.bind_some, Option.pure_def, Option.some.injEq]
    omega
  simp only [unitChars, hexDigits4, List.map_cons, List.map_nil, List.cons_append, List.nil_append]
  rw [readUnits, hunit]
  cases readUnits rest <;> rfl

theorem readUnits_shortEscape {c : Char} {n : Nat} (hu : c ≠ 'u') (h : shortEscape? c = some n)
    (rest : List Char) :
    readUnits ('\\' :: c :: rest) = (readUnits rest).map fun p => (n :: p.1, p.2) := by
  rw [readUnits, h]
  · cases readUnits rest <;> rfl
  · rintro _ _ _ _ _ rfl
    exact absurd rfl hu

theorem readUnits_plain {c : Char} (hquote : c ≠ '"') (hslash : c ≠ '\\') (h : 0x20 ≤ c.toNat)
    (rest : List Char) :
    readUnits (c :: rest) = (readUnits rest).map fun p => (c.toNat :: p.1, p.2) := by
  rw [readUnits]
  · rw [if_neg (Nat.not_lt.mpr h)]
    cases readUnits rest <;> rfl
  · rintro rfl
    exact absurd rfl hquote
  · rintro _ _ _ _ _ rfl
    exact absurd rfl hslash
  · rintro _ _ rfl
    exact absurd rfl hslash

theorem readUnits_charChars (c : Char) (rest : List Char) :
    readUnits (charChars c ++ rest) =
      (readUnits rest).map fun p => (unitsOf c ++ p.1, p.2) := by
  have hunits : c.toNat < 0x10000 → unitsOf c = [c.toNat] := fun h => if_pos h
  rw [charChars]
  iterate 7
    split
    · subst_vars
      exact readUnits_shortEscape (by decide) (by decide) rest
  split
  · rename_i hquote hslash _ _ _ _ _ h
    have hc : 0x20 ≤ c.toNat ∧ c.toNat ≤ 0x7e := by
      simpa [Char.le_def, UInt32.le_iff_toNat_le] using h
    rw [hunits (by omega)]
    exact readUnits_plain hquote hslash hc.1 rest
  · split
    · rename_i h
      rw [hunits h]
      exact readUnits_unitChars h rest
    · rename_i h
      have hc := toNat_lt c
      rw [unitsOf, if_neg h, List.append_assoc, readUnits_unitChars (by omega),
        readUnits_unitChars (by omega)]
      cases readUnits rest <;> rfl

theorem readUnits_chars (cs rest : List Char) :
    readUnits (cs.flatMap charChars ++ '"' :: rest) = some (cs.flatMap unitsOf, rest) := by
  induction cs with
  | nil => rw [List.flatMap_nil, List.nil_append, readUnits, List.flatMap_nil]
  | cons c cs ih =>
    rw [List.flatMap_cons, List.append_assoc, readUnits_charChars, ih, List.flatMap_cons]
    rfl

theorem lone_toNat (c : Char) : joinUnits.lone c.toNat = c := by
  rw [joinUnits.lone, if_neg (not_surrogate c), Char.ofNat_toNat]

theorem joinUnits_unitsOf (c : Char) (units : List Nat) :
    joinUnits (unitsOf c ++ units) = c :: joinUnits units := by
  rw [unitsOf]
  split
  · cases units with
    | nil => simp [joinUnits, lone_toNat]
    | cons unit units =>
      have hnot := not_surrogate c
      rw [List.singleton_append, joinUnits, if_neg (by omega), lone_toNat]
  · rename_i h
    have hc := toNat_lt c
    rw [List.cons_append, List.singleton_append, joinUnits, if_pos (by omega)]
    have hjoined : 0x10000 + (0xd800 + (c.toNat - 0x10000) / 0x400 - 0xd800) * 0x400 +
        (0xdc00 + (c.toNat - 0x10000) % 0x400 - 0xdc00) = c.toNat := by omega
    rw [hjoined, Char.ofNat_toNat]

theorem joinUnits_flatMap (cs : List Char) : joinUnits (cs.flatMap unitsOf) = cs := by
  induction cs with
  | nil => rfl
  | cons c cs ih => rw [List.flatMap_cons, joinUnits_unitsOf, ih]

theorem readUnits_text (s : String) (rest : List Char) :
    ∃ units, readUnits (s.toList.flatMap charChars ++ '"' :: rest) = some (units, rest) ∧
      String.ofList (joinUnits units) = s :=
  ⟨_, readUnits_chars s.toList rest, by rw [joinUnits_flatMap, String.ofList_toList]⟩

end Gridcalc.Json
