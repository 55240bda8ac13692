import Gridcalc.Proofs.Number.Spelled

/-! # The longest number at the head of a text

A text is read up to the end of the longest number that it starts with, although the reader never
goes back. What is read is a number, and it does not end before any number that the text starts
with.
-/

namespace Gridcalc.Number

open Text (Stops isBlank isDigit digitsValue)

variable {cs ds fs ms es p : List Char} {e : Int} {d : Decimal} {v : Float}

theorem exists_signSpelled (cs : List Char) :
    ∃ sign, SignSpelled sign (takeSign cs).1 ∧ sign ++ (takeSign cs).2 = cs := by
  fun_cases takeSign cs
  · exact ⟨_, .minus, rfl⟩
  · exact ⟨_, .plus, rfl⟩
  · exact ⟨_, .none, rfl⟩

theorem exists_powerSpelled (cs : List Char) :
    ∃ es, PowerSpelled es (takePower cs).1 ∧ es ++ (takePower cs).2 = cs := by
  rw [takePower]
  cases cs with
  | nil => exact ⟨[], .none, rfl⟩
  | cons c cs =>
    obtain ⟨sign, hsign, hcs⟩ := exists_signSpelled cs
    simp only [takeExponent?]
    split
    · rename_i hpower
      refine ⟨_, .power hpower.1 hsign hpower.2 (List.all_eq_true.mp List.all_takeWhile), ?_⟩
      simp [hcs]
    · exact ⟨[], .none, rfl⟩

theorem exists_mantissaSpelled (cs : List Char) (hsome : (takeMantissa cs).1 ≠ ([], [])) :
    ∃ ms, MantissaSpelled ms (takeMantissa cs).1.1 (takeMantissa cs).1.2 ∧
      ms ++ (takeMantissa cs).2 = cs := by
  have hds : ∀ c ∈ cs.takeWhile isDigit, isDigit c = true := List.all_eq_true.mp List.all_takeWhile
  have hsplit := List.takeWhile_append_dropWhile (p := isDigit) (l := cs)
  simp only [takeMantissa] at hsome ⊢
  generalize cs.dropWhile isDigit = rest at *
  fun_cases takeFraction rest with
  | case1 rest =>
    rw [takeFraction, ne_eq, Prod.mk.injEq, not_and_or] at hsome
    refine ⟨_, .point hsome hds (List.all_eq_true.mp List.all_takeWhile), ?_⟩
    rw [List.append_assoc, List.cons_append, List.takeWhile_append_dropWhile, hsplit]
  | case2 rest hpoint =>
    rw [takeFraction.eq_2 rest hpoint, ne_eq, Prod.mk.injEq, not_and_or] at hsome
    exact ⟨_, .whole (hsome.resolve_right (not_not_intro rfl)) hds, hsplit⟩

theorem exists_decimalSpelled {rest : List Char} (h : takeDecimal? cs = some (d, rest)) :
    ∃ taken, DecimalSpelled taken d ∧ taken ++ rest = cs := by
  rw [takeDecimal?_eq] at h
  split at h
  · cases h
  · rename_i hsome
    cases h
    obtain ⟨ms, hmantissa, hms⟩ := exists_mantissaSpelled cs hsome
    obtain ⟨es, hpower, hes⟩ := exists_powerSpelled (takeMantissa cs).2
    exact ⟨_, .mk hmantissa hpower, by rw [List.append_assoc, hes, hms]⟩

theorem exists_numberSpelled {rest : List Char} (h : takeNumber? cs = some (v, rest)) :
    ∃ p, NumberSpelled p v ∧ p ++ rest = cs.dropWhile isBlank := by
  obtain ⟨sign, hsign, hcs⟩ := exists_signSpelled (cs.dropWhile isBlank)
  rw [← hcs]
  simp only [takeNumber?] at h
  split at h
  · rename_i hword
    cases h
    obtain ⟨tail, htail⟩ := List.isPrefixOf_iff_prefix.mp hword
    refine ⟨_, .infinity hsign, ?_⟩
    rw [← htail, List.drop_left, List.append_assoc]
    rfl
  · obtain ⟨⟨d, rest'⟩, htake, heq⟩ := Option.map_eq_some_iff.mp h
    cases heq
    obtain ⟨taken, hdecimal, hsplit⟩ := exists_decimalSpelled htake
    exact ⟨_, .decimal hsign hdecimal, by rw [List.append_assoc, hsplit]⟩

theorem PowerSpelled.length_takePower_le (h : PowerSpelled es e) (tail : List Char) :
    (takePower (es ++ tail)).2.length ≤ tail.length := by
  cases h with
  | none =>
    obtain ⟨es, -, hes⟩ := exists_powerSpelled tail
    have hlength := congrArg List.length hes
    rw [List.length_append] at hlength
    rw [List.nil_append]
    omega
  | power hmark hsign hne hes =>
    rw [List.cons_append, List.append_assoc, takePower_of_power hmark hsign hne hes]
    exact List.length_dropWhile_le _ _

theorem length_takeFraction_le (cs : List Char) : (takeFraction cs).2.length ≤ cs.length := by
  fun_cases takeFraction cs
  · exact (List.length_dropWhile_le _ _).trans (Nat.le_succ _)
  · exact Nat.le_refl _

theorem MantissaSpelled.length_takeMantissa_le (h : MantissaSpelled ms ds fs) (tail : List Char) :
    (takeMantissa (ms ++ tail)).1 ≠ ([], []) ∧
      (takeMantissa (ms ++ tail)).2.length ≤ tail.length := by
  cases h with
  | whole hne hds =>
    rw [takeMantissa_whole hds]
    refine ⟨by simp [hne], (length_takeFraction_le _).trans (List.length_dropWhile_le _ _)⟩
  | point hne hds hfs =>
    rw [takeMantissa_point hds hfs]
    refine ⟨?_, List.length_dropWhile_le _ _⟩
    rcases hne with hne | hne <;> simp [hne]

theorem DecimalSpelled.exists_takeDecimal? (h : DecimalSpelled cs d) (tail : List Char) :
    ∃ d' rest, takeDecimal? (cs ++ tail) = some (d', rest) ∧ rest.length ≤ tail.length := by
  obtain ⟨hmantissa, hpower⟩ := h
  rename_i ms ds fs es e
  rw [List.append_assoc]
  obtain ⟨hsome, hlength⟩ := hmantissa.length_takeMantissa_le (es ++ tail)
  refine ⟨_, _, (takeDecimal?_eq _).trans (if_neg hsome), ?_⟩
  by_cases hstop : Stops continuesMantissa (es ++ tail)
  · rw [hmantissa.takeMantissa_append hstop]
    exact hpower.length_takePower_le tail
  · -- Digits or a point follow the mantissa, so there is no power of ten.
    have hnil : es = [] := by
      by_contra hne
      exact hstop (hpower.stops fun hnil => absurd hnil hne)
    subst hnil
    exact (PowerSpelled.none.length_takePower_le _).trans hlength

theorem NumberSpelled.exists_takeNumber? (h : NumberSpelled p v) (tail : List Char) :
    ∃ w rest, takeNumber? (p ++ tail) = some (w, rest) ∧ rest.length ≤ tail.length := by
  cases h with
  | infinity hsign => exact ⟨_, tail, takeNumber?_infinity hsign tail, Nat.le_refl _⟩
  | @decimal _ _ negative _ hsign hdecimal =>
    obtain ⟨d, rest, htake, hlength⟩ := hdecimal.exists_takeDecimal? tail
    refine ⟨d.toFloat negative, rest, ?_, hlength⟩
    rw [takeNumber?_decimal hsign hdecimal, htake]
    rfl

/-- The number is at the head of the text, and no longer one is. -/
structure LongestNumber (cs p : List Char) (v : Float) : Prop where
  prefixed : p <+: cs
  spelled : NumberSpelled p v
  longest : ∀ q w, q <+: cs → NumberSpelled q w → q.length ≤ p.length

theorem LongestNumber.eq_of_longest {q : List Char} {w : Float} (hp : LongestNumber cs p v)
    (hq : LongestNumber cs q w) : p = q :=
  List.IsPrefix.eq_of_length (List.prefix_of_prefix_length_le hp.prefixed hq.prefixed
    (hq.longest p v hp.prefixed hp.spelled))
    (Nat.le_antisymm (hq.longest p v hp.prefixed hp.spelled)
      (hp.longest q w hq.prefixed hq.spelled))

theorem NumberSpelled.value_unique {w : Float} (hv : NumberSpelled p v) (hw : NumberSpelled p w) :
    v = w := by
  have htake := hv.takeNumber?_self
  rw [hw.takeNumber?_self] at htake
  cases htake
  rfl

theorem takeNumber?_dropWhile (cs : List Char) :
    takeNumber? (cs.dropWhile isBlank) = takeNumber? cs := by
  rw [takeNumber?, takeNumber?, Text.dropWhile_of_stops (Text.stops_dropWhile isBlank cs)]

theorem longestNumber_of_takeNumber? {rest : List Char} (h : takeNumber? cs = some (v, rest)) :
    ∃ p, LongestNumber (cs.dropWhile isBlank) p v := by
  obtain ⟨p, hspelled, hsplit⟩ := exists_numberSpelled h
  refine ⟨p, ⟨rest, hsplit⟩, hspelled, ?_⟩
  rintro q w ⟨tail, htail⟩ hq
  obtain ⟨w', rest', htake, hlength⟩ := hq.exists_takeNumber? tail
  rw [htail, takeNumber?_dropWhile, h] at htake
  cases htake
  have htotal := congrArg List.length (htail.trans hsplit.symm)
  rw [List.length_append, List.length_append] at htotal
  omega

theorem numericPrefix?_eq_none_iff (s : String) :
    numericPrefix? s = none ↔
      ∀ p v, p <+: s.toList.dropWhile isBlank → ¬NumberSpelled p v := by
  rw [numericPrefix?, Option.map_eq_none_iff]
  constructor
  · rintro hnone p v ⟨tail, htail⟩ hp
    obtain ⟨w, rest, htake, -⟩ := hp.exists_takeNumber? tail
    rw [htail, takeNumber?_dropWhile, hnone] at htake
    cases htake
  · intro hnot
    cases htake : takeNumber? s.toList with
    | none => rfl
    | some taken =>
      obtain ⟨p, hp⟩ := longestNumber_of_takeNumber? htake
      exact absurd hp.spelled (hnot p _ hp.prefixed)

theorem numericPrefix?_eq_some_iff (s : String) (v : Float) :
    numericPrefix? s = some v ↔ ∃ p, LongestNumber (s.toList.dropWhile isBlank) p v := by
  constructor
  · intro h
    obtain ⟨⟨v, rest⟩, htake, rfl⟩ := Option.map_eq_some_iff.mp h
    exact longestNumber_of_takeNumber? htake
  · rintro ⟨p, hp⟩
    cases hread : numericPrefix? s with
    | none => exact absurd hp.spelled ((numericPrefix?_eq_none_iff s).mp hread p v hp.prefixed)
    | some w =>
      obtain ⟨⟨w, rest⟩, htake, rfl⟩ := Option.map_eq_some_iff.mp hread
      obtain ⟨q, hq⟩ := longestNumber_of_takeNumber? htake
      obtain rfl : p = q := hp.eq_of_longest hq
      rw [hp.spelled.value_unique hq.spelled]

/-- A text that no number begins after its blanks has no numeric reading. Any other text has the
value of the longest number there, and reading that number on its own gives the value, too. -/
theorem numericPrefix?_longest (s : String) :
    (numericPrefix? s = none ↔
      ∀ p v, p <+: s.toList.dropWhile isBlank → ¬NumberSpelled p v) ∧
    (∀ v, numericPrefix? s = some v ↔ ∃ p, LongestNumber (s.toList.dropWhile isBlank) p v) ∧
    ∀ p v, LongestNumber (s.toList.dropWhile isBlank) p v → float? (String.ofList p) = some v :=
  ⟨numericPrefix?_eq_none_iff s, numericPrefix?_eq_some_iff s, fun _ _ h => h.spelled.float?_eq⟩

/-- A point without digits behind it belongs to the number, an exponent without digits does
not. -/
theorem numericPrefix?_longest_unfinished :
    numericPrefix? "\t-1.e" = some (Decimal.toFloat true ⟨1, 0⟩) ∧
      (∃ p, LongestNumber ("\t-1.e".toList.dropWhile isBlank) p (Decimal.toFloat true ⟨1, 0⟩)) ∧
      ∀ p v, p <+: "-.e".toList.dropWhile isBlank → ¬NumberSpelled p v :=
  ⟨rfl, ((numericPrefix?_longest "\t-1.e").2.1 _).mp rfl,
    (numericPrefix?_longest "-.e").1.mp (by decide +kernel)⟩

end Gridcalc.Number
