import Mathlib
import Gridcalc.Number.Numeral
import Gridcalc.Proofs.Text.Blank

/-! # Numbers as texts

What a number is as a text: a sign or none, and then either the word for infinity or digits,
perhaps with a point among them or at one end, and perhaps a power of ten. The digits may be
those of any script. Both readers, the one that looks for a number at the head of a text and the
one that takes a text as a whole, read all of such a text and give the same value.
-/

namespace Gridcalc.Number

open Text (Stops isBlank isDigit digitsValue stops_nil stops_cons takeWhile_run dropWhile_run)

inductive SignSpelled : List Char → Bool → Prop
  | none : SignSpelled [] false
  | plus : SignSpelled ['+'] false
  | minus : SignSpelled ['-'] true

/-- Digits with perhaps a point and more digits behind it, or a point and digits: the text, the
digits before the point, and those behind it. -/
inductive MantissaSpelled : List Char → List Char → List Char → Prop
  | whole {ds : List Char} (hne : ds ≠ []) (hds : ∀ c ∈ ds, isDigit c = true) :
    MantissaSpelled ds ds []
  | point {ds fs : List Char} (hne : ds ≠ [] ∨ fs ≠ []) (hds : ∀ c ∈ ds, isDigit c = true)
    (hfs : ∀ c ∈ fs, isDigit c = true) :
    MantissaSpelled (ds ++ '.' :: fs) ds fs

/-- A power of ten, or nothing. -/
inductive PowerSpelled : List Char → Int → Prop
  | none : PowerSpelled [] 0
  | power {mark : Char} {sign es : List Char} {negative : Bool} (hmark : mark = 'e' ∨ mark = 'E')
    (hsign : SignSpelled sign negative) (hne : es ≠ []) (hes : ∀ c ∈ es, isDigit c = true) :
    PowerSpelled (mark :: (sign ++ es)) (signedInt negative (digitsValue es))

/-- The text is a number without sign, and the decimal fraction is its value. -/
inductive DecimalSpelled : List Char → Decimal → Prop
  | mk {ms ds fs es : List Char} {e : Int} (hmantissa : MantissaSpelled ms ds fs)
    (hpower : PowerSpelled es e) :
    DecimalSpelled (ms ++ es) ⟨digitsValue (ds ++ fs), e - fs.length⟩

/-- The text is a number from its first character to its last, and the double is its value. -/
inductive NumberSpelled : List Char → Float → Prop
  | infinity {sign : List Char} {negative : Bool} (hsign : SignSpelled sign negative) :
    NumberSpelled (sign ++ "Infinity".toList) (infinity negative)
  | decimal {sign cs : List Char} {negative : Bool} {d : Decimal}
    (hsign : SignSpelled sign negative) (hdecimal : DecimalSpelled cs d) :
    NumberSpelled (sign ++ cs) (d.toFloat negative)

variable {cs ds fs ms es sign tail p : List Char} {negative : Bool} {e : Int} {d : Decimal}
  {v : Float}

def isSign (c : Char) : Bool := c == '+' || c == '-'

theorem isSign_of_isDigit {c : Char} (h : isDigit c = true) : isSign c = false := by
  rw [isSign, Bool.or_eq_false_iff, beq_eq_false_iff_ne, beq_eq_false_iff_ne]
  constructor
  · rintro rfl
    exact absurd h (by decide)
  · rintro rfl
    exact absurd h (by decide)

theorem SignSpelled.takeSign_append (h : SignSpelled sign negative) (hcs : Stops isSign cs) :
    takeSign (sign ++ cs) = (negative, cs) := by
  cases h with
  | none =>
    rw [List.nil_append]
    fun_cases takeSign cs
    · cases hcs '-' rfl
    · cases hcs '+' rfl
    · rfl
  | plus => rfl
  | minus => rfl

def takePower (cs : List Char) : Int × List Char := (takeExponent? isDigit cs).getD (0, cs)

theorem takePower_of_power {mark : Char} (hmark : mark = 'e' ∨ mark = 'E')
    (hsign : SignSpelled sign negative) (hne : es ≠ []) (hes : ∀ c ∈ es, isDigit c = true)
    (tail : List Char) :
    takePower (mark :: (sign ++ (es ++ tail))) =
      (signedInt negative (digitsValue (es ++ tail.takeWhile isDigit)),
        tail.dropWhile isDigit) := by
  have hstop : Stops isSign (es ++ tail) :=
    Stops.append hne fun c hc => isSign_of_isDigit (hes c (List.mem_of_mem_head? hc))
  simp only [takePower, takeExponent?, hsign.takeSign_append hstop,
    List.takeWhile_append_of_pos hes, List.dropWhile_append_of_pos hes]
  rw [if_pos ⟨hmark, by simp [hne]⟩, Option.getD_some]

theorem PowerSpelled.takePower_self (h : PowerSpelled es e) : takePower es = (e, []) := by
  cases h with
  | none => rfl
  | power hmark hsign hne hes =>
    have htake := takePower_of_power hmark hsign hne hes []
    simpa using htake

def takeMantissa (cs : List Char) : (List Char × List Char) × List Char :=
  ((cs.takeWhile isDigit, (takeFraction (cs.dropWhile isDigit)).1),
    (takeFraction (cs.dropWhile isDigit)).2)

theorem takeDecimal?_eq (cs : List Char) :
    takeDecimal? cs =
      if (takeMantissa cs).1 = ([], []) then none
      else some (⟨digitsValue ((takeMantissa cs).1.1 ++ (takeMantissa cs).1.2),
        (takePower (takeMantissa cs).2).1 - (takeMantissa cs).1.2.length⟩,
        (takePower (takeMantissa cs).2).2) := by
  rw [takeDecimal?]
  simp only [takeMantissa, takePower, Prod.mk.injEq]

def continuesMantissa (c : Char) : Bool := isDigit c || c == '.'

theorem isSign_of_continuesMantissa {c : Char} (h : continuesMantissa c = true) :
    isSign c = false := by
  rw [continuesMantissa, Bool.or_eq_true, beq_iff_eq] at h
  rcases h with hdigit | rfl
  · exact isSign_of_isDigit hdigit
  · decide

theorem takeFraction_of_stops (h : Stops continuesMantissa cs) : takeFraction cs = ([], cs) := by
  fun_cases takeFraction cs
  · cases h '.' rfl
  · rfl

theorem stops_isDigit_of_stops (h : Stops continuesMantissa cs) : Stops isDigit cs := by
  intro c hc
  have hnot := h c hc
  rw [continuesMantissa, Bool.or_eq_false_iff] at hnot
  exact hnot.1

theorem takeMantissa_whole (hds : ∀ c ∈ ds, isDigit c = true) (tail : List Char) :
    takeMantissa (ds ++ tail) = ((ds ++ tail.takeWhile isDigit,
      (takeFraction (tail.dropWhile isDigit)).1), (takeFraction (tail.dropWhile isDigit)).2) := by
  rw [takeMantissa, List.takeWhile_append_of_pos hds, List.dropWhile_append_of_pos hds]

theorem takeMantissa_point (hds : ∀ c ∈ ds, isDigit c = true) (hfs : ∀ c ∈ fs, isDigit c = true)
    (tail : List Char) :
    takeMantissa (ds ++ '.' :: fs ++ tail) =
      ((ds, fs ++ tail.takeWhile isDigit), tail.dropWhile isDigit) := by
  have hpoint : Stops isDigit ('.' :: (fs ++ tail)) := stops_cons (by decide)
  rw [List.append_assoc, List.cons_append, takeMantissa, takeWhile_run hds hpoint,
    dropWhile_run hds hpoint, takeFraction, List.takeWhile_append_of_pos hfs,
    List.dropWhile_append_of_pos hfs]

theorem MantissaSpelled.takeMantissa_append (h : MantissaSpelled ms ds fs)
    (htail : Stops continuesMantissa tail) : takeMantissa (ms ++ tail) = ((ds, fs), tail) := by
  have hdigit := stops_isDigit_of_stops htail
  have htake : tail.takeWhile isDigit = [] := by
    simpa using takeWhile_run (List.forall_mem_nil _) hdigit
  cases h with
  | whole hne hds =>
    rw [takeMantissa_whole hds, htake, Text.dropWhile_of_stops hdigit, takeFraction_of_stops htail,
      List.append_nil]
  | point hne hds hfs =>
    rw [takeMantissa_point hds hfs, htake, Text.dropWhile_of_stops hdigit, List.append_nil]

theorem MantissaSpelled.digits_ne_nil (h : MantissaSpelled ms ds fs) : (ds, fs) ≠ ([], []) := by
  cases h with
  | whole hne hds => simp [hne]
  | point hne hds hfs => rcases hne with hne | hne <;> simp [hne]

theorem MantissaSpelled.exists_head (h : MantissaSpelled ms ds fs) :
    ∃ c rest, ms = c :: rest ∧ continuesMantissa c = true := by
  have hwide : ∀ {c}, isDigit c = true → continuesMantissa c = true := fun hc => by
    rw [continuesMantissa, hc, Bool.true_or]
  cases h with
  | whole hne hds =>
    obtain ⟨c, rest, rfl⟩ := List.exists_cons_of_ne_nil hne
    exact ⟨c, rest, rfl, hwide (hds c List.mem_cons_self)⟩
  | point hne hds hfs =>
    cases ds with
    | nil => exact ⟨'.', fs, rfl, rfl⟩
    | cons c ds => exact ⟨c, _, rfl, hwide (hds c List.mem_cons_self)⟩

theorem PowerSpelled.stops (h : PowerSpelled es e)
    (htail : es = [] → Stops continuesMantissa tail) :
    Stops continuesMantissa (es ++ tail) := by
  cases h with
  | none => exact htail rfl
  | power hmark hsign hne hes =>
    refine stops_cons ?_
    rcases hmark with rfl | rfl <;> decide

theorem DecimalSpelled.takeDecimal?_self (h : DecimalSpelled cs d) :
    takeDecimal? cs = some (d, []) := by
  obtain ⟨hmantissa, hpower⟩ := h
  rename_i ms ds fs es e
  have hstop : Stops continuesMantissa (es ++ []) := hpower.stops fun _ => stops_nil _
  rw [List.append_nil] at hstop
  rw [takeDecimal?_eq, hmantissa.takeMantissa_append hstop, if_neg hmantissa.digits_ne_nil,
    hpower.takePower_self]

theorem DecimalSpelled.exists_head (h : DecimalSpelled cs d) :
    ∃ c rest, cs = c :: rest ∧ continuesMantissa c = true := by
  obtain ⟨hmantissa, hpower⟩ := h
  obtain ⟨c, rest, rfl, hc⟩ := hmantissa.exists_head
  exact ⟨c, _, List.cons_append, hc⟩

theorem DecimalSpelled.stops_isSign (h : DecimalSpelled cs d) (tail : List Char) :
    Stops isSign (cs ++ tail) := by
  obtain ⟨c, rest, rfl, hc⟩ := h.exists_head
  exact stops_cons (isSign_of_continuesMantissa hc)

theorem DecimalSpelled.not_infinity (h : DecimalSpelled cs d) (tail : List Char) :
    infinityWord.isPrefixOf (cs ++ tail) = false := by
  obtain ⟨c, rest, rfl, hc⟩ := h.exists_head
  have hne : ('I' == c) = false := by
    rw [beq_eq_false_iff_ne]
    rintro rfl
    exact absurd hc (by decide)
  have hcons : infinityWord = 'I' :: infinityWord.tail := by decide
  rw [hcons, List.cons_append, List.isPrefixOf_cons_cons, hne, Bool.false_and]

/-- The characters other than digits that a number is made of. -/
def marks : List Char := "+-.eEInfinity".toList

theorem SignSpelled.mem_marks (h : SignSpelled sign negative) : ∀ c ∈ sign, c ∈ marks := by
  cases h <;> decide

theorem MantissaSpelled.isDigit_or_mem (h : MantissaSpelled ms ds fs) :
    ∀ c ∈ ms, isDigit c = true ∨ c ∈ marks := by
  intro c hc
  cases h with
  | whole hne hds => exact .inl (hds c hc)
  | point hne hds hfs =>
    rcases List.mem_append.mp hc with hc | hc
    · exact .inl (hds c hc)
    · rcases List.mem_cons.mp hc with rfl | hc
      · exact .inr (by decide)
      · exact .inl (hfs c hc)

theorem PowerSpelled.isDigit_or_mem (h : PowerSpelled es e) :
    ∀ c ∈ es, isDigit c = true ∨ c ∈ marks := by
  intro c hc
  cases h with
  | none => cases hc
  | power hmark hsign hne hes =>
    rcases List.mem_cons.mp hc with rfl | hc
    · rcases hmark with rfl | rfl <;> exact .inr (by decide)
    · rcases List.mem_append.mp hc with hc | hc
      · exact .inr (hsign.mem_marks c hc)
      · exact .inl (hes c hc)

theorem NumberSpelled.isDigit_or_mem (h : NumberSpelled p v) :
    ∀ c ∈ p, isDigit c = true ∨ c ∈ marks := by
  intro c hc
  cases h with
  | infinity hsign =>
    rcases List.mem_append.mp hc with hc | hc
    · exact .inr (hsign.mem_marks c hc)
    · have hall : ∀ c ∈ "Infinity".toList, c ∈ marks := by decide
      exact .inr (hall c hc)
  | decimal hsign hdecimal =>
    rcases List.mem_append.mp hc with hc | hc
    · exact .inr (hsign.mem_marks c hc)
    · obtain ⟨hmantissa, hpower⟩ := hdecimal
      rcases List.mem_append.mp hc with hc | hc
      · exact hmantissa.isDigit_or_mem c hc
      · exact hpower.isDigit_or_mem c hc

theorem NumberSpelled.isBlank_of_mem (h : NumberSpelled p v) :
    ∀ c ∈ p, isBlank c = false ∧ c ≠ '_' := by
  intro c hc
  rcases h.isDigit_or_mem c hc with hdigit | hmark
  · refine ⟨Text.isBlank_of_isDigit hdigit, ?_⟩
    rintro rfl
    exact absurd hdigit (by decide)
  · have hall : ∀ c ∈ marks, isBlank c = false ∧ c ≠ '_' := by decide
    exact hall c hmark

theorem NumberSpelled.ne_nil (h : NumberSpelled p v) : p ≠ [] := by
  cases h with
  | infinity hsign => simp
  | decimal hsign hdecimal =>
    obtain ⟨c, rest, rfl, -⟩ := hdecimal.exists_head
    simp

theorem NumberSpelled.stops_isBlank (h : NumberSpelled p v) (tail : List Char) :
    Stops isBlank (p ++ tail) :=
  Stops.append h.ne_nil fun c hc => (h.isBlank_of_mem c (List.mem_of_mem_head? hc)).1

theorem takeNumber?_infinity (hsign : SignSpelled sign negative) (tail : List Char) :
    takeNumber? (sign ++ "Infinity".toList ++ tail) = some (infinity negative, tail) := by
  have hblank := (NumberSpelled.infinity hsign).stops_isBlank tail
  have hstop : Stops isSign ("Infinity".toList ++ tail) := stops_cons (by decide)
  have hword : infinityWord.isPrefixOf (infinityWord ++ tail) = true :=
    List.isPrefixOf_iff_prefix.mpr (List.prefix_append _ _)
  have hdrop : (infinityWord ++ tail).drop infinityWord.length = tail := List.drop_left
  rw [takeNumber?, Text.dropWhile_of_stops hblank, List.append_assoc,
    hsign.takeSign_append hstop]
  exact (if_pos hword).trans (congrArg (fun rest => some (infinity negative, rest)) hdrop)

theorem takeNumber?_decimal (hsign : SignSpelled sign negative) (hdecimal : DecimalSpelled cs d)
    (tail : List Char) :
    takeNumber? (sign ++ cs ++ tail) =
      (takeDecimal? (cs ++ tail)).map fun (d, rest) => (d.toFloat negative, rest) := by
  have hblank := (NumberSpelled.decimal hsign hdecimal).stops_isBlank tail
  rw [takeNumber?, Text.dropWhile_of_stops hblank, List.append_assoc,
    hsign.takeSign_append (hdecimal.stops_isSign _)]
  simp only [hdecimal.not_infinity, Bool.false_eq_true, if_false]

theorem NumberSpelled.takeNumber?_self (h : NumberSpelled p v) : takeNumber? p = some (v, []) := by
  cases h with
  | infinity hsign =>
    have htake := takeNumber?_infinity hsign []
    rwa [List.append_nil] at htake
  | decimal hsign hdecimal =>
    have htake := takeNumber?_decimal hsign hdecimal []
    rw [List.append_nil, List.append_nil, hdecimal.takeDecimal?_self] at htake
    exact htake

theorem trimPadding_of_forall {cs : List Char} (h : ∀ c ∈ cs, isPadding c = false) :
    trimPadding cs = cs := by
  have hdrop : ∀ ds : List Char, (∀ c ∈ ds, isPadding c = false) → ds.dropWhile isPadding = ds := by
    intro ds hds
    cases ds with
    | nil => rfl
    | cons d ds => rw [List.dropWhile_cons_of_neg (by simp [hds d List.mem_cons_self])]
  rw [trimPadding, hdrop cs h, hdrop cs.reverse (by simpa using h), List.reverse_reverse]

theorem ungroup?_of_not_mem {cs : List Char} (h : '_' ∉ cs) (afterDigit : Bool) :
    ungroup? afterDigit cs = some cs := by
  induction cs generalizing afterDigit with
  | nil => rfl
  | cons c cs ih =>
    rw [List.mem_cons, not_or] at h
    rw [ungroup?, ih h.2]
    · rfl
    · exact fun hc => h.1 hc.symm

theorem toLower_of_continuesMantissa {c : Char} (h : continuesMantissa c = true) :
    c.toLower ≠ 'i' ∧ c.toLower ≠ 'n' := by
  rw [continuesMantissa, Bool.or_eq_true, beq_iff_eq] at h
  rcases h with hdigit | rfl
  · exact Text.forall_isDigit (p := fun c => c.toLower ≠ 'i' ∧ c.toLower ≠ 'n')
      (by decide +kernel) hdigit
  · decide

theorem DecimalSpelled.magnitude?_eq (h : DecimalSpelled cs d) (negative : Bool) :
    magnitude? negative cs = some (d.toFloat negative) := by
  have hword : ∀ c word, (c = 'i' ∨ c = 'n') →
      String.ofList (cs.map Char.toLower) ≠ String.ofList (c :: word) := by
    intro c word hc heq
    obtain ⟨first, rest, rfl, hfirst⟩ := h.exists_head
    have hlist := congrArg String.toList heq
    simp only [List.map_cons, String.toList_ofList, List.cons.injEq] at hlist
    have hlower := toLower_of_continuesMantissa hfirst
    rw [hlist.1] at hlower
    exact hc.elim hlower.1 hlower.2
  rw [magnitude?, if_neg, if_neg (hword 'n' ['a', 'n'] (.inr rfl)), h.takeDecimal?_self]
  rintro (heq | heq)
  · exact hword 'i' ['n', 'f'] (.inl rfl) heq
  · exact hword 'i' ['n', 'f', 'i', 'n', 'i', 't', 'y'] (.inl rfl) heq

theorem NumberSpelled.float?_eq (h : NumberSpelled p v) : float? (String.ofList p) = some v := by
  have hpadding : ∀ c ∈ p, isPadding c = false := fun c hc => by
    rw [isPadding, (h.isBlank_of_mem c hc).1, Bool.false_and]
  have hplain : '_' ∉ p := fun hmem => (h.isBlank_of_mem '_' hmem).2 rfl
  rw [float?, String.toList_ofList, trimPadding_of_forall hpadding, ungroup?_of_not_mem hplain]
  cases h with
  | infinity hsign =>
    have hstop : Stops isSign "Infinity".toList := stops_cons (by decide)
    simp only [Option.bind_eq_bind, Option.bind_some, hsign.takeSign_append hstop]
    rfl
  | decimal hsign hdecimal =>
    have hstop := hdecimal.stops_isSign []
    rw [List.append_nil] at hstop
    simp only [Option.bind_eq_bind, Option.bind_some, hsign.takeSign_append hstop,
      hdecimal.magnitude?_eq]

end Gridcalc.Number
