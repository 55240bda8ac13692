import Gridcalc.Proofs.Json.Keys
import Gridcalc.Proofs.Json.Number
import Gridcalc.Proofs.Json.Text

/-! # JSON read back

Written on one line and read again, a value is what it was, whatever follows that a number could
not go on with. Of an object that takes keys without repetition, for reading keeps one member a
key.
-/

namespace Gridcalc.Json

open Text (Stops isAsciiDigit stops_cons stops_nil)

namespace Step

variable {α : Type} {cs : List Char}

def pair (s : Step α cs) : α × List Char := (s.value, s.rest)

theorem pair_ofPair? {p : α × List Char} (h : p.2.length < cs.length) :
    (ofPair? p : Option (Step α cs)).map pair = some p := by
  rw [ofPair?, dif_pos h]
  rfl

end Step

theorem readScalar?_word {word : List Char} {j : Json} (h : (word, j) ∈ words) (rest : List Char) :
    readScalar? (word ++ rest) = some (j, rest) := by
  simp only [words, List.mem_cons, List.not_mem_nil, or_false, Prod.mk.injEq] at h
  rcases h with ⟨rfl, rfl⟩ | ⟨rfl, rfl⟩ | ⟨rfl, rfl⟩ | ⟨rfl, rfl⟩ | ⟨rfl, rfl⟩ | ⟨rfl, rfl⟩ <;> rfl

theorem find?_words_of_digit {c : Char} (h : isAsciiDigit c = true) (cs : List Char) :
    words.find? (·.1.isPrefixOf (c :: cs)) = none ∧
      words.find? (·.1.isPrefixOf ('-' :: c :: cs)) = none := by
  have hall : ∀ c ∈ Text.asciiDigits, 'n' ≠ c ∧ 't' ≠ c ∧ 'f' ≠ c ∧ 'N' ≠ c ∧ 'I' ≠ c ∧ '-' ≠ c := by
    decide
  simp [words, List.isPrefixOf, hall c (Text.mem_asciiDigits h)]

theorem readScalar?_signed {c : Char} {cs rest : List Char} {j : Json} (h : isAsciiDigit c = true)
    (negative : Bool) (hread : readNumber? negative (c :: cs ++ rest) = some (j, rest)) :
    readScalar? (Number.Layout.signed negative (c :: cs) ++ rest) = some (j, rest) := by
  obtain ⟨hplain, hminus⟩ := find?_words_of_digit h (cs ++ rest)
  cases negative with
  | true =>
    rw [Number.Layout.signed, if_pos rfl, List.cons_append, List.cons_append, readScalar?, hminus]
    exact hread
  | false =>
    have hquote : c ≠ '"' ∧ c ≠ '-' := by
      have hall : ∀ c ∈ Text.asciiDigits, c ≠ '"' ∧ c ≠ '-' := by decide
      exact hall c (Text.mem_asciiDigits h)
    rw [Number.Layout.signed, if_neg Bool.false_ne_true, List.cons_append]
    unfold readScalar?
    rw [hplain]
    dsimp only
    split
    · rename_i heq
      exact absurd (List.cons.inj heq).1 hquote.1
    · rename_i heq
      exact absurd (List.cons.inj heq).1 hquote.2
    · exact hread

theorem readScalar?_int {rest : List Char} (hrest : Stops continuesNumber rest) (i : Int) :
    readScalar? (intChars i ++ rest) = some (.int i, rest) := by
  have hwhole := whole_toDigits i.natAbs
  have hread := readNumber?_whole hwhole hrest (decide (i < 0))
  have hvalue : Number.signedInt (decide (i < 0)) i.natAbs = i := by
    rw [Number.signedInt]
    split
    · rename_i hneg
      have := of_decide_eq_true hneg
      omega
    · rename_i hneg
      have : ¬ i < 0 := fun h => hneg (decide_eq_true h)
      omega
  rw [Text.digitsValue_toDigits, hvalue] at hread
  rw [intChars]
  obtain ⟨c, cs, hcs⟩ := List.exists_cons_of_ne_nil hwhole.ne_nil
  have hdigit : isAsciiDigit c = true := hwhole.digits c (hcs ▸ List.mem_cons_self)
  rw [hcs] at hread ⊢
  exact readScalar?_signed hdigit _ hread

theorem exists_head_of_double {cs : List Char} {d : Number.Decimal} (h : Double cs d) :
    ∃ c tail, cs = c :: tail ∧ isAsciiDigit c = true := by
  cases h with
  | fraction hds hne hfs =>
    obtain ⟨c, tail, rfl⟩ := List.exists_cons_of_ne_nil hds.ne_nil
    exact ⟨c, _, List.cons_append, hds.digits c List.mem_cons_self⟩
  | power hds hfs hsign hne hes =>
    obtain ⟨c, tail, rfl⟩ := List.exists_cons_of_ne_nil hds.ne_nil
    exact ⟨c, _, List.cons_append, hds.digits c List.mem_cons_self⟩

/-- A double is written by its sign and a number that denotes its magnitude, unless it has to be
written by a word. -/
theorem floatChars_cases (v : Float) :
    (v = Number.notNumber ∧ floatLayout.chars v = "NaN".toList) ∨
    (∃ negative, v = Number.infinity negative ∧
      floatLayout.chars v = Number.Layout.signed negative "Infinity".toList) ∨
    ∃ negative cs d, Double cs d ∧ d.toFloat negative = v ∧
      floatLayout.chars v = Number.Layout.signed negative cs := by
  rw [Number.Layout.chars]
  cases hshape : Number.shape v with
  | notNumber => exact .inl ⟨Number.eq_notNumber_of_shape hshape, rfl⟩
  | infinite negative => exact .inr (.inl ⟨negative, Number.eq_infinity_of_shape hshape, rfl⟩)
  | finite negative bits =>
    have hbits := Number.lt_infinityBits_of_shape hshape
    obtain ⟨d, hd, hvalue⟩ := double_magnitudeChars (shortest_exponent bits)
    refine .inr (.inr ⟨negative, _, d, hd, ?_, ?_⟩)
    · rw [Number.Decimal.toFloat, Number.Decimal.nearestBits_congr hvalue,
        Number.Decimal.nearestBits_shortest hbits, Number.ofBits_of_shape hshape]
    · have hnot : decide (Number.wholePart bits < floatLayout.exactBelow) = false :=
        decide_eq_false (Nat.not_lt_zero _)
      dsimp only
      rw [hnot, Bool.and_false]
      rfl

theorem readScalar?_float {rest : List Char} (hrest : Stops continuesNumber rest) (v : Float) :
    readScalar? (floatLayout.chars v ++ rest) = some (.float v, rest) := by
  rcases floatChars_cases v with ⟨rfl, hchars⟩ | ⟨negative, rfl, hchars⟩ |
    ⟨negative, cs, d, hd, rfl, hchars⟩
  · rw [hchars]
    exact readScalar?_word (by simp [words]) rest
  · rw [hchars]
    cases negative with
    | true => exact readScalar?_word (by simp [words, Number.Layout.signed]) rest
    | false => exact readScalar?_word (by simp [words, Number.Layout.signed]) rest
  · rw [hchars]
    obtain ⟨c, tail, rfl, hc⟩ := exists_head_of_double hd
    exact readScalar?_signed hc negative (readNumber?_double hd hrest negative)

theorem textChars_append (s : String) (rest : List Char) :
    textChars s ++ rest = '"' :: (s.toList.flatMap charChars ++ '"' :: rest) := by
  rw [textChars, List.cons_append, List.cons_append, List.append_assoc, List.singleton_append]

theorem readScalar?_text (s : String) (rest : List Char) :
    readScalar? (textChars s ++ rest) = some (.text s, rest) := by
  obtain ⟨units, hunits, hs⟩ := readUnits_text s rest
  have hwords : words.find? (·.1.isPrefixOf ('"' :: (s.toList.flatMap charChars ++ '"' :: rest))) =
      none := by
    simp [words, List.isPrefixOf]
  rw [textChars_append, readScalar?, hwords]
  simp [hunits, hs]

/-- A value is read from the head of a text, and this follows it. -/
def Reads (cs : List Char) (j : Json) (rest : List Char) : Prop :=
  (readValue cs).map Step.pair = some (j, rest)

def ReadsItems (cs : List Char) (js : List Json) (rest : List Char) : Prop :=
  (readItems cs).map Step.pair = some (js, rest)

def ReadsMembers (before : List (String × Json)) (cs : List Char) (ms : List (String × Json))
    (rest : List Char) : Prop :=
  (readMembers before cs).map Step.pair = some (ms, rest)

section Readers

variable {cs tail rest after : List Char} {j : Json} {js : List Json}
  {before ms : List (String × Json)}

theorem reads_scalar (h : readScalar? cs = some (j, rest)) (hlength : rest.length < cs.length)
    (hlist : cs.head? ≠ some '[') (hobject : cs.head? ≠ some '{') : Reads cs j rest := by
  rw [Reads, readValue]
  · rw [h]
    exact Step.pair_ofPair? hlength
  · rintro _ rfl
    exact absurd rfl hlist
  · rintro _ rfl
    exact absurd rfl hobject

theorem reads_list_nil (h : skipSpace tail = ']' :: rest) : Reads ('[' :: tail) (.list []) rest := by
  rw [Reads, readValue]
  split
  · rename_i heq
    rw [h] at heq
    obtain rfl := (List.cons.inj heq).2
    rfl
  · rename_i hne
    exact absurd h (hne rest)

theorem reads_list (h : ReadsItems (skipSpace tail) js rest)
    (hne : (skipSpace tail).head? ≠ some ']') : Reads ('[' :: tail) (.list js) rest := by
  rw [Reads, readValue]
  split
  · rename_i heq
    rw [heq] at hne
    exact absurd rfl hne
  · rw [ReadsItems, Option.map_eq_some_iff] at h
    obtain ⟨s, hs, hpair⟩ := h
    obtain ⟨rfl, rfl⟩ := Prod.mk.inj hpair
    rw [hs]
    rfl

theorem reads_object_nil (h : skipSpace tail = '}' :: rest) :
    Reads ('{' :: tail) (.object []) rest := by
  rw [Reads, readValue]
  split
  · rename_i heq
    rw [h] at heq
    obtain rfl := (List.cons.inj heq).2
    rfl
  · rename_i hne
    exact absurd h (hne rest)

theorem reads_object (h : ReadsMembers [] (skipSpace tail) ms rest)
    (hne : (skipSpace tail).head? ≠ some '}') : Reads ('{' :: tail) (.object ms) rest := by
  rw [Reads, readValue]
  split
  · rename_i heq
    rw [heq] at hne
    exact absurd rfl hne
  · rw [ReadsMembers, Option.map_eq_some_iff] at h
    obtain ⟨s, hs, hpair⟩ := h
    obtain ⟨rfl, rfl⟩ := Prod.mk.inj hpair
    rw [hs]
    rfl

theorem map_readItems (h : Reads cs j rest) :
    (readItems cs).map Step.pair =
      match skipSpace rest with
      | ']' :: after => some ([j], after)
      | ',' :: tail => ((readItems (skipSpace tail)).map Step.pair).map fun t => (j :: t.1, t.2)
      | _ => none := by
  rw [Reads, Option.map_eq_some_iff] at h
  obtain ⟨s, hs, hpair⟩ := h
  obtain ⟨rfl, rfl⟩ := Prod.mk.inj hpair
  rw [readItems, hs]
  simp only [Option.bind_eq_bind, Option.bind_some]
  split
  · rename_i heq
    simp only [heq]
    rfl
  · rename_i heq
    simp only [heq]
    cases readItems (skipSpace _) <;> rfl
  · rename_i hlast hmore
    split
    · rename_i heq
      exact (hlast _ heq).elim
    · rename_i heq
      exact (hmore _ heq).elim
    · rfl

theorem map_readMembers {start : List Char} {k : String}
    (hkey : ∃ units, readUnits start = some (units, rest) ∧ String.ofList (joinUnits units) = k)
    (hcolon : skipSpace rest = ':' :: tail) (h : Reads (skipSpace tail) j after) :
    (readMembers before ('"' :: start)).map Step.pair =
      match skipSpace after with
      | '}' :: final => some (setMember k j before, final)
      | ',' :: more => (readMembers (setMember k j before) (skipSpace more)).map Step.pair
      | _ => none := by
  obtain ⟨units, hunits, rfl⟩ := hkey
  rw [Reads, Option.map_eq_some_iff] at h
  obtain ⟨s, hs, hpair⟩ := h
  obtain ⟨rfl, rfl⟩ := Prod.mk.inj hpair
  rw [readMembers]
  split
  · rename_i hnone
    rw [hunits] at hnone
    cases hnone
  · rename_i heq
    rw [hunits] at heq
    obtain ⟨rfl, rfl⟩ := Prod.mk.inj (Option.some.inj heq)
    split
    · rename_i hcolon'
      rw [hcolon] at hcolon'
      obtain rfl := (List.cons.inj hcolon').2
      simp only [hs, Option.bind_eq_bind, Option.bind_some]
      split
      · rename_i heq
        simp only [heq]
        rfl
      · rename_i heq
        simp only [heq]
        cases readMembers _ (skipSpace _) <;> rfl
      · rename_i hlast hmore
        split
        · rename_i heq
          exact (hlast _ heq).elim
        · rename_i heq
          exact (hmore _ heq).elim
        · rfl
    · rename_i hne
      exact absurd hcolon (hne tail)

theorem readsItems_last (h : Reads cs j (']' :: after)) : ReadsItems cs [j] after := by
  rw [ReadsItems, map_readItems h]
  rfl

theorem readsItems_more (h : Reads cs j (',' :: tail)) (htail : ReadsItems (skipSpace tail) js after) :
    ReadsItems cs (j :: js) after := by
  rw [ReadsItems] at htail
  rw [ReadsItems, map_readItems h]
  exact congrArg (Option.map fun t => (j :: t.1, t.2)) htail

theorem readsMembers_last {k : String} {cs : List Char}
    (hcs : cs = textChars k ++ ':' :: tail) (h : Reads (skipSpace tail) j ('}' :: after)) :
    ReadsMembers before cs (setMember k j before) after := by
  rw [hcs, textChars_append, ReadsMembers, map_readMembers (readUnits_text k _) (by rfl) h]
  rfl

theorem readsMembers_more {k : String} {cs : List Char} {more : List Char}
    (hcs : cs = textChars k ++ ':' :: tail) (h : Reads (skipSpace tail) j (',' :: more))
    (hmore : ReadsMembers (setMember k j before) (skipSpace more) ms after) :
    ReadsMembers before cs ms after := by
  rw [hcs, textChars_append, ReadsMembers, map_readMembers (readUnits_text k _) (by rfl) h]
  exact hmore

end Readers

theorem skipSpace_of_head {c : Char} (h : isSpace c = false) (cs : List Char) :
    skipSpace (c :: cs) = c :: cs := by
  rw [skipSpace, List.dropWhile_cons_of_neg (by simp [h])]

theorem skipSpace_blank (cs : List Char) : skipSpace (' ' :: cs) = skipSpace cs := rfl

def scalarHeads : List Char := ['"', '-', 'n', 't', 'f', 'N', 'I'] ++ Text.asciiDigits

theorem mem_scalarHeads_of_signed {c : Char} (h : isAsciiDigit c = true) (negative : Bool)
    (cs : List Char) :
    ∃ d ∈ scalarHeads, ∃ tail, Number.Layout.signed negative (c :: cs) = d :: tail := by
  cases negative with
  | true => exact ⟨'-', by decide, c :: cs, rfl⟩
  | false => exact ⟨c, List.mem_append_right _ (Text.mem_asciiDigits h), cs, rfl⟩

theorem exists_head_intChars (i : Int) : ∃ c ∈ scalarHeads, ∃ tail, intChars i = c :: tail := by
  have hwhole := whole_toDigits i.natAbs
  obtain ⟨c, cs, hcs⟩ := List.exists_cons_of_ne_nil hwhole.ne_nil
  rw [intChars, hcs]
  exact mem_scalarHeads_of_signed (hwhole.digits c (hcs ▸ List.mem_cons_self)) _ _

theorem exists_head_floatChars (v : Float) :
    ∃ c ∈ scalarHeads, ∃ tail, floatLayout.chars v = c :: tail := by
  rcases floatChars_cases v with ⟨-, hchars⟩ | ⟨negative, -, hchars⟩ | ⟨negative, cs, d, hd, -, hchars⟩
  · rw [hchars]
    exact ⟨'N', by decide, _, rfl⟩
  · rw [hchars]
    cases negative with
    | true => exact ⟨'-', by decide, _, rfl⟩
    | false => exact ⟨'I', by decide, _, rfl⟩
  · rw [hchars]
    obtain ⟨c, tail, rfl, hc⟩ := exists_head_of_double hd
    exact mem_scalarHeads_of_signed hc negative tail

theorem reads_of_readScalar? {cs rest : List Char} {j : Json}
    (hhead : ∃ c ∈ scalarHeads, ∃ tail, cs = c :: tail)
    (h : readScalar? (cs ++ rest) = some (j, rest)) : Reads (cs ++ rest) j rest := by
  obtain ⟨c, hc, tail, rfl⟩ := hhead
  have hall : ∀ c ∈ scalarHeads, c ≠ '[' ∧ c ≠ '{' := by decide
  refine reads_scalar h ?_ ?_ ?_
  · rw [List.length_append, List.length_cons]
    omega
  · rw [List.cons_append, List.head?_cons, ne_eq, Option.some.injEq]
    exact (hall c hc).1
  · rw [List.cons_append, List.head?_cons, ne_eq, Option.some.injEq]
    exact (hall c hc).2

/-- Neither a blank nor the end of a list stands at the head of a value. -/
theorem exists_head_lineChars (j : Json) :
    ∃ c tail, lineChars j = c :: tail ∧ isSpace c = false ∧ c ≠ ']' := by
  have hall : ∀ c ∈ scalarHeads, isSpace c = false ∧ c ≠ ']' := by decide
  have hscalar : ∀ cs : List Char, (∃ c ∈ scalarHeads, ∃ tail, cs = c :: tail) →
      ∃ c tail, cs = c :: tail ∧ isSpace c = false ∧ c ≠ ']' := by
    rintro cs ⟨c, hc, tail, hcs⟩
    exact ⟨c, tail, hcs, hall c hc⟩
  cases j with
  | null => exact ⟨'n', _, rfl, by decide⟩
  | bool b => cases b <;> exact ⟨_, _, rfl, by decide⟩
  | int i => exact hscalar _ (exists_head_intChars i)
  | float v => exact hscalar _ (exists_head_floatChars v)
  | text s => exact ⟨'"', _, rfl, by decide⟩
  | list items => exact ⟨'[', _, rfl, by decide⟩
  | object members => exact ⟨'{', _, rfl, by decide⟩

theorem skipSpace_lineChars (j : Json) (rest : List Char) :
    skipSpace (lineChars j ++ rest) = lineChars j ++ rest := by
  obtain ⟨c, tail, hcs, hspace, -⟩ := exists_head_lineChars j
  rw [hcs]
  exact skipSpace_of_head hspace _

theorem stops_punctuation {c : Char} (h : c ∈ [',', ']', '}']) (cs : List Char) :
    Stops continuesNumber (c :: cs) := by
  have hall : ∀ c ∈ [',', ']', '}'], continuesNumber c = false := by decide
  exact stops_cons (hall c h)

theorem itemChars_cons (j : Json) (js : List Json) :
    ∃ more, itemChars (j :: js) = lineChars j ++ more := by
  cases js with
  | nil => exact ⟨[], by rw [itemChars, List.append_nil]⟩
  | cons j' js => exact ⟨_, itemChars.eq_3 j (j' :: js) (List.cons_ne_nil j' js)⟩

theorem head_itemChars (j : Json) (js : List Json) (rest : List Char) :
    skipSpace (itemChars (j :: js) ++ rest) = itemChars (j :: js) ++ rest ∧
      (itemChars (j :: js) ++ rest).head? ≠ some ']' := by
  obtain ⟨more, hmore⟩ := itemChars_cons j js
  obtain ⟨c, tail, hcs, hspace, hc⟩ := exists_head_lineChars j
  rw [hmore, hcs]
  exact ⟨skipSpace_of_head hspace _, fun h => hc (Option.some.inj h)⟩

theorem memberChars_cons (m : String × Json) (ms : List (String × Json)) :
    ∃ more, memberChars (m :: ms) = '"' :: more := by
  obtain ⟨k, v⟩ := m
  cases ms with
  | nil => exact ⟨_, rfl⟩
  | cons m' ms => exact ⟨_, rfl⟩

theorem head_memberChars (m : String × Json) (ms : List (String × Json)) (rest : List Char) :
    skipSpace (memberChars (m :: ms) ++ rest) = memberChars (m :: ms) ++ rest ∧
      (memberChars (m :: ms) ++ rest).head? ≠ some '}' := by
  obtain ⟨more, hmore⟩ := memberChars_cons m ms
  rw [hmore]
  exact ⟨skipSpace_of_head (by decide) _, fun h => by cases h⟩

mutual
theorem reads_lineChars : ∀ {j : Json} {rest : List Char}, DistinctKeys j →
    Stops continuesNumber rest → Reads (lineChars j ++ rest) j rest
  | .null, rest, _, _ =>
    reads_of_readScalar? ⟨'n', by decide, _, rfl⟩ (readScalar?_word List.mem_cons_self rest)
  | .bool true, rest, _, _ =>
    reads_of_readScalar? ⟨'t', by decide, _, rfl⟩
      (readScalar?_word (.tail _ List.mem_cons_self) rest)
  | .bool false, rest, _, _ =>
    reads_of_readScalar? ⟨'f', by decide, _, rfl⟩
      (readScalar?_word (.tail _ (.tail _ List.mem_cons_self)) rest)
  | .int i, rest, _, hrest =>
    reads_of_readScalar? (exists_head_intChars i) (readScalar?_int hrest i)
  | .float v, rest, _, hrest =>
    reads_of_readScalar? (exists_head_floatChars v) (readScalar?_float hrest v)
  | .text s, rest, _, _ =>
    reads_of_readScalar? ⟨'"', by decide, _, rfl⟩ (readScalar?_text s rest)
  | .list [], rest, _, _ => reads_list_nil rfl
  | .list (j :: js), rest, h, _ => by
    have hitems : ReadsItems (itemChars (j :: js) ++ ']' :: rest) (j :: js) rest :=
      readsItems_itemChars (List.cons_ne_nil j js) h
    have hhead := head_itemChars j js (']' :: rest)
    rw [lineChars, List.cons_append, List.cons_append, List.append_assoc, List.singleton_append]
    exact reads_list (hhead.1.symm ▸ hitems) (hhead.1.symm ▸ hhead.2)
  | .object [], rest, _, _ => reads_object_nil rfl
  | .object (m :: ms), rest, h, _ => by
    have hmembers : ReadsMembers [] (memberChars (m :: ms) ++ '}' :: rest) (m :: ms) rest :=
      readsMembers_memberChars (List.cons_ne_nil m ms) h.1 h.2
    have hhead := head_memberChars m ms ('}' :: rest)
    rw [lineChars, List.cons_append, List.cons_append, List.append_assoc, List.singleton_append]
    exact reads_object (hhead.1.symm ▸ hmembers) (hhead.1.symm ▸ hhead.2)

theorem readsItems_itemChars : ∀ {js : List Json} {rest : List Char}, js ≠ [] →
    ItemsDistinct js → ReadsItems (itemChars js ++ ']' :: rest) js rest
  | [], _, hne, _ => absurd rfl hne
  | [j], rest, _, h => by
    rw [itemChars]
    exact readsItems_last (reads_lineChars h.1 (stops_punctuation (by decide) _))
  | j :: j' :: js, rest, _, h => by
    have hitems : ReadsItems (itemChars (j' :: js) ++ ']' :: rest) (j' :: js) rest :=
      readsItems_itemChars (List.cons_ne_nil j' js) h.2
    rw [itemChars.eq_3 j (j' :: js) (List.cons_ne_nil j' js), List.append_assoc]
    refine readsItems_more (reads_lineChars h.1 (stops_punctuation (by decide) _)) ?_
    rw [← (head_itemChars j' js _).1] at hitems
    exact hitems

theorem readsMembers_memberChars : ∀ {ms before : List (String × Json)} {rest : List Char},
    ms ≠ [] → ((before ++ ms).map Prod.fst).Nodup → MembersDistinct ms →
    ReadsMembers before (memberChars ms ++ '}' :: rest) (before ++ ms) rest
  | [], _, _, hne, _, _ => absurd rfl hne
  | [(k, v)], before, rest, _, hkeys, h => by
    have hvalue : Reads (lineChars v ++ '}' :: rest) v ('}' :: rest) :=
      reads_lineChars h.1 (stops_punctuation (by decide) _)
    rw [← skipSpace_lineChars, ← skipSpace_blank] at hvalue
    rw [← setMember_of_nodup hkeys]
    exact readsMembers_last (by rw [memberChars, List.append_assoc]; rfl) hvalue
  | (k, v) :: m :: ms, before, rest, _, hkeys, h => by
    let following := ' ' :: (memberChars (m :: ms) ++ '}' :: rest)
    have hvalue : Reads (lineChars v ++ ',' :: following) v (',' :: following) :=
      reads_lineChars h.1 (stops_punctuation (by decide) _)
    rw [← skipSpace_lineChars, ← skipSpace_blank] at hvalue
    have hmore : ReadsMembers (before ++ [(k, v)]) (memberChars (m :: ms) ++ '}' :: rest)
        (before ++ [(k, v)] ++ m :: ms) rest :=
      readsMembers_memberChars (List.cons_ne_nil m ms) (by rwa [List.append_cons] at hkeys) h.2
    rw [← (head_memberChars m ms _).1, ← skipSpace_blank, ← setMember_of_nodup hkeys] at hmore
    rw [List.append_cons before, ← setMember_of_nodup hkeys]
    refine readsMembers_more ?_ hvalue hmore
    rw [memberChars.eq_3 k v (m :: ms) (List.cons_ne_nil m ms)]
    simp only [following, List.append_assoc, List.cons_append]
end

theorem parse?_empty : parse? (String.ofList []) = none := by
  have hnone : readScalar? [] = none := by decide
  rw [parse?, String.toList_ofList, show skipSpace [] = [] from rfl, readValue, hnone]
  · rfl
  all_goals
    intro _ h
    cases h

theorem parse?_line {j : Json} (h : DistinctKeys j) : parse? (line j) = some j := by
  have hreads : Reads (lineChars j ++ []) j [] := reads_lineChars h (stops_nil _)
  rw [← skipSpace_lineChars, List.append_nil, Reads, Option.map_eq_some_iff] at hreads
  obtain ⟨s, hs, hpair⟩ := hreads
  obtain ⟨hvalue, hrest⟩ := Prod.mk.inj hpair
  rw [parse?, line, String.toList_ofList, hs]
  show (if skipSpace s.rest = [] then some s.value else none) = some j
  rw [hrest, if_pos (show skipSpace [] = [] from rfl), hvalue]

end Gridcalc.Json
