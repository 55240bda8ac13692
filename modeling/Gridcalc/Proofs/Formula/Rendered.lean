import Gridcalc.Formula.Render
import Gridcalc.Proofs.Formula.Grammar

/-! # Rendered formulas parse back

The text of a tree is read as the words of the tree, and those are derivable as the tree itself:
parentheses stand wherever the grammar would group otherwise. The one exception is a number that
is not finite, for its text is a name.
-/

namespace Gridcalc

open Text (Stops isDigit isAsciiDigit stops_cons)
open Number (Layout shape)

def Number.IsFinite (v : Float) : Prop := ∃ negative bits, shape v = .finite negative bits

namespace Formula

open Token (Scans Bounded IsToken IsReference IsName bounded_cons word)

def operators : List String := ["+", "-", "*", "/", "^"]

mutual
/-- Every part of the tree can be written: each reference and each name is one token, and there
is no quotation mark in a text and no prefix operator. -/
def Writable : Formula → Prop
  | .number _ => True
  | .text s => '"' ∉ s.toList
  | .cell r => IsToken .reference r
  | .range a b => IsToken .reference a ∧ IsToken .reference b
  | .binary o l r => o ∈ operators ∧ l.Writable ∧ r.Writable
  | .unary _ _ => False
  | .call n fs => IsToken .name n ∧ Text.upper n = n ∧ WritableAll fs

def WritableAll : List Formula → Prop
  | [] => True
  | f :: fs => f.Writable ∧ WritableAll fs
end

mutual
def literals : Formula → List Float
  | .number v => [v]
  | .binary _ l r => l.literals ++ r.literals
  | .unary _ f => f.literals
  | .call _ fs => literalsAll fs
  | _ => []

def literalsAll : List Formula → List Float
  | [] => []
  | f :: fs => f.literals ++ literalsAll fs
end

def numberWords (v : Float) : List Word :=
  match shape v with
  | .finite _ _ => [⟨.number, numberLayout.write v⟩]
  | .infinite true => [⟨.operator, "-"⟩, ⟨.name, "Infinity"⟩]
  | .infinite false => [⟨.name, "Infinity"⟩]
  | .notNumber => [⟨.name, "NaN"⟩]

def enclosed (when : Bool) (ws : List Word) : List Word :=
  if when then ⟨.leftParen, "("⟩ :: (ws ++ [⟨.rightParen, ")"⟩]) else ws

mutual
def words : Formula → List Word
  | .number v => numberWords v
  | .text s => [⟨.text, s⟩]
  | .cell r => [⟨.reference, r⟩]
  | .range a b => [⟨.reference, a⟩, ⟨.colon, ":"⟩, ⟨.reference, b⟩]
  | .binary o l r =>
    enclosed (needsParens o false l) l.words ++
      ⟨.operator, o⟩ :: enclosed (needsParens o true r) r.words
  | .unary o f => ⟨.operator, o⟩ :: enclosed (isOperation f) f.words
  | .call n fs => ⟨.name, n⟩ :: ⟨.leftParen, "("⟩ :: (wordsAll fs ++ [⟨.rightParen, ")"⟩])

def wordsAll : List Formula → List Word
  | [] => []
  | [f] => f.words
  | f :: fs => f.words ++ ⟨.comma, ","⟩ :: wordsAll fs
end

section Spells

variable {cs ds : List Char} {ws us : List Word}

/-- Before a boundary the text is read as the words. -/
def Spells (cs : List Char) (ws : List Word) : Prop :=
  ∀ {rest us}, Bounded rest → Scans rest us → Scans (cs ++ rest) (ws ++ us)

theorem spells_parenthesised (when : Bool) (h : Spells cs ws) :
    Spells (parenthesised when cs) (enclosed when ws) := by
  cases when with
  | false => exact h
  | true =>
    intro rest us hrest hus
    have hclose : Scans (')' :: rest) (⟨.rightParen, ")"⟩ :: us) :=
      hus.mark rfl (Token.startsNumber_of_mem_marks (by decide) (by decide))
    have hinner := h (bounded_cons (by decide)) hclose
    have hopen := hinner.mark (c := '(') rfl
      (Token.startsNumber_of_mem_marks (by decide) (by decide))
    simpa [parenthesised, enclosed] using hopen

/-- A minus sign does not run into what follows: a digit is kept off by blanks. -/
theorem spells_binary {o : String} (ho : o ∈ operators) (hds : ds ≠ []) (hl : Spells cs ws)
    (hr : Spells ds us) :
    Spells (if o = "-" ∧ startsWithDigit ds = true then cs ++ " - ".toList ++ ds
      else cs ++ o.toList ++ ds) (ws ++ ⟨.operator, o⟩ :: us) := by
  intro rest after hrest hafter
  have hright := hr hrest hafter
  split
  · rename_i hminus
    rw [hminus.1]
    have hstart : Token.startsNumber '-' (' ' :: (ds ++ rest)) = false :=
      Token.startsNumber_minus (stops_cons (by decide))
    have hleft := hl (bounded_cons (by decide)) (hright.blank.mark rfl hstart).blank
    simpa using hleft
  · rename_i hplain
    obtain ⟨c, hc, hmark, hbound, hkind⟩ : ∃ c, o = String.ofList [c] ∧ c ∈ Token.marks ∧
        c ∈ Token.boundaries ∧ Token.punctuation? c = some .operator := by
      have hsigns : operators = ['+', '-', '*', '/', '^'].map fun c => String.ofList [c] := by
        decide
      have hall : ∀ c ∈ ['+', '-', '*', '/', '^'], c ∈ Token.marks ∧ c ∈ Token.boundaries ∧
          Token.punctuation? c = some .operator := by decide
      rw [hsigns] at ho
      obtain ⟨c, hc, rfl⟩ := List.mem_map.mp ho
      exact ⟨c, rfl, hall c hc⟩
    have hstart : Token.startsNumber c (ds ++ rest) = false := by
      by_cases hminus : c = '-'
      · subst hminus
        refine Token.startsNumber_minus (Stops.append hds fun d hd => ?_)
        have hdigit : startsWithDigit ds = false := by
          by_contra htrue
          exact hplain ⟨hc, by simpa using htrue⟩
        rw [startsWithDigit, Option.mem_def.mp hd] at hdigit
        simp only [Option.map_some, Option.getD_some, Text.isDigitLike, Bool.or_eq_false_iff] at hdigit
        by_contra hascii
        rw [Text.isDigit_of_isAsciiDigit (by simpa using hascii)] at hdigit
        cases hdigit.1
      · exact Token.startsNumber_of_mem_marks hmark hminus
    have hleft := hl (bounded_cons hbound) (hright.mark hkind hstart)
    rw [hc]
    simpa using hleft

theorem chars_of_finite {v : Float} {negative : Bool} {bits : Nat}
    (h : shape v = .finite negative bits) :
    numberLayout.chars v = Layout.signed negative (Layout.positional false
      (Nat.toDigits 10 (Number.Decimal.shortest bits).digits)
      (Number.Decimal.shortest bits).exponent) := by
  have hexact : (Number.isWhole bits && decide (Number.wholePart bits < numberLayout.exactBelow)) =
      false := by
    simp [numberLayout]
  rw [Layout.chars, h]
  simp only [hexact, Bool.false_eq_true, if_false]
  rfl

theorem isName_infinity : IsName "Infinity" := ⟨⟨'I', by decide, by decide⟩, by decide, by decide⟩

theorem isName_notNumber : IsName "NaN" := ⟨⟨'N', by decide, by decide⟩, by decide, by decide⟩

theorem spells_number (v : Float) : Spells (numberLayout.chars v) (numberWords v) := by
  intro rest us hrest hus
  rw [numberWords]
  split
  · rename_i negative bits hshape
    obtain ⟨d, hd, -⟩ := Number.numeral_positional (Number.Decimal.shortest bits).digits
      (Number.Decimal.shortest bits).exponent
    rw [Layout.write, chars_of_finite hshape]
    exact hus.number hd negative hrest
  · rename_i hshape
    have hname := hus.name isName_infinity hrest
    have hstart : Token.startsNumber '-' ("Infinity".toList ++ rest) = false :=
      Token.startsNumber_minus (stops_cons (by decide))
    rw [Layout.chars, hshape]
    exact hname.mark rfl hstart
  · rename_i hshape
    rw [Layout.chars, hshape]
    exact hus.name isName_infinity hrest
  · rename_i hshape
    rw [Layout.chars, hshape]
    exact hus.name isName_notNumber hrest

theorem spells_text {s : String} (h : '"' ∉ s.toList) :
    Spells ('"' :: s.toList ++ ['"']) [⟨.text, s⟩] := by
  intro rest us _ hus
  have hscan := hus.text h
  rw [String.ofList_toList] at hscan
  simpa using hscan

theorem spells_reference {r : String} (h : IsToken .reference r) :
    Spells r.toList [⟨.reference, r⟩] := by
  intro rest us hrest hus
  exact hus.reference (Token.isToken_reference_iff.mp h) hrest

theorem spells_range {a b : String} (ha : IsToken .reference a) (hb : IsToken .reference b) :
    Spells (a.toList ++ ':' :: b.toList)
      [⟨.reference, a⟩, ⟨.colon, ":"⟩, ⟨.reference, b⟩] := by
  intro rest us hrest hus
  have hcolon : Scans (':' :: (b.toList ++ rest)) (⟨.colon, ":"⟩ :: ⟨.reference, b⟩ :: us) :=
    (spells_reference hb hrest hus).mark rfl
      (Token.startsNumber_of_mem_marks (by decide) (by decide))
  have hscan := spells_reference ha (bounded_cons (by decide)) hcolon
  simpa using hscan

theorem spells_call {n : String} (hn : IsToken .name n) (h : Spells cs ws) :
    Spells (n.toList ++ '(' :: cs ++ [')'])
      (⟨.name, n⟩ :: ⟨.leftParen, "("⟩ :: (ws ++ [⟨.rightParen, ")"⟩])) := by
  intro rest us hrest hus
  have hparens := spells_parenthesised true h hrest hus
  have hscan := hparens.name (Token.isToken_name_iff.mp hn) (bounded_cons (by decide))
  simpa [enclosed, parenthesised] using hscan

theorem spells_comma (hl : Spells cs ws) (hr : Spells ds us) :
    Spells (cs ++ ',' :: ds) (ws ++ ⟨.comma, ","⟩ :: us) := by
  intro rest after hrest hafter
  have hcomma : Scans (',' :: (ds ++ rest)) (⟨.comma, ","⟩ :: (us ++ after)) :=
    (hr hrest hafter).mark rfl (Token.startsNumber_of_mem_marks (by decide) (by decide))
  have hscan := hl (bounded_cons (by decide)) hcomma
  simpa using hscan

end Spells

/-- The text neither begins nor ends with a blank, and does not begin with `=`. -/
structure Compact (cs : List Char) : Prop where
  head : ∃ c ∈ cs.head?, Text.isBlank c = false ∧ c ≠ '='
  last : ∃ c ∈ cs.getLast?, Text.isBlank c = false

namespace Compact

variable {cs ds : List Char}

theorem ne_nil (h : Compact cs) : cs ≠ [] := by
  rintro rfl
  obtain ⟨c, hc, -⟩ := h.head
  cases hc

theorem append (hcs : Compact cs) (mid : List Char) (hds : Compact ds) :
    Compact (cs ++ mid ++ ds) := by
  obtain ⟨c, hc, hhead⟩ := hcs.head
  obtain ⟨d, hd, hlast⟩ := hds.last
  refine ⟨⟨c, ?_, hhead⟩, ⟨d, ?_, hlast⟩⟩
  · simp [Option.mem_def.mp hc]
  · simp [Option.mem_def.mp hd]

theorem of_forall (hne : cs ≠ []) (hhead : cs.head? ≠ some '=')
    (h : ∀ c ∈ cs, Text.isBlank c = false) : Compact cs := by
  obtain ⟨c, tail, rfl⟩ := List.exists_cons_of_ne_nil hne
  refine ⟨⟨c, rfl, h c List.mem_cons_self, fun heq => hhead (congrArg some heq)⟩, ?_⟩
  exact ⟨_, List.getLast?_eq_some_getLast hne, h _ (List.getLast_mem hne)⟩

theorem stops_head (h : Compact cs) : Stops Text.isBlank cs := by
  obtain ⟨c, hc, hblank, -⟩ := h.head
  intro d hd
  rwa [Option.mem_unique hd hc]

theorem stops_last (h : Compact cs) : Stops Text.isBlank cs.reverse := by
  obtain ⟨c, hc, hblank⟩ := h.last
  intro d hd
  rw [List.head?_reverse] at hd
  rwa [Option.mem_unique hd hc]

end Compact

theorem compact_single {c : Char} (hblank : Text.isBlank c = false) (heq : c ≠ '=') :
    Compact [c] :=
  ⟨⟨c, rfl, hblank, heq⟩, ⟨c, rfl, hblank⟩⟩

theorem compact_number (v : Float) : Compact (numberLayout.chars v) := by
  cases hshape : shape v with
  | notNumber =>
    rw [Layout.chars, hshape]
    exact .of_forall (by decide) (by decide) (by decide)
  | infinite negative =>
    rw [Layout.chars, hshape]
    cases negative with
    | true => exact .of_forall (by decide) (by decide) (by decide)
    | false => exact .of_forall (by decide) (by decide) (by decide)
  | finite negative bits =>
    obtain ⟨d, hd, -⟩ := Number.numeral_positional (Number.Decimal.shortest bits).digits
      (Number.Decimal.shortest bits).exponent
    rw [chars_of_finite hshape]
    have hdigits : Compact (Layout.positional false
        (Nat.toDigits 10 (Number.Decimal.shortest bits).digits)
        (Number.Decimal.shortest bits).exponent) := by
      have hall : ∀ c ∈ '.' :: Text.asciiDigits, Text.isBlank c = false ∧ c ≠ '=' := by decide
      have hchar : ∀ {c}, Number.Numeral.isNumeralChar c = true → c ∈ '.' :: Text.asciiDigits := by
        intro c hc
        rw [Number.Numeral.isNumeralChar, Bool.or_eq_true, beq_iff_eq] at hc
        rcases hc with hc | rfl
        · exact List.mem_cons_of_mem _ (Text.mem_asciiDigits hc)
        · exact List.mem_cons_self
      obtain ⟨c, tail, hcons, -⟩ := hd.exists_head
      refine .of_forall (by simp [hcons]) (fun hc => ?_) fun c hc => ?_
      · exact (hall _ (hchar (hd.isNumeralChar_of_mem (List.mem_of_mem_head? hc)))).2 rfl
      · exact (hall c (hchar (hd.isNumeralChar_of_mem hc))).1
    cases negative with
    | false => exact hdigits
    | true => exact (compact_single (by decide) (by decide)).append [] hdigits

theorem compact_reference {r : String} (h : IsToken .reference r) : Compact r.toList := by
  have hall : ∀ c ∈ Token.wordStarts, c ≠ '=' := by decide
  have hr := Token.isToken_reference_iff.mp h
  obtain ⟨c, hc, hstart⟩ := hr.2
  refine .of_forall ?_ (fun hd => ?_) fun d hd => hr.isBlank_of_mem hd
  · intro hnil
    rw [hnil] at hc
    cases hc
  · exact hall c (Token.mem_wordStarts hstart) (Option.mem_unique hc hd)

theorem compact_name {n : String} (h : IsToken .name n) : Compact n.toList := by
  have hall : ∀ c ∈ Token.nameChars, c ≠ '=' := by decide
  have hn := Token.isToken_name_iff.mp h
  obtain ⟨c, hc, -⟩ := hn.head
  refine .of_forall ?_ (fun hd => ?_) fun d hd => hn.isBlank_of_mem hd
  · intro hnil
    rw [hnil] at hc
    cases hc
  · exact hall _ (Token.mem_nameChars (hn.chars _ (List.mem_of_mem_head? hd))) rfl

theorem compact_parenthesised {cs : List Char} (when : Bool) (h : Compact cs) :
    Compact (parenthesised when cs) := by
  cases when with
  | false => exact h
  | true =>
    exact (compact_single (by decide) (by decide)).append cs
      (compact_single (by decide) (by decide))

theorem compact_renderChars : ∀ {f : Formula}, f.Writable → Compact (renderChars f)
  | .number v, _ => by
    rw [renderChars]
    exact compact_number v
  | .text s, _ => by
    rw [renderChars]
    exact (compact_single (by decide) (by decide)).append s.toList
      (compact_single (by decide) (by decide))
  | .cell r, h => by
    rw [renderChars]
    exact compact_reference h
  | .range a b, h => by
    rw [renderChars, ← List.singleton_append, ← List.append_assoc]
    exact (compact_reference h.1).append [':'] (compact_reference h.2)
  | .binary o l r, h => by
    have hleft := compact_parenthesised (needsParens o false l) (compact_renderChars h.2.1)
    have hright := compact_parenthesised (needsParens o true r) (compact_renderChars h.2.2)
    rw [renderChars]
    split
    · exact hleft.append " - ".toList hright
    · exact hleft.append o.toList hright
  | .unary _ _, h => h.elim
  | .call n fs, h => by
    rw [renderChars]
    exact (compact_name h.1).append ('(' :: renderArguments fs)
      (compact_single (by decide) (by decide))

mutual
theorem spells_renderChars : ∀ {f : Formula}, f.Writable → Spells (renderChars f) f.words
  | .number v, _ => by
    rw [renderChars, words]
    exact spells_number v
  | .text s, h => by
    rw [renderChars, words]
    exact spells_text h
  | .cell r, h => by
    rw [renderChars, words]
    exact spells_reference h
  | .range a b, h => by
    rw [renderChars, words]
    exact spells_range h.1 h.2
  | .binary o l r, h => by
    have hright := compact_parenthesised (needsParens o true r) (compact_renderChars h.2.2)
    rw [renderChars, words]
    exact spells_binary h.1 hright.ne_nil
      (spells_parenthesised _ (spells_renderChars h.2.1))
      (spells_parenthesised _ (spells_renderChars h.2.2))
  | .unary _ _, h => h.elim
  | .call n fs, h => by
    rw [renderChars, words]
    exact spells_call h.1 (spells_renderArguments h.2.2)

theorem spells_renderArguments : ∀ {fs : List Formula}, WritableAll fs →
    Spells (renderArguments fs) (wordsAll fs)
  | [], _ => fun _ hus => hus
  | [f], h => by
    rw [renderArguments, wordsAll]
    exact spells_renderChars h.1
  | f :: g :: fs, h => by
    rw [renderArguments, wordsAll]
    · exact spells_comma (spells_renderChars h.1) (spells_renderArguments h.2)
    · nofun
    · nofun
end

/-- The rules from the tightest to the loosest. -/
def Rule.rank : Rule → Nat
  | primary => 0
  | factor => 1
  | term => 2
  | expression => 3

theorem Derives.expression {ws : List Word} {f : Formula} :
    ∀ {rule : Rule}, Derives rule ws f → Derives .expression ws f
  | .expression, h => h
  | .term, h => .term h
  | .factor, h => .term (.factor h)
  | .primary, h => .term (.factor (.primary h))

theorem Derives.loosen {rule rule' : Rule} {ws : List Word} {f : Formula}
    (hrank : rule.rank ≤ rule'.rank) (h : Derives rule ws f) : Derives rule' ws f := by
  cases rule' with
  | expression => exact h.expression
  | term =>
    cases rule with
    | expression => exact absurd hrank (by decide)
    | term => exact h
    | factor => exact .factor h
    | primary => exact .factor (.primary h)
  | factor =>
    cases rule with
    | factor => exact h
    | primary => exact .primary h
    | _ => exact absurd hrank (by decide)
  | primary =>
    cases rule with
    | primary => exact h
    | _ => exact absurd hrank (by decide)

/-- The tightest rule that gives operations of an operator, and those of its two operands. -/
def ruleOf (operator : String) : Rule :=
  match precedence operator with
  | 1 => .expression
  | 2 => .term
  | _ => .factor

def leftRule (operator : String) : Rule :=
  match precedence operator with
  | 1 => .expression
  | 2 => .term
  | _ => .primary

def rightRule (operator : String) : Rule :=
  match precedence operator with
  | 1 => .term
  | _ => .factor

def rule : Formula → Rule
  | .binary o _ _ => ruleOf o
  | _ => .primary

theorem derives_operation {ws us : List Word} {l r : Formula} {o : String} (ho : o ∈ operators)
    (hl : Derives (leftRule o) ws l) (hr : Derives (rightRule o) us r) :
    Derives (ruleOf o) (ws ++ ⟨.operator, o⟩ :: us) (.binary o l r) := by
  simp only [operators, List.mem_cons, List.not_mem_nil, or_false] at ho
  rcases ho with rfl | rfl | rfl | rfl | rfl
  · exact .sum (by decide) hl hr
  · exact .sum (by decide) hl hr
  · exact .product (by decide) hl hr
  · exact .product (by decide) hl hr
  · exact .power hl hr

/-- An operand without parentheses is one of the rule that the grammar has in its place. -/
theorem derives_enclosed {f : Formula} {o : String} {ws : List Word} (isRight : Bool)
    (ho : o ∈ operators) (hf : f.Writable) (h : Derives f.rule ws f) :
    Derives (if isRight then rightRule o else leftRule o)
      (enclosed (needsParens o isRight f) ws) f := by
  cases hparens : needsParens o isRight f with
  | true =>
    exact (Derives.parens "(" ")" h.expression).loosen (Nat.zero_le _)
  | false =>
    have hall : ∀ o ∈ operators, ∀ p ∈ operators, ∀ isRight : Bool,
        (if precedence p = precedence o then isRight != (o == "^")
          else decide (precedence p < precedence o)) = false →
        (ruleOf p).rank ≤ (if isRight then rightRule o else leftRule o).rank := by decide
    refine h.loosen ?_
    cases f with
    | binary p l r => exact hall o ho p hf.1 isRight hparens
    | _ => exact Nat.zero_le _

mutual
theorem derives_words : ∀ {f : Formula}, f.Writable → (∀ v ∈ f.literals, Number.IsFinite v) →
    Derives f.rule f.words f
  | .number v, _, hfinite => by
    obtain ⟨negative, bits, hshape⟩ := hfinite v (by simp [literals])
    have hread : Number.float? (numberLayout.write v) = some v := by
      rw [Layout.write, chars_of_finite hshape]
      exact Number.float?_positional hshape
    rw [words, numberWords, hshape]
    exact .number hread
  | .text s, _, _ => by
    rw [words]
    exact .text s
  | .cell r, _, _ => by
    rw [words]
    exact .cell r
  | .range a b, _, _ => by
    rw [words]
    exact .range a ":" b
  | .binary o l r, h, hfinite => by
    rw [literals, List.forall_mem_append] at hfinite
    rw [words]
    exact derives_operation h.1
      (derives_enclosed false h.1 h.2.1 (derives_words h.2.1 hfinite.1))
      (derives_enclosed true h.1 h.2.2 (derives_words h.2.2 hfinite.2))
  | .unary _ _, h, _ => h.elim
  | .call n fs, h, hfinite => by
    have hupper := h.2.1
    rw [words]
    by_cases hfs : fs = []
    · have hcall := Derives.emptyCall n "(" ")"
      rw [hupper] at hcall
      rw [hfs, wordsAll]
      exact hcall
    · have hcall := Derives.call n "(" ")" (derives_wordsAll hfs h.2.2 hfinite)
      rw [hupper] at hcall
      exact hcall

theorem derives_wordsAll : ∀ {fs : List Formula}, fs ≠ [] → WritableAll fs →
    (∀ v ∈ literalsAll fs, Number.IsFinite v) → DerivesAll (wordsAll fs) fs
  | [], hne, _, _ => absurd rfl hne
  | [f], _, h, hfinite => by
    rw [literalsAll, List.forall_mem_append] at hfinite
    rw [wordsAll]
    exact .single (derives_words h.1 hfinite.1).expression
  | f :: g :: fs, _, h, hfinite => by
    rw [literalsAll, List.forall_mem_append] at hfinite
    rw [wordsAll]
    · exact .cons "," (derives_words h.1 hfinite.1).expression
        (derives_wordsAll (List.cons_ne_nil g fs) h.2 hfinite.2)
    · nofun
end

section Parse

variable {cs : List Char} {f : Formula}

theorem body_ofList (h : Compact cs) : body (String.ofList cs) = String.ofList cs := by
  obtain ⟨c, hc, -, hequals⟩ := h.head
  have htrim : (Text.trim (String.ofList cs)).toList = cs := by
    rw [Text.toList_trim, String.toList_ofList,
      Text.trimChars_eq_self h.stops_head h.stops_last]
  rw [body, htrim]
  split
  · cases hc
    exact absurd rfl hequals
  · rfl

theorem trim_equals (h : Compact cs) :
    Text.trim (String.ofList ('=' :: cs)) = String.ofList ('=' :: cs) := by
  have hlast : Stops Text.isBlank ('=' :: cs).reverse := by
    rw [List.reverse_cons]
    exact Stops.append (by simpa using h.ne_nil) h.stops_last
  rw [Text.trim, String.toList_ofList,
    Text.trimChars_eq_self (stops_cons (by decide)) hlast]

theorem body_equals (h : Compact cs) : body (String.ofList ('=' :: cs)) = String.ofList cs := by
  rw [body, trim_equals h, String.toList_ofList]
  rfl

theorem exists_tokenize_render (h : f.Writable) :
    ∃ ts, tokenize f.render = .ok ts ∧ ts.map word = f.words ++ [⟨.finish, ""⟩] := by
  have hcompact := compact_renderChars h
  have hscan := spells_renderChars h Token.bounded_nil Token.scans_nil
  rw [List.append_nil] at hscan
  exact hscan.exists_tokenize hcompact.stops_head hcompact.stops_last

theorem parse_of_body {s : String} (hbody : body s = f.render) (h : f.Writable)
    (hfinite : ∀ v ∈ f.literals, Number.IsFinite v) : parse s = .ok f := by
  obtain ⟨ts, htokenize, hwords⟩ := exists_tokenize_render h
  rw [parse, hbody, htokenize]
  exact ofTokens_of_derives (derives_words h hfinite).expression hwords

/-- Parsing undoes rendering. The numbers come back as they were, their signs at zero included. -/
theorem parse_render (h : f.Writable) (hfinite : ∀ v ∈ f.literals, Number.IsFinite v) :
    parse f.render = .ok f :=
  parse_of_body (body_ofList (compact_renderChars h)) h hfinite

/-- The text is `A1 - 2.5-(-3-SUM($B$2:C4,"x"))^2^A1`. -/
theorem parse_render_nested :
    let f : Formula := .binary "-" (.binary "-" (.cell "A1") (.number 2.5))
      (.binary "^" (.binary "-" (.number (-3)) (.call "SUM" [.range "$B$2" "C4", .text "x"]))
        (.binary "^" (.number 2) (.cell "A1")))
    f.Writable ∧ (∀ v ∈ f.literals, Number.IsFinite v) ∧ parse f.render = .ok f := by
  intro f
  have hA1 : IsToken .reference "A1" := ⟨0, 2, by decide +kernel⟩
  have hB2 : IsToken .reference "$B$2" := ⟨0, 4, by decide +kernel⟩
  have hC4 : IsToken .reference "C4" := ⟨0, 2, by decide +kernel⟩
  have hSUM : IsToken .name "SUM" := ⟨0, 3, by decide +kernel⟩
  have hcall : (Formula.call "SUM" [.range "$B$2" "C4", .text "x"]).Writable :=
    ⟨hSUM, by decide, ⟨hB2, hC4⟩, (by decide : '"' ∉ "x".toList), trivial⟩
  have hf : f.Writable := by
    refine ⟨by decide, ⟨by decide, hA1, trivial⟩, by decide, ⟨by decide, trivial, hcall⟩, ?_⟩
    exact ⟨by decide, trivial, hA1⟩
  have hliterals : f.literals = [2.5, -3, 2] := by decide +kernel
  have hfinite : ∀ v ∈ f.literals, Number.IsFinite v := by
    rw [hliterals]
    have h25 : shape 2.5 = .finite false 0x4004000000000000 := by decide +kernel
    have h3 : shape (-3) = .finite true 0x4008000000000000 := by decide +kernel
    have h2 : shape 2 = .finite false 0x4000000000000000 := by decide +kernel
    simp only [List.forall_mem_cons]
    exact ⟨⟨_, _, h25⟩, ⟨_, _, h3⟩, ⟨_, _, h2⟩, List.forall_mem_nil _⟩
  exact ⟨hf, hfinite, parse_render hf hfinite⟩

end Parse

end Formula

end Gridcalc
