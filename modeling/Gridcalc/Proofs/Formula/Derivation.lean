import Gridcalc.Proofs.Formula.Grammar
import Gridcalc.Proofs.Formula.Located

/-! # Derivations

    expression := term (('+' | '-') term)*
    term       := factor (('*' | '/') factor)*
    factor     := primary ('^' factor)?
    primary    := number | text | '(' expression ')' | reference (':' reference)?
                | name '(' (expression (',' expression)*)? ')'

The grammar as it is written, its derivations as data. They derive the same words, with the same
trees, as the rules that go on to the left, and no two of them have the same words.
-/

namespace Gridcalc.Formula

open Token (word)

mutual
inductive Derivation : Rule → Type
  | expression (first : Derivation .term) (more : Chain .term ["+", "-"]) :
    Derivation .expression
  | term (first : Derivation .factor) (more : Chain .factor ["*", "/"]) : Derivation .term
  | factor (base : Derivation .primary) : Derivation .factor
  | power (base : Derivation .primary) (exponent : Derivation .factor) : Derivation .factor
  | number (t : String) (v : Float) (h : Number.float? t = some v) : Derivation .primary
  | text (t : String) : Derivation .primary
  | parens (s : String) (inner : Derivation .expression) (t : String) : Derivation .primary
  | cell (t : String) : Derivation .primary
  | range (s c t : String) : Derivation .primary
  | emptyCall (n s t : String) : Derivation .primary
  | call (n s : String) (arguments : ArgumentList) (t : String) : Derivation .primary

/-- Operands, each with one of the operators before it. -/
inductive Chain : Rule → List String → Type
  | nil {operand : Rule} {os : List String} : Chain operand os
  | cons {operand : Rule} {os : List String} (o : String) (ho : o ∈ os)
    (next : Derivation operand) (more : Chain operand os) : Chain operand os

/-- Expressions with commas between them. -/
inductive ArgumentList : Type
  | single (last : Derivation .expression)
  | cons (first : Derivation .expression) (s : String) (others : ArgumentList)
end

mutual
def Derivation.words : {rule : Rule} → Derivation rule → List Word
  | _, .expression first more => first.words ++ more.words
  | _, .term first more => first.words ++ more.words
  | _, .factor base => base.words
  | _, .power base exponent => base.words ++ ⟨.operator, "^"⟩ :: exponent.words
  | _, .number t _ _ => [⟨.number, t⟩]
  | _, .text t => [⟨.text, t⟩]
  | _, .parens s inner t => ⟨.leftParen, s⟩ :: (inner.words ++ [⟨.rightParen, t⟩])
  | _, .cell t => [⟨.reference, t⟩]
  | _, .range s c t => [⟨.reference, s⟩, ⟨.colon, c⟩, ⟨.reference, t⟩]
  | _, .emptyCall n s t => [⟨.name, n⟩, ⟨.leftParen, s⟩, ⟨.rightParen, t⟩]
  | _, .call n s arguments t =>
    ⟨.name, n⟩ :: ⟨.leftParen, s⟩ :: (arguments.words ++ [⟨.rightParen, t⟩])

def Chain.words : {operand : Rule} → {os : List String} → Chain operand os → List Word
  | _, _, .nil => []
  | _, _, .cons o _ next more => ⟨.operator, o⟩ :: (next.words ++ more.words)

def ArgumentList.words : ArgumentList → List Word
  | .single last => last.words
  | .cons first s others => first.words ++ ⟨.comma, s⟩ :: others.words
end

mutual
/-- The tree that the derivation yields: sums and products group to the left, powers to the right,
and the names of calls are in capitals. -/
def Derivation.tree : {rule : Rule} → Derivation rule → Formula
  | _, .expression first more => more.tree first.tree
  | _, .term first more => more.tree first.tree
  | _, .factor base => base.tree
  | _, .power base exponent => .binary "^" base.tree exponent.tree
  | _, .number _ v _ => .number v
  | _, .text t => .text t
  | _, .parens _ inner _ => inner.tree
  | _, .cell t => .cell t
  | _, .range s _ t => .range s t
  | _, .emptyCall n _ _ => .call (Text.upper n) []
  | _, .call n _ arguments _ => .call (Text.upper n) arguments.trees

def Chain.tree : {operand : Rule} → {os : List String} → Chain operand os → Formula → Formula
  | _, _, .nil, left => left
  | _, _, .cons o _ next more, left => more.tree (.binary o left next.tree)

def ArgumentList.trees : ArgumentList → List Formula
  | .single last => [last.tree]
  | .cons first _ others => first.tree :: others.trees
end

section Derives

variable {operand : Rule} {os : List String} {rule : Rule} {ws : List Word} {f : Formula}

/-- Goes on at the end of a chain. -/
def Chain.snoc : Chain operand os → (o : String) → o ∈ os → Derivation operand → Chain operand os
  | .nil, o, ho, last => .cons o ho last .nil
  | .cons o' ho' next more, o, ho, last => .cons o' ho' next (more.snoc o ho last)

theorem Chain.words_snoc {o : String} (ho : o ∈ os) (last : Derivation operand) :
    ∀ c : Chain operand os, (c.snoc o ho last).words = c.words ++ ⟨.operator, o⟩ :: last.words
  | .nil => by simp [snoc, words]
  | .cons _ _ _ more => by simp [snoc, words, more.words_snoc ho last]

theorem Chain.tree_snoc {o : String} (ho : o ∈ os) (last : Derivation operand) :
    ∀ (c : Chain operand os) (left : Formula),
      (c.snoc o ho last).tree left = .binary o (c.tree left) last.tree
  | .nil, _ => rfl
  | .cons _ _ next more, _ => more.tree_snoc ho last (.binary _ _ next.tree)

mutual
theorem Derivation.derives : ∀ {rule : Rule} (d : Derivation rule), Derives rule d.words d.tree
  | _, .expression first more => more.derives .sum first.derives.term
  | _, .term first more => more.derives .product first.derives.factor
  | _, .factor base => base.derives.primary
  | _, .power base exponent => base.derives.power exponent.derives
  | _, .number _ _ h => .number h
  | _, .text t => .text t
  | _, .parens s inner t => .parens s t inner.derives
  | _, .cell t => .cell t
  | _, .range s c t => .range s c t
  | _, .emptyCall n s t => .emptyCall n s t
  | _, .call n s arguments t => .call n s t arguments.derives

theorem Chain.derives : ∀ {operand : Rule} {os : List String} (c : Chain operand os) {rule : Rule}
    {ws : List Word} {l : Formula},
    (∀ {ws us l r o}, o ∈ os → Derives rule ws l → Derives operand us r →
      Derives rule (ws ++ ⟨.operator, o⟩ :: us) (.binary o l r)) →
    Derives rule ws l → Derives rule (ws ++ c.words) (c.tree l)
  | _, _, .nil, _, _, _, _, hl => by
    rw [Chain.words, List.append_nil]
    exact hl
  | _, _, .cons o ho next more, _, _, _, hrule, hl => by
    have hmore := more.derives hrule (hrule ho hl next.derives)
    rwa [List.append_assoc, List.cons_append] at hmore

theorem ArgumentList.derives : ∀ a : ArgumentList, DerivesAll a.words a.trees
  | .single last => .single last.derives
  | .cons first s others => .cons s first.derives others.derives
end

mutual
theorem Derives.exists_derivation : ∀ {rule : Rule} {ws : List Word} {f : Formula},
    Derives rule ws f → ∃ d : Derivation rule, d.words = ws ∧ d.tree = f
  | _, _, _, .term h => by
    obtain ⟨d, rfl, rfl⟩ := h.exists_derivation
    exact ⟨.expression d .nil, List.append_nil _, rfl⟩
  | _, _, _, .sum ho hl hr => by
    obtain ⟨d, rfl, rfl⟩ := hl.exists_derivation
    obtain ⟨last, rfl, rfl⟩ := hr.exists_derivation
    cases d with
    | expression first more =>
      refine ⟨.expression first (more.snoc _ ho last), ?_, more.tree_snoc ho last _⟩
      rw [Derivation.words, Derivation.words, Chain.words_snoc, List.append_assoc]
  | _, _, _, .factor h => by
    obtain ⟨d, rfl, rfl⟩ := h.exists_derivation
    exact ⟨.term d .nil, List.append_nil _, rfl⟩
  | _, _, _, .product ho hl hr => by
    obtain ⟨d, rfl, rfl⟩ := hl.exists_derivation
    obtain ⟨last, rfl, rfl⟩ := hr.exists_derivation
    cases d with
    | term first more =>
      refine ⟨.term first (more.snoc _ ho last), ?_, more.tree_snoc ho last _⟩
      rw [Derivation.words, Derivation.words, Chain.words_snoc, List.append_assoc]
  | _, _, _, .primary h => by
    obtain ⟨d, rfl, rfl⟩ := h.exists_derivation
    exact ⟨.factor d, rfl, rfl⟩
  | _, _, _, .power hl hr => by
    obtain ⟨base, rfl, rfl⟩ := hl.exists_derivation
    obtain ⟨exponent, rfl, rfl⟩ := hr.exists_derivation
    exact ⟨.power base exponent, rfl, rfl⟩
  | _, _, _, .number h => ⟨.number _ _ h, rfl, rfl⟩
  | _, _, _, .text t => ⟨.text t, rfl, rfl⟩
  | _, _, _, .parens s t h => by
    obtain ⟨d, rfl, rfl⟩ := h.exists_derivation
    exact ⟨.parens s d t, rfl, rfl⟩
  | _, _, _, .cell t => ⟨.cell t, rfl, rfl⟩
  | _, _, _, .range s c t => ⟨.range s c t, rfl, rfl⟩
  | _, _, _, .emptyCall n s t => ⟨.emptyCall n s t, rfl, rfl⟩
  | _, _, _, .call n s t h => by
    obtain ⟨arguments, rfl, rfl⟩ := h.exists_arguments
    exact ⟨.call n s arguments t, rfl, rfl⟩

theorem DerivesAll.exists_arguments : ∀ {ws : List Word} {fs : List Formula},
    DerivesAll ws fs → ∃ a : ArgumentList, a.words = ws ∧ a.trees = fs
  | _, _, .single h => by
    obtain ⟨last, rfl, rfl⟩ := h.exists_derivation
    exact ⟨.single last, rfl, rfl⟩
  | _, _, .cons s h hall => by
    obtain ⟨first, rfl, rfl⟩ := h.exists_derivation
    obtain ⟨others, rfl, rfl⟩ := hall.exists_arguments
    exact ⟨.cons first s others, rfl, rfl⟩
end

theorem derives_iff : Derives rule ws f ↔ ∃ d : Derivation rule, d.words = ws ∧ d.tree = f := by
  constructor
  · exact Derives.exists_derivation
  · rintro ⟨d, rfl, rfl⟩
    exact d.derives

end Derives

section Unique

variable {operand : Rule} {os : List String} {rest : List Word}

/-- Nothing follows that could be taken for more of the chain. -/
structure Closes (operand : Rule) (os : List String) (rest : List Word) : Prop where
  ends : Ends operand rest
  operator : ∀ o ∈ os, rest.head? ≠ some ⟨.operator, o⟩

theorem Ends.closes {rule : Rule} {level : List Char} (h : Ends rule rest)
    (hsubset : operand.levels ⊆ rule.levels) (hlevel : level ∈ rule.levels)
    (hos : ∀ o ∈ os, Word.operates level ⟨.operator, o⟩ = true) : Closes operand os rest where
  ends := h.of_subset hsubset
  operator o ho hhead := by
    obtain ⟨tail, rfl⟩ := List.head?_eq_some_iff.mp hhead
    have hoperates := h.operates hlevel
    rw [hos o ho] at hoperates
    cases hoperates

theorem Ends.closes_sums (h : Ends .expression rest) : Closes .term ["+", "-"] rest :=
  h.closes (by simp [Rule.levels]) (by simp [Rule.levels] : sumOperators ∈ _) (by decide)

theorem Ends.closes_products (h : Ends .term rest) : Closes .factor ["*", "/"] rest :=
  h.closes (by simp [Rule.levels]) (by simp [Rule.levels] : productOperators ∈ _) (by decide)

theorem Chain.ends (c : Chain operand os)
    (hos : ∀ o ∈ os, operand.continues ⟨.operator, o⟩ = false) (h : Closes operand os rest) :
    Ends operand (c.words ++ rest) := by
  cases c with
  | nil => exact h.ends
  | cons o ho next more => exact ends_cons (hos o ho)

theorem Ends.primary (h : Ends .factor rest) : Ends .primary rest :=
  h.of_subset (by simp [Rule.levels])

theorem not_ends_caret (ws : List Word) : ¬ Ends .factor (⟨.operator, "^"⟩ :: ws) := by
  intro h
  have hoperates := h.operates (by simp [Rule.levels] : powerOperators ∈ Rule.factor.levels)
  exact absurd hoperates (by decide)

theorem ArgumentList.not_words_eq_rightParen (a : ArgumentList) {us vs : List Word} {t : String} :
    a.words ++ us ≠ ⟨.rightParen, t⟩ :: vs := by
  obtain ⟨w, ws, hwords, hw⟩ := a.derives.opens
  rw [hwords]
  rintro ⟨⟩
  exact hw rfl

mutual
/-- Two derivations from one rule, after which nothing comes that could be taken for more of them,
are the same as soon as the words are. -/
theorem Derivation.unique : ∀ {rule : Rule} (d d' : Derivation rule) {rest rest' : List Word},
    Ends rule rest → Ends rule rest' → d.words ++ rest = d'.words ++ rest' →
      d = d' ∧ rest = rest'
  | _, .expression first more, .expression first' more', _, _, h, h', hwords => by
    have hos : ∀ o ∈ ["+", "-"], Rule.term.continues ⟨.operator, o⟩ = false := by decide
    rw [Derivation.words, Derivation.words, List.append_assoc, List.append_assoc] at hwords
    obtain ⟨rfl, hmore⟩ := first.unique first' (more.ends hos h.closes_sums)
      (more'.ends hos h'.closes_sums) hwords
    obtain ⟨rfl, hrest⟩ := more.unique more' hos h.closes_sums h'.closes_sums hmore
    exact ⟨rfl, hrest⟩
  | _, .term first more, .term first' more', _, _, h, h', hwords => by
    have hos : ∀ o ∈ ["*", "/"], Rule.factor.continues ⟨.operator, o⟩ = false := by decide
    rw [Derivation.words, Derivation.words, List.append_assoc, List.append_assoc] at hwords
    obtain ⟨rfl, hmore⟩ := first.unique first' (more.ends hos h.closes_products)
      (more'.ends hos h'.closes_products) hwords
    obtain ⟨rfl, hrest⟩ := more.unique more' hos h.closes_products h'.closes_products hmore
    exact ⟨rfl, hrest⟩
  | _, .factor base, .factor base', _, _, h, h', hwords => by
    obtain ⟨rfl, hrest⟩ := base.unique base' h.primary h'.primary hwords
    exact ⟨rfl, hrest⟩
  | _, .factor base, .power base' exponent', _, _, h, _, hwords => by
    rw [Derivation.words, Derivation.words, List.append_assoc] at hwords
    obtain ⟨-, rfl⟩ := base.unique base' h.primary (ends_cons (by decide)) hwords
    exact absurd h (not_ends_caret _)
  | _, .power base exponent, .factor base', _, _, _, h', hwords => by
    rw [Derivation.words, Derivation.words, List.append_assoc] at hwords
    obtain ⟨-, rfl⟩ := base.unique base' (ends_cons (by decide)) h'.primary hwords
    exact absurd h' (not_ends_caret _)
  | _, .power base exponent, .power base' exponent', _, _, h, h', hwords => by
    rw [Derivation.words, Derivation.words, List.append_assoc, List.append_assoc] at hwords
    obtain ⟨rfl, hafter⟩ := base.unique base' (ends_cons (by decide)) (ends_cons (by decide)) hwords
    obtain ⟨rfl, hrest⟩ := exponent.unique exponent' h h' (List.cons.inj hafter).2
    exact ⟨rfl, hrest⟩
  | _, .number t v hv, d', _, _, _, _, hwords => by
    cases d' with
    | number t' v' hv' =>
      cases hwords
      cases hv.symm.trans hv'
      exact ⟨rfl, rfl⟩
    | _ => cases hwords
  | _, .text t, d', _, _, _, _, hwords => by
    cases d' with
    | text t' =>
      cases hwords
      exact ⟨rfl, rfl⟩
    | _ => cases hwords
  | _, .parens s inner t, d', _, _, _, _, hwords => by
    cases d' with
    | parens s' inner' t' =>
      rw [Derivation.words, Derivation.words, List.cons_append, List.cons_append,
        List.append_assoc, List.append_assoc] at hwords
      obtain ⟨hopening, hinner⟩ := List.cons.inj hwords
      obtain ⟨rfl, hclosing⟩ := inner.unique inner' (ends_cons rfl) (ends_cons rfl) hinner
      cases hopening
      cases hclosing
      exact ⟨rfl, rfl⟩
    | _ => cases hwords
  | _, .cell t, d', _, _, h, _, hwords => by
    cases d' with
    | cell t' =>
      cases hwords
      exact ⟨rfl, rfl⟩
    | range s' c' t' =>
      cases hwords
      exact absurd rfl h.colon
    | _ => cases hwords
  | _, .range s c t, d', _, _, _, h', hwords => by
    cases d' with
    | cell t' =>
      cases hwords
      exact absurd rfl h'.colon
    | range s' c' t' =>
      cases hwords
      exact ⟨rfl, rfl⟩
    | _ => cases hwords
  | _, .emptyCall n s t, d', _, _, _, _, hwords => by
    cases d' with
    | emptyCall n' s' t' =>
      cases hwords
      exact ⟨rfl, rfl⟩
    | call n' s' arguments' t' =>
      simp only [Derivation.words, List.cons_append, List.nil_append, List.append_assoc,
        List.cons.injEq] at hwords
      exact absurd hwords.2.2.symm arguments'.not_words_eq_rightParen
    | _ => cases hwords
  | _, .call n s arguments t, d', _, _, _, _, hwords => by
    cases d' with
    | emptyCall n' s' t' =>
      simp only [Derivation.words, List.cons_append, List.nil_append, List.append_assoc,
        List.cons.injEq] at hwords
      exact absurd hwords.2.2 arguments.not_words_eq_rightParen
    | call n' s' arguments' t' =>
      simp only [Derivation.words, List.cons_append, List.nil_append, List.append_assoc,
        List.cons.injEq] at hwords
      obtain ⟨hname, hopening, harguments⟩ := hwords
      obtain ⟨rfl, rfl, hrest⟩ := arguments.unique arguments' harguments
      cases hname
      cases hopening
      exact ⟨rfl, hrest⟩
    | _ => cases hwords

theorem Chain.unique : ∀ {operand : Rule} {os : List String} (c c' : Chain operand os)
    {rest rest' : List Word}, (∀ o ∈ os, operand.continues ⟨.operator, o⟩ = false) →
    Closes operand os rest → Closes operand os rest' → c.words ++ rest = c'.words ++ rest' →
      c = c' ∧ rest = rest'
  | _, _, .nil, .nil, _, _, _, _, _, hwords => ⟨rfl, hwords⟩
  | _, _, .nil, .cons _ ho _ _, _, _, _, h, _, hwords =>
    absurd (congrArg List.head? hwords) (h.operator _ ho)
  | _, _, .cons _ ho _ _, .nil, _, _, _, _, h', hwords =>
    absurd (congrArg List.head? hwords.symm) (h'.operator _ ho)
  | _, _, .cons o ho next more, .cons o' ho' next' more', _, _, hos, h, h', hwords => by
    rw [Chain.words, Chain.words, List.cons_append, List.cons_append, List.append_assoc,
      List.append_assoc] at hwords
    obtain ⟨hoperator, hnext⟩ := List.cons.inj hwords
    cases hoperator
    obtain ⟨rfl, hmore⟩ := next.unique next' (more.ends hos h) (more'.ends hos h') hnext
    obtain ⟨rfl, hrest⟩ := more.unique more' hos h h' hmore
    exact ⟨rfl, hrest⟩

theorem ArgumentList.unique : ∀ (a a' : ArgumentList) {rest rest' : List Word} {t t' : String},
    a.words ++ ⟨.rightParen, t⟩ :: rest = a'.words ++ ⟨.rightParen, t'⟩ :: rest' →
      a = a' ∧ t = t' ∧ rest = rest'
  | .single last, .single last', _, _, _, _, hwords => by
    obtain ⟨rfl, hrest⟩ := last.unique last' (ends_cons rfl) (ends_cons rfl) hwords
    cases hrest
    exact ⟨rfl, rfl, rfl⟩
  | .single last, .cons first' s' others', _, _, _, _, hwords => by
    rw [ArgumentList.words, ArgumentList.words, List.append_assoc] at hwords
    cases (last.unique first' (ends_cons rfl) (ends_cons rfl) hwords).2
  | .cons first s others, .single last', _, _, _, _, hwords => by
    rw [ArgumentList.words, ArgumentList.words, List.append_assoc] at hwords
    cases (first.unique last' (ends_cons rfl) (ends_cons rfl) hwords).2
  | .cons first s others, .cons first' s' others', _, _, _, _, hwords => by
    rw [ArgumentList.words, ArgumentList.words, List.append_assoc, List.append_assoc] at hwords
    obtain ⟨rfl, hafter⟩ := first.unique first' (ends_cons rfl) (ends_cons rfl) hwords
    obtain ⟨hcomma, hothers⟩ := List.cons.inj hafter
    obtain ⟨rfl, hrest⟩ := others.unique others' hothers
    cases hcomma
    exact ⟨rfl, hrest⟩
end

theorem Derivation.eq_of_words_eq {rule : Rule} {d d' : Derivation rule}
    (h : d.words = d'.words) : d = d' := by
  have hends : Ends rule [] := by
    intro w hw
    cases hw
  exact (d.unique d' hends hends (congrArg (· ++ []) h)).1

end Unique

/-- A text is parsed exactly if its tokens, the closing one left out, are derivable as an
expression, and as the tree of their only derivation. The error of any other text stands in its
trimmed body or at the end of that. -/
theorem parse_eq_ok_iff_derivation (s : String) :
    (∀ f, parse s = .ok f ↔
      ∃ ts, tokenize (body s) = .ok ts ∧
        ∃ d : Derivation .expression, d.words = ts.dropLast.map word ∧ d.tree = f ∧
          ∀ d' : Derivation .expression, d'.words = ts.dropLast.map word → d' = d) ∧
      ∀ e, parse s = .error e →
        e.fault.isOfText = true ∧ 0 ≤ e.position ∧ e.position ≤ (Text.trim (body s)).length := by
  refine ⟨fun f => ?_, fun e => located_parse⟩
  constructor
  · intro h
    obtain ⟨lexemes, stop, htokens, -, hderives⟩ := tokenize_of_parse h
    obtain ⟨d, hwords, htree⟩ := derives_iff.mp hderives
    refine ⟨_, htokens, d, ?_, htree, fun d' hwords' => ?_⟩
    · rw [List.dropLast_concat, hwords]
    · rw [List.dropLast_concat, ← hwords] at hwords'
      exact Derivation.eq_of_words_eq hwords'
  · rintro ⟨ts, htokens, d, hwords, rfl, -⟩
    obtain ⟨lexemes, stop, rfl, -⟩ := Token.exists_of_scan 0 _ htokens
    rw [List.dropLast_concat] at hwords
    rw [parse, htokens]
    refine ofTokens_of_derives d.derives ?_
    rw [List.map_append, hwords]
    rfl

/-- Sums group to the left, and the name of the call is in capitals; the second text lacks an
operand at its end. -/
theorem parse_eq_ok_of_derivation_sums :
    parse "=A1+B1+sum(C1)" =
        .ok (.binary "+" (.binary "+" (.cell "A1") (.cell "B1")) (.call "SUM" [.cell "C1"])) ∧
      ∃ e, parse "=A1+" = .error e ∧ e.position ≤ 3 := by
  constructor
  · let operand (base : Derivation .primary) : Derivation .term := .term (.factor base) .nil
    let sum : ArgumentList := .single (.expression (operand (.cell "C1")) .nil)
    let d : Derivation .expression := .expression (operand (.cell "A1"))
      (.cons "+" (by decide) (operand (.cell "B1"))
        (.cons "+" (by decide) (operand (.call "sum" "(" sum ")")) .nil))
    have htokens : tokenize (body "=A1+B1+sum(C1)") = .ok [⟨.reference, "A1", 0⟩,
        ⟨.operator, "+", 2⟩, ⟨.reference, "B1", 3⟩, ⟨.operator, "+", 5⟩, ⟨.name, "sum", 6⟩,
        ⟨.leftParen, "(", 9⟩, ⟨.reference, "C1", 10⟩, ⟨.rightParen, ")", 12⟩,
        ⟨.finish, "", 13⟩] := by
      decide +kernel
    refine ((parse_eq_ok_iff_derivation "=A1+B1+sum(C1)").1 _).mpr
      ⟨_, htokens, d, rfl, ?_, fun d' hwords => Derivation.eq_of_words_eq hwords⟩
    rfl
  · cases hparse : parse "=A1+" with
    | ok f =>
      have herror : (parse "=A1+").isOk = false := by decide +kernel
      rw [hparse] at herror
      cases herror
    | error e =>
      have hlength : (Text.trim (body "=A1+")).length = 3 := by decide +kernel
      obtain ⟨-, -, hstop⟩ := (parse_eq_ok_iff_derivation "=A1+").2 e hparse
      rw [hlength] at hstop
      exact ⟨e, rfl, hstop⟩

end Gridcalc.Formula
