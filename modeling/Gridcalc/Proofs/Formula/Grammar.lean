import Gridcalc.Formula.Parse
import Gridcalc.Proofs.Formula.Lexeme

/-! # The grammar

    expression := term | expression ('+' | '-') term
    term       := factor | term ('*' | '/') factor
    factor     := primary | primary '^' factor
    primary    := number | text | '(' expression ')' | reference | reference ':' reference
                | name '(' ')' | name '(' expression (',' expression)* ')'

The parser reads a derivable list of words to its end and gives the derived tree, and whatever it
reads is derivable.
-/

namespace Gridcalc

def Word.operates (level : List Char) (w : Word) : Bool :=
  w.kind == .operator && Token.occursIn w.text.toList level

namespace Formula

open Token (word exists_token)

inductive Rule where
  | expression
  | term
  | factor
  | primary

mutual
/-- The words are derivable from the rule, and this is the tree of the derivation. -/
inductive Derives : Rule → List Word → Formula → Prop
  | term {ws : List Word} {f : Formula} : Derives .term ws f → Derives .expression ws f
  | sum {ws us : List Word} {l r : Formula} {o : String} (ho : o ∈ ["+", "-"]) :
    Derives .expression ws l → Derives .term us r →
      Derives .expression (ws ++ ⟨.operator, o⟩ :: us) (.binary o l r)
  | factor {ws : List Word} {f : Formula} : Derives .factor ws f → Derives .term ws f
  | product {ws us : List Word} {l r : Formula} {o : String} (ho : o ∈ ["*", "/"]) :
    Derives .term ws l → Derives .factor us r →
      Derives .term (ws ++ ⟨.operator, o⟩ :: us) (.binary o l r)
  | primary {ws : List Word} {f : Formula} : Derives .primary ws f → Derives .factor ws f
  | power {ws us : List Word} {l r : Formula} : Derives .primary ws l → Derives .factor us r →
      Derives .factor (ws ++ ⟨.operator, "^"⟩ :: us) (.binary "^" l r)
  | number {t : String} {v : Float} (h : Number.float? t = some v) :
    Derives .primary [⟨.number, t⟩] (.number v)
  | text (t : String) : Derives .primary [⟨.text, t⟩] (.text t)
  | parens {ws : List Word} {f : Formula} (s t : String) : Derives .expression ws f →
      Derives .primary (⟨.leftParen, s⟩ :: (ws ++ [⟨.rightParen, t⟩])) f
  | cell (t : String) : Derives .primary [⟨.reference, t⟩] (.cell t)
  | range (s c t : String) :
    Derives .primary [⟨.reference, s⟩, ⟨.colon, c⟩, ⟨.reference, t⟩] (.range s t)
  | emptyCall (n s t : String) :
    Derives .primary [⟨.name, n⟩, ⟨.leftParen, s⟩, ⟨.rightParen, t⟩] (.call (Text.upper n) [])
  | call {ws : List Word} {fs : List Formula} (n s t : String) : DerivesAll ws fs →
      Derives .primary (⟨.name, n⟩ :: ⟨.leftParen, s⟩ :: (ws ++ [⟨.rightParen, t⟩]))
        (.call (Text.upper n) fs)

/-- The words are expressions with commas between them. -/
inductive DerivesAll : List Word → List Formula → Prop
  | single {ws : List Word} {f : Formula} : Derives .expression ws f → DerivesAll ws [f]
  | cons {ws us : List Word} {f : Formula} {fs : List Formula} (s : String) :
    Derives .expression ws f → DerivesAll us fs →
      DerivesAll (ws ++ ⟨.comma, s⟩ :: us) (f :: fs)
end

/-- The words begin with one that does not close a parenthesis. -/
def Opens (ws : List Word) : Prop := ∃ w us, ws = w :: us ∧ w.kind ≠ .rightParen

theorem Opens.append {ws : List Word} (us : List Word) (h : Opens ws) : Opens (ws ++ us) := by
  obtain ⟨w, tail, rfl, hw⟩ := h
  exact ⟨w, tail ++ us, rfl, hw⟩

theorem Derives.opens : ∀ {rule : Rule} {ws : List Word} {f : Formula}, Derives rule ws f → Opens ws
  | _, _, _, .term h => h.opens
  | _, _, _, .sum _ hl _ => hl.opens.append _
  | _, _, _, .factor h => h.opens
  | _, _, _, .product _ hl _ => hl.opens.append _
  | _, _, _, .primary h => h.opens
  | _, _, _, .power hl _ => hl.opens.append _
  | _, _, _, .number _ => ⟨_, _, rfl, nofun⟩
  | _, _, _, .text _ => ⟨_, _, rfl, nofun⟩
  | _, _, _, .parens _ _ _ => ⟨_, _, rfl, nofun⟩
  | _, _, _, .cell _ => ⟨_, _, rfl, nofun⟩
  | _, _, _, .range _ _ _ => ⟨_, _, rfl, nofun⟩
  | _, _, _, .emptyCall _ _ _ => ⟨_, _, rfl, nofun⟩
  | _, _, _, .call _ _ _ _ => ⟨_, _, rfl, nofun⟩

theorem DerivesAll.opens {ws : List Word} {fs : List Formula} (h : DerivesAll ws fs) :
    Opens ws := by
  cases h with
  | single h => exact h.opens
  | cons s h _ => exact h.opens.append _

/-- The operators that a derivation from the rule may go on with. -/
def Rule.levels : Rule → List (List Char)
  | primary => []
  | factor => [powerOperators]
  | term => [powerOperators, productOperators]
  | expression => [powerOperators, productOperators, sumOperators]

def Rule.continues (rule : Rule) (w : Word) : Bool :=
  w.kind == .colon || rule.levels.any w.operates

/-- Nothing follows that could be taken for a part of a derivation from the rule. -/
def Ends (rule : Rule) (ws : List Word) : Prop := ∀ w ∈ ws.head?, rule.continues w = false

section Complete

variable {ts tail : List Token} {ws rest : List Word} {f : Formula}

/-- The reading gives this tree and leaves these words. -/
def Leaves (r : Reading Formula ts) (f : Formula) (rest : List Word) : Prop :=
  r.value = f ∧ r.rest.map word = rest

/-- What the parser does at words that are derivable from the rule and then go on with `rest`. A
sum or a product so far is where its loop goes on. -/
def Accepted : Rule → List Word → Formula → Prop
  | .primary, ws, f => ∀ ts rest, ts.map word = ws ++ rest → Ends .primary rest →
      ∃ r, primary ts = .ok r ∧ Leaves r f rest
  | .factor, ws, f => ∀ ts rest, ts.map word = ws ++ rest → Ends .factor rest →
      ∃ r, factor ts = .ok r ∧ Leaves r f rest
  | .term, ws, f => ∀ ts rest, ts.map word = ws ++ rest → Ends .factor rest →
      ∃ r, term ts = products r ∧ Leaves r f rest
  | .expression, ws, f => ∀ ts rest, ts.map word = ws ++ rest → Ends .term rest →
      ∃ r, expression ts = sums r ∧ Leaves r f rest

def AcceptedAll (ws : List Word) (fs : List Formula) : Prop :=
  ∀ ts t rest, ts.map word = ws ++ ⟨.rightParen, t⟩ :: rest →
    ∃ r : Reading (List Formula) ts, arguments ts = .ok r ∧ r.value = fs ∧ r.rest.map word = rest

theorem ends_cons {w : Word} {rule : Rule} (h : rule.continues w = false) :
    Ends rule (w :: rest) := by
  intro v hv
  cases hv
  exact h

theorem Ends.colon {rule : Rule} {w : Word} (h : Ends rule (w :: rest)) : w.kind ≠ .colon := by
  have hw := h w rfl
  rw [Rule.continues, Bool.or_eq_false_iff] at hw
  simpa using hw.1

theorem Ends.operates {rule : Rule} {w : Word} {level : List Char} (h : Ends rule (w :: rest))
    (hlevel : level ∈ rule.levels) : w.operates level = false := by
  have hw := h w rfl
  rw [Rule.continues, Bool.or_eq_false_iff, List.any_eq_false] at hw
  simpa using hw.2 level hlevel

theorem Ends.of_subset {rule rule' : Rule} (hsubset : rule'.levels ⊆ rule.levels)
    (h : Ends rule rest) : Ends rule' rest := by
  cases rest with
  | nil =>
    intro w hw
    cases hw
  | cons w rest =>
    refine ends_cons ?_
    rw [Rule.continues, Bool.or_eq_false_iff, List.any_eq_false]
    refine ⟨by simpa using h.colon, fun level hlevel => ?_⟩
    simp [h.operates (hsubset hlevel)]

theorem sums_of_ends {r : Reading Formula ts} (h : Ends .expression (r.rest.map word)) :
    sums r = .ok r := by
  rw [sums.eq_def]
  split
  · rfl
  · rename_i t tail hrest
    rw [hrest] at h
    have hoperator : t.isOperatorOf sumOperators = false := h.operates (by simp [Rule.levels])
    rw [if_neg (by simp [hoperator])]

theorem products_of_ends {r : Reading Formula ts} (h : Ends .term (r.rest.map word)) :
    products r = .ok r := by
  rw [products.eq_def]
  split
  · rfl
  · rename_i t tail hrest
    rw [hrest] at h
    have hoperator : t.isOperatorOf productOperators = false := h.operates (by simp [Rule.levels])
    rw [if_neg (by simp [hoperator])]

theorem sums_cons {r : Reading Formula ts} {t : Token} (hrest : r.rest = t :: tail)
    (ht : t.isOperatorOf sumOperators = true) {right : Reading Formula tail}
    (hright : term tail = .ok right) :
    ∃ next : Reading Formula ts, sums r = sums next ∧
      next.value = .binary t.text r.value right.value ∧ next.rest = right.rest := by
  refine ⟨⟨.binary t.text r.value right.value, right.rest, ?_⟩, ?_, rfl, rfl⟩
  · have := right.shorter
    have := r.shorter
    rw [hrest, List.length_cons] at this
    omega
  · conv => lhs; rw [sums.eq_def]
    split
    · rename_i hnil
      rw [hrest] at hnil
      cases hnil
    · rename_i hcons
      rw [hrest] at hcons
      cases hcons
      rw [if_pos ht, hright]

theorem products_cons {r : Reading Formula ts} {t : Token} (hrest : r.rest = t :: tail)
    (ht : t.isOperatorOf productOperators = true) {right : Reading Formula tail}
    (hright : factor tail = .ok right) :
    ∃ next : Reading Formula ts, products r = products next ∧
      next.value = .binary t.text r.value right.value ∧ next.rest = right.rest := by
  refine ⟨⟨.binary t.text r.value right.value, right.rest, ?_⟩, ?_, rfl, rfl⟩
  · have := right.shorter
    have := r.shorter
    rw [hrest, List.length_cons] at this
    omega
  · conv => lhs; rw [products.eq_def]
    split
    · rename_i hnil
      rw [hrest] at hnil
      cases hnil
    · rename_i hcons
      rw [hrest] at hcons
      cases hcons
      rw [if_pos ht, hright]

theorem accepted_expression (h : Accepted .term ws f) : Accepted .expression ws f := by
  intro ts rest hts hends
  obtain ⟨r, hr, hvalue, hrest⟩ := h ts rest hts (hends.of_subset (by simp [Rule.levels]))
  rw [expression, hr, products_of_ends (by rwa [hrest])]
  exact ⟨r, rfl, hvalue, hrest⟩

/-- The whole of a term, with the loop of its products run to the end. -/
theorem exists_term (h : Accepted .term ws f) (hts : ts.map word = ws ++ rest)
    (hends : Ends .term rest) : ∃ r, term ts = .ok r ∧ Leaves r f rest := by
  obtain ⟨r, hr, hvalue, hrest⟩ := h ts rest hts (hends.of_subset (by simp [Rule.levels]))
  exact ⟨r, hr.trans (products_of_ends (by rwa [hrest])), hvalue, hrest⟩

theorem exists_expression (h : Accepted .expression ws f) (hts : ts.map word = ws ++ rest)
    (hends : Ends .expression rest) : ∃ r, expression ts = .ok r ∧ Leaves r f rest := by
  obtain ⟨r, hr, hvalue, hrest⟩ := h ts rest hts (hends.of_subset (by simp [Rule.levels]))
  exact ⟨r, hr.trans (sums_of_ends (by rwa [hrest])), hvalue, hrest⟩

theorem accepted_sum {us : List Word} {l r : Formula} {o : String} (ho : o ∈ ["+", "-"])
    (hl : Accepted .expression ws l) (hr : Accepted .term us r) :
    Accepted .expression (ws ++ ⟨.operator, o⟩ :: us) (.binary o l r) := by
  have hall : ∀ o ∈ ["+", "-"], Rule.term.continues ⟨.operator, o⟩ = false ∧
      Word.operates sumOperators ⟨.operator, o⟩ = true := by decide
  obtain ⟨hcontinues, hoperates⟩ := hall o ho
  intro ts rest hts hends
  rw [List.append_assoc, List.cons_append] at hts
  obtain ⟨left, hleft, hvalue, hafter⟩ := hl ts _ hts (ends_cons hcontinues)
  obtain ⟨position, tail, htail, hmap⟩ := exists_token hafter
  obtain ⟨right, hright, hvalue', hrest⟩ := exists_term hr hmap hends
  obtain ⟨next, hnext, hbinary, hnextrest⟩ := sums_cons htail hoperates hright
  refine ⟨next, hleft.trans hnext, ?_, ?_⟩
  · rw [hbinary, hvalue, hvalue']
  · rw [hnextrest, hrest]

theorem accepted_term (h : Accepted .factor ws f) : Accepted .term ws f := by
  intro ts rest hts hends
  obtain ⟨r, hr, hleaves⟩ := h ts rest hts hends
  rw [term, hr]
  exact ⟨r, rfl, hleaves⟩

theorem accepted_product {us : List Word} {l r : Formula} {o : String} (ho : o ∈ ["*", "/"])
    (hl : Accepted .term ws l) (hr : Accepted .factor us r) :
    Accepted .term (ws ++ ⟨.operator, o⟩ :: us) (.binary o l r) := by
  have hall : ∀ o ∈ ["*", "/"], Rule.factor.continues ⟨.operator, o⟩ = false ∧
      Word.operates productOperators ⟨.operator, o⟩ = true := by decide
  obtain ⟨hcontinues, hoperates⟩ := hall o ho
  intro ts rest hts hends
  rw [List.append_assoc, List.cons_append] at hts
  obtain ⟨left, hleft, hvalue, hafter⟩ := hl ts _ hts (ends_cons hcontinues)
  obtain ⟨position, tail, htail, hmap⟩ := exists_token hafter
  obtain ⟨right, hright, hvalue', hrest⟩ := hr tail rest hmap hends
  obtain ⟨next, hnext, hbinary, hnextrest⟩ := products_cons htail hoperates hright
  refine ⟨next, hleft.trans hnext, ?_, ?_⟩
  · rw [hbinary, hvalue, hvalue']
  · rw [hnextrest, hrest]

theorem accepted_factor (h : Accepted .primary ws f) : Accepted .factor ws f := by
  intro ts rest hts hends
  obtain ⟨r, hr, hvalue, hrest⟩ := h ts rest hts (hends.of_subset (by simp [Rule.levels]))
  refine ⟨r, ?_, hvalue, hrest⟩
  rw [factor, hr]
  simp only
  split
  · rfl
  · rename_i t tail htail
    rw [← hrest, htail] at hends
    have hoperator : t.isOperatorOf powerOperators = false := hends.operates (by simp [Rule.levels])
    rw [if_neg (by simp [hoperator])]

theorem accepted_power {us : List Word} {l r : Formula} (hl : Accepted .primary ws l)
    (hr : Accepted .factor us r) :
    Accepted .factor (ws ++ ⟨.operator, "^"⟩ :: us) (.binary "^" l r) := by
  intro ts rest hts hends
  rw [List.append_assoc, List.cons_append] at hts
  obtain ⟨left, hleft, hvalue, hafter⟩ := hl ts _ hts (ends_cons (by decide))
  obtain ⟨position, tail, htail, hmap⟩ := exists_token hafter
  obtain ⟨right, hright, hvalue', hrest⟩ := hr tail rest hmap hends
  have hoperates : Word.operates powerOperators ⟨.operator, "^"⟩ = true := by decide
  have hoperator : Token.isOperatorOf powerOperators ⟨.operator, "^", position⟩ = true := hoperates
  rw [factor, hleft]
  simp only
  split
  · rename_i hnil
    rw [htail] at hnil
    cases hnil
  · rename_i hcons
    rw [htail] at hcons
    cases hcons
    rw [if_pos hoperator, hright]
    exact ⟨_, rfl, by rw [hvalue, hvalue'], hrest⟩

theorem accepted_number {t : String} {v : Float} (h : Number.float? t = some v) :
    Accepted .primary [⟨.number, t⟩] (.number v) := by
  intro ts rest hts _
  obtain ⟨position, tail, rfl, hmap⟩ := exists_token hts
  rw [primary.eq_def]
  simp only [h]
  exact ⟨_, rfl, rfl, hmap⟩

theorem accepted_text (t : String) : Accepted .primary [⟨.text, t⟩] (.text t) := by
  intro ts rest hts _
  obtain ⟨position, tail, rfl, hmap⟩ := exists_token hts
  rw [primary.eq_def]
  exact ⟨_, rfl, rfl, hmap⟩

theorem exists_expect {k : TokenKind} {s : String} {position : Int}
    (h : ts = ⟨k, s, position⟩ :: tail) : ∃ r, expect k ts = .ok r ∧ r.rest = tail := by
  subst h
  exact ⟨_, if_pos rfl, rfl⟩

theorem accepted_parens (s t : String) (h : Accepted .expression ws f) :
    Accepted .primary (⟨.leftParen, s⟩ :: (ws ++ [⟨.rightParen, t⟩])) f := by
  intro ts rest hts _
  rw [List.cons_append, List.append_assoc] at hts
  obtain ⟨position, tail, rfl, hmap⟩ := exists_token hts
  obtain ⟨inner, hinner, hvalue, hafter⟩ := exists_expression h hmap (ends_cons rfl)
  obtain ⟨closing, after, hclosing, hrest⟩ := exists_token hafter
  obtain ⟨close, hclose, hcloserest⟩ := exists_expect hclosing
  rw [primary.eq_def]
  simp only [hinner, hclose]
  exact ⟨_, rfl, hvalue, by simp [hcloserest, hrest]⟩

theorem accepted_cell (t : String) : Accepted .primary [⟨.reference, t⟩] (.cell t) := by
  intro ts rest hts hends
  obtain ⟨position, tail, rfl, hmap⟩ := exists_token hts
  rw [primary.eq_def]
  cases tail with
  | nil => exact ⟨_, rfl, rfl, hmap⟩
  | cons u us =>
    change (u :: us).map word = rest at hmap
    rw [← hmap] at hends
    have hcolon : u.kind ≠ .colon := hends.colon
    simp only [if_neg hcolon]
    exact ⟨_, rfl, rfl, hmap⟩

theorem accepted_range (s c t : String) :
    Accepted .primary [⟨.reference, s⟩, ⟨.colon, c⟩, ⟨.reference, t⟩] (.range s t) := by
  intro ts rest hts _
  obtain ⟨start, after, rfl, hafter⟩ := exists_token hts
  obtain ⟨colon, others, rfl, hothers⟩ := exists_token hafter
  obtain ⟨stop, tail, rfl, hmap⟩ := exists_token hothers
  rw [primary.eq_def]
  exact ⟨_, rfl, rfl, hmap⟩

theorem accepted_emptyCall (n s t : String) :
    Accepted .primary [⟨.name, n⟩, ⟨.leftParen, s⟩, ⟨.rightParen, t⟩]
      (.call (Text.upper n) []) := by
  intro ts rest hts _
  obtain ⟨start, after, rfl, hafter⟩ := exists_token hts
  obtain ⟨opening, others, rfl, hothers⟩ := exists_token hafter
  obtain ⟨closing, tail, rfl, hmap⟩ := exists_token hothers
  rw [primary.eq_def]
  exact ⟨_, rfl, rfl, hmap⟩

theorem accepted_call {fs : List Formula} (n s t : String) (hws : Opens ws)
    (h : AcceptedAll ws fs) :
    Accepted .primary (⟨.name, n⟩ :: ⟨.leftParen, s⟩ :: (ws ++ [⟨.rightParen, t⟩]))
      (.call (Text.upper n) fs) := by
  obtain ⟨w, us, rfl, hw⟩ := hws
  intro ts rest hts _
  rw [List.cons_append, List.cons_append, List.append_assoc] at hts
  obtain ⟨start, after, rfl, hafter⟩ := exists_token hts
  obtain ⟨opening, inner, rfl, hinner⟩ := exists_token hafter
  obtain ⟨args, hargs, hvalue, hrest⟩ := h inner t rest hinner
  obtain ⟨first, tail, rfl, -⟩ := exists_token hinner
  rw [primary.eq_def]
  simp only [if_true, if_neg hw, hargs]
  exact ⟨_, rfl, congrArg _ hvalue, hrest⟩

theorem acceptedAll_single (h : Accepted .expression ws f) : AcceptedAll ws [f] := by
  intro ts t rest hts
  obtain ⟨first, hfirst, hvalue, hafter⟩ := exists_expression h hts (ends_cons rfl)
  obtain ⟨position, tail, htail, hrest⟩ := exists_token hafter
  rw [arguments, hfirst]
  simp only
  split
  · rename_i hnil
    rw [htail] at hnil
    cases hnil
  · rename_i hcons
    rw [htail] at hcons
    cases hcons
    exact ⟨_, rfl, congrArg ([·]) hvalue, hrest⟩

theorem acceptedAll_cons {us : List Word} {fs : List Formula} (s : String)
    (h : Accepted .expression ws f) (hall : AcceptedAll us fs) :
    AcceptedAll (ws ++ ⟨.comma, s⟩ :: us) (f :: fs) := by
  intro ts t rest hts
  rw [List.append_assoc, List.cons_append] at hts
  obtain ⟨first, hfirst, hvalue, hafter⟩ := exists_expression h hts (ends_cons rfl)
  obtain ⟨position, tail, htail, hmap⟩ := exists_token hafter
  obtain ⟨others, hothers, hvalues, hrest⟩ := hall tail t rest hmap
  rw [arguments, hfirst]
  simp only
  split
  · rename_i hnil
    rw [htail] at hnil
    cases hnil
  · rename_i hcons
    rw [htail] at hcons
    cases hcons
    rw [if_pos rfl, hothers]
    exact ⟨_, rfl, congrArg₂ List.cons hvalue hvalues, hrest⟩

end Complete

mutual
theorem Derives.accepted : ∀ {rule : Rule} {ws : List Word} {f : Formula},
    Derives rule ws f → Accepted rule ws f
  | _, _, _, .term h => accepted_expression h.accepted
  | _, _, _, .sum ho hl hr => accepted_sum ho hl.accepted hr.accepted
  | _, _, _, .factor h => accepted_term h.accepted
  | _, _, _, .product ho hl hr => accepted_product ho hl.accepted hr.accepted
  | _, _, _, .primary h => accepted_factor h.accepted
  | _, _, _, .power hl hr => accepted_power hl.accepted hr.accepted
  | _, _, _, .number h => accepted_number h
  | _, _, _, .text t => accepted_text t
  | _, _, _, .parens s t h => accepted_parens s t h.accepted
  | _, _, _, .cell t => accepted_cell t
  | _, _, _, .range s c t => accepted_range s c t
  | _, _, _, .emptyCall n s t => accepted_emptyCall n s t
  | _, _, _, .call n s t h => accepted_call n s t h.opens h.accepted

theorem DerivesAll.accepted : ∀ {ws : List Word} {fs : List Formula},
    DerivesAll ws fs → AcceptedAll ws fs
  | _, _, .single h => acceptedAll_single h.accepted
  | _, _, .cons s h hall => acceptedAll_cons s h.accepted hall.accepted
end

section Sound

variable {ts tail : List Token} {ws : List Word}

/-- All words but those that close a list have the form of their kind. -/
def WellFormedAll (ws : List Word) : Prop := ∀ w ∈ ws, w.kind ≠ .finish → Token.WellFormed w

def Derived (rule : Rule) (r : Reading Formula ts) : Prop :=
  ∃ ws, ts.map word = ws ++ r.rest.map word ∧ Derives rule ws r.value

def DerivedAll (r : Reading (List Formula) ts) : Prop :=
  ∃ ws t, ts.map word = ws ++ ⟨.rightParen, t⟩ :: r.rest.map word ∧ DerivesAll ws r.value

theorem WellFormedAll.rest {rule : Rule} {r : Reading Formula ts}
    (hts : WellFormedAll (ts.map word)) (h : Derived rule r) :
    WellFormedAll (r.rest.map word) := by
  obtain ⟨ws, hws, -⟩ := h
  intro w hw
  exact hts w (hws ▸ List.mem_append_right ws hw)

theorem WellFormedAll.of_cons {t : Token} (h : WellFormedAll ((t :: tail).map word)) :
    WellFormedAll (tail.map word) :=
  fun w hw => h w (List.mem_cons_of_mem _ hw)

theorem operator_of_operates {level : List Char} {t : Token} (os : List String)
    (hall : ∀ o ∈ ["+", "-", "*", "/", "^"], Token.occursIn o.toList level = true → o ∈ os)
    (hts : WellFormedAll ((t :: tail).map word)) (h : t.isOperatorOf level = true) :
    t.word = ⟨.operator, t.text⟩ ∧ t.text ∈ os := by
  obtain ⟨kind, text, position⟩ := t
  rw [Token.isOperatorOf, Bool.and_eq_true, beq_iff_eq] at h
  obtain ⟨rfl, hoccurs⟩ := h
  exact ⟨rfl, hall text (hts _ List.mem_cons_self nofun) hoccurs⟩

theorem Derived.map {rule rule' : Rule} {r : Reading Formula ts} (h : Derived rule r)
    (hrule : ∀ {ws f}, Derives rule ws f → Derives rule' ws f) : Derived rule' r := by
  obtain ⟨ws, hws, hderives⟩ := h
  exact ⟨ws, hws, hrule hderives⟩

theorem Derived.binary {rule left' right' : Rule} {o : String}
    {left : Reading Formula ts} {t : Token} {right : Reading Formula tail}
    (hrule : ∀ {ws us l r}, Derives left' ws l → Derives right' us r →
      Derives rule (ws ++ ⟨.operator, o⟩ :: us) (.binary o l r))
    (hleft : Derived left' left) (hrest : left.rest = t :: tail) (ht : t.word = ⟨.operator, o⟩)
    (hright : Derived right' right) (hshorter : right.rest.length < ts.length) :
    Derived rule (⟨.binary o left.value right.value, right.rest, hshorter⟩ : Reading Formula ts) := by
  obtain ⟨ws, hws, hl⟩ := hleft
  obtain ⟨us, hus, hr⟩ := hright
  refine ⟨ws ++ ⟨.operator, o⟩ :: us, ?_, hrule hl hr⟩
  rw [hws, hrest, List.map_cons, ht, hus, List.append_assoc, List.cons_append]

theorem exists_of_expect {k : TokenKind} {r : Reading Unit ts} (h : expect k ts = .ok r) :
    ∃ s, ts.map word = ⟨k, s⟩ :: r.rest.map word := by
  cases ts with
  | nil => cases h
  | cons t tail =>
    obtain ⟨kind, s, position⟩ := t
    rw [expect] at h
    split at h
    · rename_i hkind
      cases hkind
      cases h
      exact ⟨s, rfl⟩
    · cases h

theorem derived_reference {s : String} {position : Int}
    {r : Reading Formula (⟨.reference, s, position⟩ :: tail)}
    (h : primary (⟨.reference, s, position⟩ :: tail) = .ok r) : Derived .primary r := by
  rw [primary.eq_def] at h
  cases tail with
  | nil =>
    cases h
    exact ⟨_, rfl, .cell s⟩
  | cons u us =>
    obtain ⟨kind, c, colon⟩ := u
    simp only at h
    split at h
    · rename_i hcolon
      cases hcolon
      cases us with
      | nil => cases h
      | cons v vs =>
        obtain ⟨kind, last, stop⟩ := v
        simp only at h
        split at h
        · rename_i hreference
          cases hreference
          cases h
          exact ⟨_, rfl, .range s c last⟩
        · cases h
    · cases h
      exact ⟨_, rfl, .cell s⟩

theorem derived_name {n : String} {position : Int}
    {r : Reading Formula (⟨.name, n, position⟩ :: tail)}
    (harguments : ∀ us : List Token, us.length < tail.length → WellFormedAll (us.map word) →
      ∀ {args}, arguments us = .ok args → DerivedAll args)
    (hts : WellFormedAll ((⟨.name, n, position⟩ :: tail : List Token).map word))
    (h : primary (⟨.name, n, position⟩ :: tail) = .ok r) : Derived .primary r := by
  rw [primary.eq_def] at h
  cases tail with
  | nil => cases h
  | cons u us =>
    obtain ⟨kind, s, opening⟩ := u
    simp only at h
    split at h
    · rename_i hparen
      cases hparen
      cases us with
      | nil => cases h
      | cons v vs =>
        obtain ⟨kind, t, closing⟩ := v
        simp only at h
        split at h
        · rename_i hclosing
          cases hclosing
          cases h
          exact ⟨_, rfl, .emptyCall n s t⟩
        · split at h
          · cases h
          · rename_i args hargs
            cases h
            obtain ⟨ws, t, hws, hderives⟩ :=
              harguments _ (Nat.lt_succ_self _) hts.of_cons.of_cons hargs
            refine ⟨⟨.name, n⟩ :: ⟨.leftParen, s⟩ :: (ws ++ [⟨.rightParen, t⟩]), ?_,
              .call n s t hderives⟩
            rw [List.map_cons, List.map_cons, hws]
            simp [word]
    · cases h

mutual
theorem derived_expression (ts : List Token) (hts : WellFormedAll (ts.map word)) :
    ∀ {r}, expression ts = .ok r → Derived .expression r := by
  intro r h
  rw [expression] at h
  split at h
  · cases h
  · rename_i left hleft
    have := left.shorter
    exact derived_sums left hts ((derived_term ts hts hleft).map .term) h
termination_by 6 * ts.length + 4
decreasing_by all_goals omega

theorem derived_sums {ts : List Token} (left : Reading Formula ts)
    (hts : WellFormedAll (ts.map word)) (hleft : Derived .expression left) :
    ∀ {r}, sums left = .ok r → Derived .expression r := by
  intro r h
  have hformed := hts.rest hleft
  rw [sums.eq_def] at h
  split at h
  · cases h
    exact hleft
  · rename_i t tail hrest
    rw [hrest] at hformed
    have htail : tail.length < left.rest.length := by simp [hrest]
    split at h
    · rename_i ht
      obtain ⟨hword, ho⟩ := operator_of_operates ["+", "-"] (by decide) hformed ht
      split at h
      · cases h
      · rename_i right hright
        have hshorter := Nat.lt_trans right.shorter htail
        exact derived_sums _ hts (Derived.binary (.sum ho) hleft hrest hword
          (derived_term tail hformed.of_cons hright) (Nat.lt_trans hshorter left.shorter)) h
    · cases h
      exact hleft
termination_by 6 * left.rest.length + 5
decreasing_by all_goals omega

theorem derived_term (ts : List Token) (hts : WellFormedAll (ts.map word)) :
    ∀ {r}, term ts = .ok r → Derived .term r := by
  intro r h
  rw [term] at h
  split at h
  · cases h
  · rename_i left hleft
    have := left.shorter
    exact derived_products left hts ((derived_factor ts hts hleft).map .factor) h
termination_by 6 * ts.length + 3
decreasing_by all_goals omega

theorem derived_products {ts : List Token} (left : Reading Formula ts)
    (hts : WellFormedAll (ts.map word)) (hleft : Derived .term left) :
    ∀ {r}, products left = .ok r → Derived .term r := by
  intro r h
  have hformed := hts.rest hleft
  rw [products.eq_def] at h
  split at h
  · cases h
    exact hleft
  · rename_i t tail hrest
    rw [hrest] at hformed
    have htail : tail.length < left.rest.length := by simp [hrest]
    split at h
    · rename_i ht
      obtain ⟨hword, ho⟩ := operator_of_operates ["*", "/"] (by decide) hformed ht
      split at h
      · cases h
      · rename_i right hright
        have hshorter := Nat.lt_trans right.shorter htail
        exact derived_products _ hts (Derived.binary (.product ho) hleft hrest hword
          (derived_factor tail hformed.of_cons hright) (Nat.lt_trans hshorter left.shorter)) h
    · cases h
      exact hleft
termination_by 6 * left.rest.length + 4
decreasing_by all_goals omega

theorem derived_factor (ts : List Token) (hts : WellFormedAll (ts.map word)) :
    ∀ {r}, factor ts = .ok r → Derived .factor r := by
  intro r h
  rw [factor] at h
  split at h
  · cases h
  · rename_i left hleft
    have hprimary := derived_primary ts hts hleft
    have hformed := hts.rest hprimary
    split at h
    · cases h
      exact hprimary.map .primary
    · rename_i t tail hrest
      rw [hrest] at hformed
      have htail : tail.length < ts.length := Nat.lt_trans (by simp [hrest]) left.shorter
      split at h
      · rename_i ht
        obtain ⟨hword, ho⟩ := operator_of_operates ["^"] (by decide) hformed ht
        rw [List.mem_singleton.mp ho] at hword
        split at h
        · cases h
        · rename_i right hright
          cases h
          exact Derived.binary .power hprimary hrest hword
            (derived_factor tail hformed.of_cons hright) _
      · cases h
        exact hprimary.map .primary
termination_by 6 * ts.length + 2
decreasing_by all_goals omega

theorem derived_primary : ∀ ts : List Token, WellFormedAll (ts.map word) →
    ∀ {r}, primary ts = .ok r → Derived .primary r
  | [], _, r, h => by
    rw [primary.eq_def] at h
    cases h
  | ⟨kind, s, position⟩ :: tail, hts, r, h => by
    cases kind with
    | number =>
      rw [primary.eq_def] at h
      simp only at h
      split at h
      · rename_i v hv
        cases h
        exact ⟨_, rfl, .number hv⟩
      · cases h
    | text =>
      rw [primary.eq_def] at h
      cases h
      exact ⟨_, rfl, .text s⟩
    | leftParen =>
      rw [primary.eq_def] at h
      simp only at h
      split at h
      · cases h
      · rename_i inner hinner
        obtain ⟨ws, hws, hderives⟩ := derived_expression tail hts.of_cons hinner
        split at h
        · cases h
        · rename_i close hclose
          cases h
          obtain ⟨t, ht⟩ := exists_of_expect hclose
          refine ⟨⟨.leftParen, s⟩ :: (ws ++ [⟨.rightParen, t⟩]), ?_, .parens s t hderives⟩
          simp [word, hws, ht]
    | reference => exact derived_reference h
    | name => exact derived_name (fun us _ hus => derived_arguments us hus) hts h
    | _ =>
      rw [primary.eq_def] at h
      cases h
termination_by ts => 6 * ts.length + 1
decreasing_by all_goals simp only [List.length_cons]; omega

theorem derived_arguments (ts : List Token) (hts : WellFormedAll (ts.map word)) :
    ∀ {r}, arguments ts = .ok r → DerivedAll r := by
  intro r h
  rw [arguments] at h
  split at h
  · cases h
  · rename_i first hfirst
    have hexpression := derived_expression ts hts hfirst
    have hformed := hts.rest hexpression
    obtain ⟨ws, hws, hderives⟩ := hexpression
    split at h
    · cases h
    · rename_i t tail hrest
      rw [hrest] at hformed hws
      have htail : tail.length < ts.length := Nat.lt_trans (by simp [hrest]) first.shorter
      obtain ⟨kind, text, position⟩ := t
      simp only at h
      split at h
      · rename_i hcomma
        cases hcomma
        split at h
        · cases h
        · rename_i others hothers
          cases h
          obtain ⟨us, s, hus, hall⟩ := derived_arguments tail hformed.of_cons hothers
          refine ⟨ws ++ ⟨.comma, text⟩ :: us, s, ?_, .cons text hderives hall⟩
          rw [hws, List.map_cons, hus]
          simp [word]
      · split at h
        · rename_i hparen
          cases hparen
          cases h
          exact ⟨ws, text, hws, .single hderives⟩
        · cases h
termination_by 6 * ts.length + 5
decreasing_by all_goals omega
end

end Sound

section Parse

variable {ts : List Token} {ws : List Word} {f : Formula} {s : String}

theorem ofTokens_of_derives (h : Derives .expression ws f)
    (hts : ts.map word = ws ++ [⟨.finish, ""⟩]) : ofTokens ts = .ok f := by
  have hlast : ts.getLast?.map Token.kind = some .finish := by
    have hmap := congrArg List.getLast? hts
    rw [List.getLast?_map, List.getLast?_concat] at hmap
    obtain ⟨t, ht, hword⟩ := Option.map_eq_some_iff.mp hmap
    rw [ht]
    exact congrArg (some ∘ Word.kind) hword
  obtain ⟨r, hr, hvalue, hrest⟩ := exists_expression h.accepted hts (ends_cons (by decide))
  obtain ⟨stop, tail, htail, -⟩ := exists_token hrest
  rw [ofTokens, if_pos hlast, hr]
  simp only [htail, if_true, hvalue]

theorem eq_of_closed {lexemes : List Token} {w last : Word} {us : List Word}
    (hformed : ∀ t ∈ lexemes, Token.WellFormed t.word) (hw : w.kind = .finish)
    (h : lexemes.map word ++ [last] = ws ++ w :: us) : lexemes.map word = ws := by
  rcases List.append_eq_append_iff.mp h with ⟨more, hmore, hlast⟩ | ⟨more, hmore, hlast⟩
  · cases more with
    | nil => simp [hmore]
    | cons v more => simp at hlast
  · cases more with
    | nil => simp [hmore]
    | cons v more =>
      cases hlast
      obtain ⟨t, ht, hword⟩ := List.mem_map.mp (hmore ▸ List.mem_append_right ws List.mem_cons_self)
      have hfalse := hformed t ht
      rw [hword, Token.WellFormed, hw] at hfalse
      exact hfalse.elim

theorem derives_of_ofTokens {lexemes : List Token} {stop : Int}
    (hformed : ∀ t ∈ lexemes, Token.WellFormed t.word)
    (h : ofTokens (lexemes ++ [⟨.finish, "", stop⟩]) = .ok f) :
    Derives .expression (lexemes.map word) f := by
  have hts : WellFormedAll ((lexemes ++ [(⟨.finish, "", stop⟩ : Token)]).map word) := by
    intro w hw hfinish
    rw [List.map_append, List.mem_append] at hw
    rcases hw with hw | hw
    · obtain ⟨t, ht, rfl⟩ := List.mem_map.mp hw
      exact hformed t ht
    · rw [List.mem_singleton.mp hw] at hfinish
      exact absurd rfl hfinish
  rw [ofTokens] at h
  split at h
  · split at h
    · cases h
    · rename_i r hr
      obtain ⟨ws, hws, hderives⟩ := derived_expression _ hts hr
      split at h
      · cases h
      · rename_i t tail htail
        split at h
        · rename_i hkind
          rw [htail, List.map_append] at hws
          have hword : t.word.kind = .finish := hkind
          rw [← Except.ok.inj h, eq_of_closed hformed hword hws]
          exact hderives
        · cases h
  · cases h

theorem tokenize_of_parse (h : parse s = .ok f) :
    ∃ lexemes stop, tokenize (body s) = .ok (lexemes ++ [⟨.finish, "", stop⟩]) ∧
      (∀ t ∈ lexemes, Token.WellFormed t.word) ∧ Derives .expression (lexemes.map word) f := by
  rw [parse] at h
  split at h
  · cases h
  · rename_i ts hts
    obtain ⟨lexemes, stop, rfl, hformed⟩ := Token.exists_of_scan 0 _ hts
    exact ⟨lexemes, stop, hts, hformed, derives_of_ofTokens hformed h⟩

end Parse

end Formula

end Gridcalc
