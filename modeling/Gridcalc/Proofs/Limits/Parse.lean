import Gridcalc.Limits.Parse
import Gridcalc.Proofs.Formula.Located
import Gridcalc.Proofs.Formula.Rendered

/-! # Parsing with enough calls

A parse within limits is the parse without them, or it is broken off; and it is not broken off if
it may have as many calls open as the grammar has rules for each token. On the other hand every
parenthesis that opens takes four calls, so no number of calls is enough for all texts.
-/

namespace Gridcalc.Formula

open Token (word exists_token)

/-- A reading with at most `n` calls open is the plain reading `r`, or is broken off, which
happens only below `bound`. -/
inductive Follows {α : Type} (n bound : Nat) :
    Except (Halt SyntaxError) α → Except SyntaxError α → Prop
  | ok (a : α) : Follows n bound (.ok a) (.ok a)
  | error (e : SyntaxError) : Follows n bound (.error (.error e)) (.error e)
  | broken (r : Except SyntaxError α) (h : n < bound) :
    Follows n bound (.error (.overrun .depth)) r

section Follows

variable {α : Type} {n m bound bound' : Nat} {x : Except (Halt SyntaxError) α}
  {r : Except SyntaxError α}

theorem Follows.weaken (h : Follows n bound x r) (himp : n < bound → m < bound') :
    Follows m bound' x r := by
  cases h with
  | ok a => exact .ok a
  | error e => exact .error e
  | broken r h => exact .broken r (himp h)

theorem follows_mapError (r : Except SyntaxError α) : Follows n bound (r.mapError .error) r := by
  cases r with
  | ok a => exact .ok a
  | error e => exact .error e

end Follows

mutual
theorem follows_expression (n : Nat) (ts : List Token) :
    Follows n (6 * ts.length + 4) (expressionWithin n ts) (expression ts) := by
  cases n with
  | zero =>
    rw [expressionWithin]
    exact .broken _ (by omega)
  | succ n =>
    have hterm := follows_term n ts
    rw [expressionWithin, expression]
    generalize termWithin n ts = x at hterm ⊢
    generalize term ts = r at hterm ⊢
    cases hterm with
    | ok left =>
      have hshorter := left.shorter
      refine (follows_sums n left).weaken fun h => ?_
      omega
    | error e => exact .error e
    | broken r h => exact .broken _ (by omega)
termination_by 6 * ts.length + 4
decreasing_by all_goals omega

theorem follows_sums (n : Nat) {input : List Token} (left : Reading Formula input) :
    Follows n (6 * left.rest.length + 3) (sumsWithin n left) (sums left) := by
  match left with
  | ⟨value, [], shorter⟩ =>
    rw [sumsWithin.eq_def, sums.eq_def]
    exact .ok _
  | ⟨value, t :: tail, shorter⟩ =>
    rw [sumsWithin.eq_def, sums.eq_def]
    dsimp only
    cases t.isOperatorOf sumOperators with
    | false => exact .ok _
    | true =>
      have hterm := follows_term n tail
      rw [if_pos rfl, if_pos rfl]
      generalize termWithin n tail = x at hterm ⊢
      generalize term tail = r at hterm ⊢
      cases hterm with
      | ok right =>
        have hright := right.shorter
        refine (follows_sums n _).weaken fun h => ?_
        simp only [List.length_cons] at h ⊢
        omega
      | error e => exact .error e
      | broken r h => exact .broken _ (by simp only [List.length_cons]; omega)
termination_by 6 * left.rest.length + 5
decreasing_by all_goals simp only [List.length_cons]; omega

theorem follows_term (n : Nat) (ts : List Token) :
    Follows n (6 * ts.length + 3) (termWithin n ts) (term ts) := by
  cases n with
  | zero =>
    rw [termWithin]
    exact .broken _ (by omega)
  | succ n =>
    have hfactor := follows_factor n ts
    rw [termWithin, term]
    generalize factorWithin n ts = x at hfactor ⊢
    generalize factor ts = r at hfactor ⊢
    cases hfactor with
    | ok left =>
      have hshorter := left.shorter
      refine (follows_products n left).weaken fun h => ?_
      omega
    | error e => exact .error e
    | broken r h => exact .broken _ (by omega)
termination_by 6 * ts.length + 3
decreasing_by all_goals omega

theorem follows_products (n : Nat) {input : List Token} (left : Reading Formula input) :
    Follows n (6 * left.rest.length + 2) (productsWithin n left) (products left) := by
  match left with
  | ⟨value, [], shorter⟩ =>
    rw [productsWithin.eq_def, products.eq_def]
    exact .ok _
  | ⟨value, t :: tail, shorter⟩ =>
    rw [productsWithin.eq_def, products.eq_def]
    dsimp only
    cases t.isOperatorOf productOperators with
    | false => exact .ok _
    | true =>
      have hfactor := follows_factor n tail
      rw [if_pos rfl, if_pos rfl]
      generalize factorWithin n tail = x at hfactor ⊢
      generalize factor tail = r at hfactor ⊢
      cases hfactor with
      | ok right =>
        have hright := right.shorter
        refine (follows_products n _).weaken fun h => ?_
        simp only [List.length_cons] at h ⊢
        omega
      | error e => exact .error e
      | broken r h => exact .broken _ (by simp only [List.length_cons]; omega)
termination_by 6 * left.rest.length + 4
decreasing_by all_goals simp only [List.length_cons]; omega

theorem follows_factor (n : Nat) (ts : List Token) :
    Follows n (6 * ts.length + 2) (factorWithin n ts) (factor ts) := by
  cases n with
  | zero =>
    rw [factorWithin]
    exact .broken _ (by omega)
  | succ n =>
    have hprimary := follows_primary n ts
    rw [factorWithin, factor]
    generalize primaryWithin n ts = x at hprimary ⊢
    generalize primary ts = r at hprimary ⊢
    cases hprimary with
    | error e => exact .error e
    | broken r h => exact .broken _ (by omega)
    | ok left =>
      obtain ⟨value, rest, shorter⟩ := left
      cases rest with
      | nil => exact .ok _
      | cons t tail =>
        dsimp only
        cases t.isOperatorOf powerOperators with
        | false => exact .ok _
        | true =>
          have htail := Nat.lt_trans (Nat.lt_succ_self tail.length) shorter
          have hfactor := follows_factor n tail
          rw [if_pos rfl, if_pos rfl]
          generalize factorWithin n tail = x at hfactor ⊢
          generalize factor tail = r at hfactor ⊢
          cases hfactor with
          | ok right => exact .ok _
          | error e => exact .error e
          | broken r h => exact .broken _ (by omega)
termination_by 6 * ts.length + 2
decreasing_by all_goals omega

theorem follows_primary (n : Nat) (ts : List Token) :
    Follows n (6 * ts.length + 1) (primaryWithin n ts) (primary ts) := by
  match n, ts with
  | 0, ts =>
    rw [primaryWithin]
    exact .broken _ (by omega)
  | n + 1, [] =>
    rw [primaryWithin, primary]
    exact .error _
  | n + 1, ⟨.leftParen, s, position⟩ :: tail =>
    have hexpression := follows_expression n tail
    rw [primaryWithin.eq_def, primary.eq_def]
    dsimp only
    generalize expressionWithin n tail = x at hexpression ⊢
    generalize expression tail = r at hexpression ⊢
    cases hexpression with
    | ok inner =>
      dsimp only
      cases expect .rightParen inner.rest with
      | ok close => exact .ok _
      | error e => exact .error e
    | error e => exact .error e
    | broken r h => exact .broken _ (by simp only [List.length_cons]; omega)
  | n + 1, [⟨.name, s, position⟩] =>
    rw [primaryWithin.eq_def, primary.eq_def]
    exact .error _
  | n + 1, ⟨.name, s, position⟩ :: u :: us =>
    rw [primaryWithin.eq_def, primary.eq_def]
    dsimp only
    by_cases hu : u.kind = .leftParen
    · rw [if_pos hu, if_pos hu]
      match n, us with
      | 0, us => exact .broken _ (by simp only [List.length_cons]; omega)
      | n + 1, [] => exact .error _
      | n + 1, v :: vs =>
        dsimp only
        by_cases hv : v.kind = .rightParen
        · rw [if_pos hv, if_pos hv]
          exact .ok _
        · rw [if_neg hv, if_neg hv]
          have harguments := follows_arguments n (v :: vs)
          generalize argumentsWithin n (v :: vs) = x at harguments ⊢
          generalize arguments (v :: vs) = r at harguments ⊢
          cases harguments with
          | ok args => exact .ok _
          | error e => exact .error e
          | broken r h => exact .broken _ (by simp only [List.length_cons] at *; omega)
    · rw [if_neg hu, if_neg hu]
      exact .error _
  | n + 1, ⟨.number, s, position⟩ :: tail | n + 1, ⟨.text, s, position⟩ :: tail
  | n + 1, ⟨.operator, s, position⟩ :: tail | n + 1, ⟨.rightParen, s, position⟩ :: tail
  | n + 1, ⟨.comma, s, position⟩ :: tail | n + 1, ⟨.colon, s, position⟩ :: tail
  | n + 1, ⟨.reference, s, position⟩ :: tail | n + 1, ⟨.finish, s, position⟩ :: tail =>
    rw [primaryWithin.eq_def]
    exact follows_mapError _
termination_by 6 * ts.length + 1
decreasing_by all_goals simp only [List.length_cons]; omega

theorem follows_arguments (n : Nat) (ts : List Token) :
    Follows n (6 * ts.length + 5) (argumentsWithin n ts) (arguments ts) := by
  have hfirst := follows_expression n ts
  rw [argumentsWithin, arguments]
  generalize expressionWithin n ts = x at hfirst ⊢
  generalize expression ts = r at hfirst ⊢
  cases hfirst with
  | error e => exact .error e
  | broken r h => exact .broken _ (by omega)
  | ok first =>
    obtain ⟨value, rest, shorter⟩ := first
    cases rest with
    | nil => exact .error _
    | cons t tail =>
      have htail := Nat.lt_trans (Nat.lt_succ_self tail.length) shorter
      dsimp only
      by_cases hcomma : t.kind = .comma
      · rw [if_pos hcomma, if_pos hcomma]
        have hothers := follows_arguments n tail
        generalize argumentsWithin n tail = x at hothers ⊢
        generalize arguments tail = r at hothers ⊢
        cases hothers with
        | ok others => exact .ok _
        | error e => exact .error e
        | broken r h => exact .broken _ (by omega)
      · rw [if_neg hcomma, if_neg hcomma]
        by_cases hclose : t.kind = .rightParen
        · rw [if_pos hclose, if_pos hclose]
          exact .ok _
        · rw [if_neg hclose, if_neg hclose]
          exact .error _
termination_by 6 * ts.length + 5
decreasing_by all_goals omega
end

theorem follows_ofTokens (n : Nat) (ts : List Token) :
    Follows n (6 * ts.length + 4) (ofTokensWithin n ts) (ofTokens ts) := by
  rw [ofTokensWithin, ofTokens]
  split
  · have hexpression := follows_expression n ts
    generalize expressionWithin n ts = x at hexpression ⊢
    generalize expression ts = r at hexpression ⊢
    cases hexpression with
    | error e => exact .error e
    | broken r h => exact .broken _ h
    | ok reading =>
      obtain ⟨value, rest, shorter⟩ := reading
      cases rest with
      | nil => exact .error _
      | cons t tail =>
        dsimp only
        by_cases hfinish : t.kind = .finish
        · rw [if_pos hfinish, if_pos hfinish]
          exact .ok _
        · rw [if_neg hfinish, if_neg hfinish]
          exact .error _
  · exact .error _

/-- A number of calls that is enough for the text. -/
def enoughCalls (s : String) : Nat :=
  match tokenize (body s) with
  | .error _ => 0
  | .ok ts => 6 * ts.length + 4

theorem follows_parse (n : Nat) (s : String) :
    Follows n (enoughCalls s) (parseWithin n s) (parse s) := by
  rw [enoughCalls, parseWithin, parse]
  cases tokenize (body s) with
  | error e => exact .error e
  | ok ts => exact follows_ofTokens n ts

theorem parseWithin_eq {n : Nat} {s : String} (h : enoughCalls s ≤ n) :
    parseWithin n s = (parse s).mapError .error := by
  have hfollows := follows_parse n s
  generalize parseWithin n s = x at hfollows ⊢
  generalize parse s = r at hfollows ⊢
  cases hfollows with
  | ok f => rfl
  | error e => rfl
  | broken r hn => exact absurd hn (Nat.not_lt.mpr h)

/-- A parse that is not broken off fails as parses of texts do. -/
theorem isOfText_of_parseWithin {n : Nat} {s : String} {e : SyntaxError}
    (h : parseWithin n s = .error (.error e)) : e.fault.isOfText = true := by
  have hfollows := follows_parse n s
  rw [h] at hfollows
  generalize hparse : parse s = r at hfollows
  cases hfollows with
  | error e => exact (located_parse hparse).1

/-- `1` in as many parentheses. -/
def nestedChars : Nat → List Char
  | 0 => ['1']
  | m + 1 => '(' :: (nestedChars m ++ [')'])

def nestedWords : Nat → List Word
  | 0 => [⟨.number, "1"⟩]
  | m + 1 => ⟨.leftParen, "("⟩ :: (nestedWords m ++ [⟨.rightParen, ")"⟩])

def nested (m : Nat) : String := String.ofList ('=' :: nestedChars m)

theorem scans_nestedChars (m : Nat) {rest : List Char} {ws : List Word}
    (hrest : Token.Bounded rest) (h : Token.Scans rest ws) :
    Token.Scans (nestedChars m ++ rest) (nestedWords m ++ ws) := by
  induction m generalizing rest ws with
  | zero => exact h.number (.whole (by decide) (by decide)) false hrest
  | succ m ih =>
    have hclose : Token.Scans (')' :: rest) (⟨.rightParen, ")"⟩ :: ws) :=
      h.mark rfl (Token.startsNumber_of_mem_marks (by decide) (by decide))
    have hinner := ih (Token.bounded_cons (by decide)) hclose
    have hopen := hinner.mark (c := '(') rfl
      (Token.startsNumber_of_mem_marks (by decide) (by decide))
    simpa [nestedChars, nestedWords] using hopen

theorem derives_nestedWords (m : Nat) : Derives .expression (nestedWords m) (.number 1) := by
  induction m with
  | zero => exact (Derives.number (by decide +kernel)).expression
  | succ m ih => exact (ih.parens "(" ")").expression

/-- Each parenthesis that opens takes an expression, a term, a factor and a primary. -/
theorem expressionWithin_of_nested (m : Nat) {n : Nat} {ts : List Token} {ws : List Word}
    (hts : ts.map word = nestedWords m ++ ws) (hn : n ≤ 4 * m) :
    expressionWithin n ts = .error (.overrun .depth) := by
  induction m generalizing n ts ws with
  | zero =>
    obtain rfl : n = 0 := by omega
    rw [expressionWithin]
  | succ m ih =>
    rw [nestedWords, List.cons_append, List.append_assoc] at hts
    obtain ⟨position, tail, rfl, htail⟩ := exists_token hts
    match n with
    | 0 => rw [expressionWithin]
    | 1 => rw [expressionWithin, termWithin]
    | 2 => rw [expressionWithin, termWithin, factorWithin]
    | 3 => rw [expressionWithin, termWithin, factorWithin, primaryWithin]
    | n + 4 =>
      have hinner := ih htail (show n ≤ 4 * m by omega)
      rw [expressionWithin, termWithin, factorWithin, primaryWithin.eq_def]
      simp only [hinner]

theorem compact_nestedChars (m : Nat) : Compact (nestedChars m) := by
  cases m with
  | zero => exact compact_single (by decide) (by decide)
  | succ m =>
    exact (compact_single (by decide) (by decide)).append (nestedChars m)
      (compact_single (by decide) (by decide))

theorem exists_tokenize_nested (m : Nat) : ∃ ts, tokenize (body (nested m)) = .ok ts ∧
    ts.map word = nestedWords m ++ [⟨.finish, ""⟩] := by
  have hcompact := compact_nestedChars m
  have hscans := scans_nestedChars m Token.bounded_nil Token.scans_nil
  rw [List.append_nil] at hscans
  rw [nested, body_equals hcompact]
  exact hscans.exists_tokenize hcompact.stops_head hcompact.stops_last

/-- No number of calls is enough for all formulas. -/
theorem parseWithin_nested {m n : Nat} (h : n ≤ 4 * m) :
    parse (nested m) = .ok (.number 1) ∧ parseWithin n (nested m) = .error (.overrun .depth) := by
  obtain ⟨ts, htokenize, hwords⟩ := exists_tokenize_nested m
  have hparse := ofTokens_of_derives (derives_nestedWords m) hwords
  have hlast : (ts.getLast?.map Token.kind) = some .finish := by
    by_contra hlast
    rw [ofTokens, if_neg hlast] at hparse
    cases hparse
  rw [parse, parseWithin, htokenize]
  refine ⟨hparse, ?_⟩
  simp only
  rw [ofTokensWithin, if_pos hlast, expressionWithin_of_nested m hwords h]

end Gridcalc.Formula
