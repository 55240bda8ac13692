import Gridcalc.Formula.Parse
import Gridcalc.Proofs.Formula.Slices

/-! # Where a text is at fault

The error of a text names a place in it: that of the character that begins no lexeme, or that of a
token that does not fit, the closing one included. Two faults no text has, for its tokens close
and its numbers are numerals.
-/

namespace Gridcalc

open Number (Layout Numeral)
open Text (isAsciiDigit)

namespace Token

variable {c : Char} {cs : List Char} {l : Lexeme}

theorem isAsciiDigit_of_mem_numberChars_true (h : c ∈ numberChars true cs) :
    isAsciiDigit c = true := by
  induction cs with
  | nil => cases h
  | cons d cs ih =>
    rw [numberChars] at h
    split at h
    · rename_i hd
      rcases List.mem_cons.mp h with rfl | h
      · exact hd
      · exact ih h
    · rw [if_neg (by simp)] at h
      cases h

theorem exists_numeral_numberChars (hc : isAsciiDigit c = true) :
    ∃ d, Numeral (c :: numberChars false cs) d := by
  have hshape : ∃ ds fs, (∀ d ∈ ds, isAsciiDigit d = true) ∧ (∀ d ∈ fs, isAsciiDigit d = true) ∧
      (numberChars false cs = ds ∨ numberChars false cs = ds ++ '.' :: fs) := by
    induction cs with
    | nil => exact ⟨[], [], List.forall_mem_nil _, List.forall_mem_nil _, .inl rfl⟩
    | cons e cs ih =>
      obtain ⟨ds, fs, hds, hfs, hcs⟩ := ih
      rw [numberChars]
      split
      · rename_i he
        refine ⟨e :: ds, fs, List.forall_mem_cons.mpr ⟨he, hds⟩, hfs, hcs.imp ?_ ?_⟩
        · exact congrArg (e :: ·)
        · exact congrArg (e :: ·)
      · split
        · rename_i hpoint
          rw [hpoint.1]
          exact ⟨[], numberChars true cs, List.forall_mem_nil _,
            fun d => isAsciiDigit_of_mem_numberChars_true, .inr rfl⟩
        · exact ⟨[], [], List.forall_mem_nil _, List.forall_mem_nil _, .inl rfl⟩
  obtain ⟨ds, fs, hds, hfs, hcs | hcs⟩ := hshape
  · rw [hcs]
    exact ⟨_, .whole (List.cons_ne_nil c ds) (List.forall_mem_cons.mpr ⟨hc, hds⟩)⟩
  · rw [hcs, ← List.cons_append]
    exact ⟨_, .fraction (List.cons_ne_nil c ds) (List.forall_mem_cons.mpr ⟨hc, hds⟩) hfs⟩

theorem exists_float?_of_startsNumber (h : startsNumber c cs = true) :
    ∃ v, Number.float? (String.ofList (c :: numberChars false cs)) = some v := by
  rw [startsNumber, Bool.or_eq_true, Bool.and_eq_true, beq_iff_eq] at h
  rcases h with hc | ⟨rfl, hhead⟩
  · obtain ⟨d, hd⟩ := exists_numeral_numberChars hc
    exact ⟨_, Number.float?_signed hd false⟩
  · cases cs with
    | nil => cases hhead
    | cons e cs =>
      have hdigit : isAsciiDigit e = true := hhead
      obtain ⟨d, hd⟩ := exists_numeral_numberChars hdigit
      rw [numberChars, if_pos hdigit]
      exact ⟨_, Number.float?_signed hd true⟩

/-- What parsing can rely on: the text of a number is one, and no lexeme is taken for the end. -/
structure Usable (kind : TokenKind) (text : String) : Prop where
  unfinished : kind ≠ .finish
  number : kind = .number → ∃ v, Number.float? text = some v

theorem Usable.of_ne {kind : TokenKind} {text : String} (hfinish : kind ≠ .finish)
    (hnumber : kind ≠ .number) : Usable kind text :=
  ⟨hfinish, fun h => absurd h hnumber⟩

theorem usable_of_punctuation? {kind : TokenKind} {text : String} (h : punctuation? c = some kind) :
    Usable kind text := by
  unfold punctuation? at h
  split at h
  case h_10 => cases h
  all_goals
    cases h
    exact .of_ne (by decide) (by decide)

theorem ensures_lexeme (c : Char) (cs : List Char) :
    Ensures (fun l => Usable l.kind (String.ofList l.text)) (fun fault => fault.isOfText = true)
      (lexeme c cs) := by
  rw [lexeme]
  split
  · rename_i hnumber
    exact ⟨by simp, fun _ => exists_float?_of_startsNumber hnumber⟩
  · split
    · simp only
      split
      · exact .of_ne (by simp) (by simp)
      · rfl
    · split
      · rename_i hkind
        exact usable_of_punctuation? hkind
      · split
        · split
          · exact .of_ne (by simp) (by simp)
          · split
            · rfl
            · exact .of_ne (by simp) (by simp)
        · rfl

/-- Tokens to parse, and one at the end that says so. -/
inductive Closed : List Token → Prop
  | finish (stop : Int) : Closed [⟨.finish, "", stop⟩]
  | cons {t : Token} {ts : List Token} (ht : Usable t.kind t.text) (hts : Closed ts) :
    Closed (t :: ts)

theorem ensures_scan (start : Nat) (cs : List Char) :
    Ensures Closed (fun e => e.fault.isOfText = true) (scan start cs) := by
  induction start, cs using scan.induct with
  | case1 start =>
    rw [scan]
    exact .finish start
  | case2 start c cs hblank ih =>
    rw [scan, if_pos hblank]
    exact ih
  | case3 start c cs hblank fault hlexeme =>
    have hfault := (ensures_lexeme c cs).of_error hlexeme
    rw [scan, if_neg hblank, hlexeme]
    exact hfault
  | case4 start c cs hblank l hlexeme e hscan ih =>
    have hfault := ih.of_error hscan
    rw [scan, if_neg hblank, hlexeme]
    simp only [hscan]
    exact hfault
  | case5 start c cs hblank l hlexeme tokens hscan ih =>
    have hl := (ensures_lexeme c cs).of_ok hlexeme
    have hclosed := ih.of_ok hscan
    rw [scan, if_neg hblank, hlexeme]
    simp only [hscan]
    exact .cons hl hclosed

end Token

namespace Formula

open Token (Closed)

variable {ts us tail : List Token} {t : Token} {e : SyntaxError} {α : Type}

def IsAt (ts : List Token) (e : SyntaxError) : Prop :=
  e.fault.isOfText = true ∧ ∃ t ∈ ts, e.position = t.position

theorem IsAt.of_suffix (hus : us <:+ ts) (h : IsAt us e) : IsAt ts e := by
  obtain ⟨hfault, t, ht, hposition⟩ := h
  exact ⟨hfault, t, hus.subset ht, hposition⟩

/-- Of the tokens these are left, the closing one among them. -/
structure Unread (ts us : List Token) : Prop where
  suffix : us <:+ ts
  closed : Closed us

theorem Unread.all (h : Closed ts) : Unread ts ts := ⟨List.suffix_refl ts, h⟩

theorem Unread.trans {vs : List Token} (h : Unread ts us) (h' : Unread us vs) : Unread ts vs :=
  ⟨h'.suffix.trans h.suffix, h'.closed⟩

theorem Unread.ne_nil (h : Unread ts us) : us ≠ [] := by
  rintro rfl
  cases h.closed

theorem Unread.next (h : Unread ts us) (hus : us = t :: tail) (ht : t.kind ≠ .finish) :
    Unread ts tail := by
  obtain ⟨hsuffix, hclosed⟩ := h
  subst hus
  cases hclosed with
  | finish => exact absurd rfl ht
  | cons _ htail => exact ⟨(List.suffix_cons t tail).trans hsuffix, htail⟩

theorem Unread.isAt (h : Unread ts us) (hus : us = t :: tail) {fault : SyntaxFault}
    (hfault : fault.isOfText = true) : IsAt ts ⟨fault, t.position⟩ :=
  ⟨hfault, t, h.suffix.subset (hus ▸ List.mem_cons_self), rfl⟩

/-- Reading leaves the closing token, or fails at one of the tokens. -/
def Lands (ts : List Token) (x : Except SyntaxError (Reading α ts)) : Prop :=
  Ensures (fun r => Unread ts r.rest) (IsAt ts) x

theorem Lands.isAt {x : Except SyntaxError (Reading α us)} (h : Lands us x) (hx : x = .error e)
    (hus : Unread ts us) : IsAt ts e :=
  IsAt.of_suffix hus.suffix (Ensures.of_error h hx)

theorem Lands.unread {x : Except SyntaxError (Reading α us)} {r : Reading α us} (h : Lands us x)
    (hx : x = .ok r) (hus : Unread ts us) : Unread ts r.rest := by
  have hrest : Unread us r.rest := by
    rw [hx] at h
    exact h
  exact hus.trans hrest

theorem lands_expect {kind : TokenKind} (hkind : kind ≠ .finish) (h : Closed ts) :
    Lands ts (expect kind ts) := by
  have hunread := Unread.all h
  cases ts with
  | nil => exact absurd rfl hunread.ne_nil
  | cons t tail =>
    rw [expect]
    split
    · rename_i ht
      exact hunread.next rfl (ht ▸ hkind)
    · exact hunread.isAt rfl rfl

theorem ne_finish_of_isOperatorOf {level : List Char} (h : t.isOperatorOf level = true) :
    t.kind ≠ .finish := by
  rw [Token.isOperatorOf, Bool.and_eq_true, beq_iff_eq] at h
  simp [h.1]

theorem lands_reference {s : String} {position : Int}
    (h : Closed (⟨.reference, s, position⟩ :: tail)) :
    Lands _ (primary (⟨.reference, s, position⟩ :: tail)) := by
  have hunread := (Unread.all h).next rfl (by simp)
  rw [primary.eq_def]
  cases tail with
  | nil => exact absurd rfl hunread.ne_nil
  | cons u us =>
    simp only
    split
    · rename_i hcolon
      have hafter := hunread.next rfl (by simp [hcolon])
      cases us with
      | nil => exact absurd rfl hafter.ne_nil
      | cons v vs =>
        simp only
        split
        · rename_i hreference
          exact hafter.next rfl (by simp [hreference])
        · exact hafter.isAt rfl rfl
    · exact hunread

theorem lands_name {n : String} {position : Int}
    (harguments : ∀ us : List Token, us.length < tail.length → Closed us →
      Lands us (arguments us))
    (h : Closed (⟨.name, n, position⟩ :: tail)) :
    Lands _ (primary (⟨.name, n, position⟩ :: tail)) := by
  have hall := Unread.all h
  have hunread := hall.next rfl (by simp)
  rw [primary.eq_def]
  cases tail with
  | nil => exact absurd rfl hunread.ne_nil
  | cons u us =>
    simp only
    split
    · rename_i hparen
      have hafter := hunread.next rfl (by simp [hparen])
      cases us with
      | nil => exact absurd rfl hafter.ne_nil
      | cons v vs =>
        simp only
        split
        · rename_i hclosing
          exact hafter.next rfl (by simp [hclosing])
        · have hlist := harguments _ (Nat.lt_succ_self _) hafter.closed
          split
          · rename_i e he
            exact hlist.isAt he hafter
          · rename_i args hargs
            exact hlist.unread hargs hafter
    · exact hall.isAt rfl rfl

mutual
theorem lands_expression (ts : List Token) (h : Closed ts) : Lands ts (expression ts) := by
  have hterm := lands_term ts h
  rw [expression]
  split
  · rename_i e he
    exact hterm.isAt he (.all h)
  · rename_i left hleft
    have := left.shorter
    exact lands_sums left (hterm.unread hleft (.all h))
termination_by 6 * ts.length + 4
decreasing_by all_goals omega

theorem lands_sums {ts : List Token} (left : Reading Formula ts) (h : Unread ts left.rest) :
    Lands ts (sums left) := by
  rw [sums.eq_def]
  split
  · exact h
  · rename_i t tail hrest
    have htail : tail.length < left.rest.length := by simp [hrest]
    split
    · rename_i ht
      have hunread := h.next hrest (ne_finish_of_isOperatorOf ht)
      have hterm := lands_term tail hunread.closed
      split
      · rename_i e he
        exact hterm.isAt he hunread
      · rename_i right hright
        have hshorter := Nat.lt_trans right.shorter htail
        exact lands_sums _ (hterm.unread hright hunread)
    · exact h
termination_by 6 * left.rest.length + 5
decreasing_by all_goals omega

theorem lands_term (ts : List Token) (h : Closed ts) : Lands ts (term ts) := by
  have hfactor := lands_factor ts h
  rw [term]
  split
  · rename_i e he
    exact hfactor.isAt he (.all h)
  · rename_i left hleft
    have := left.shorter
    exact lands_products left (hfactor.unread hleft (.all h))
termination_by 6 * ts.length + 3
decreasing_by all_goals omega

theorem lands_products {ts : List Token} (left : Reading Formula ts) (h : Unread ts left.rest) :
    Lands ts (products left) := by
  rw [products.eq_def]
  split
  · exact h
  · rename_i t tail hrest
    have htail : tail.length < left.rest.length := by simp [hrest]
    split
    · rename_i ht
      have hunread := h.next hrest (ne_finish_of_isOperatorOf ht)
      have hfactor := lands_factor tail hunread.closed
      split
      · rename_i e he
        exact hfactor.isAt he hunread
      · rename_i right hright
        have hshorter := Nat.lt_trans right.shorter htail
        exact lands_products _ (hfactor.unread hright hunread)
    · exact h
termination_by 6 * left.rest.length + 4
decreasing_by all_goals omega

theorem lands_factor (ts : List Token) (h : Closed ts) : Lands ts (factor ts) := by
  have hprimary := lands_primary ts h
  rw [factor]
  split
  · rename_i e he
    exact hprimary.isAt he (.all h)
  · rename_i left hleft
    have hafter := hprimary.unread hleft (.all h)
    split
    · exact hafter
    · rename_i t tail hrest
      have htail : tail.length < ts.length := Nat.lt_trans (by simp [hrest]) left.shorter
      split
      · rename_i ht
        have hunread := hafter.next hrest (ne_finish_of_isOperatorOf ht)
        have hfactor := lands_factor tail hunread.closed
        split
        · rename_i e he
          exact hfactor.isAt he hunread
        · rename_i right hright
          exact hfactor.unread hright hunread
      · exact hafter
termination_by 6 * ts.length + 2
decreasing_by all_goals omega

theorem lands_primary : ∀ ts : List Token, Closed ts → Lands ts (primary ts)
  | [], h => absurd rfl (Unread.all h).ne_nil
  | ⟨kind, s, position⟩ :: tail, h => by
    have hall := Unread.all h
    cases kind with
    | number =>
      obtain ⟨v, hv⟩ : ∃ v, Number.float? s = some v := by
        cases h with
        | cons ht _ => exact ht.number rfl
      rw [primary.eq_def]
      simp only [hv]
      exact hall.next rfl (by simp)
    | text =>
      rw [primary.eq_def]
      exact hall.next rfl (by simp)
    | leftParen =>
      have hunread := hall.next rfl (by simp)
      have hexpression := lands_expression tail hunread.closed
      rw [primary.eq_def]
      simp only
      split
      · rename_i e he
        exact hexpression.isAt he hunread
      · rename_i inner hinner
        have hafter := hexpression.unread hinner hunread
        have hclose : Lands inner.rest (expect .rightParen inner.rest) :=
          lands_expect (by decide) hafter.closed
        split
        · rename_i e he
          exact hclose.isAt he hafter
        · rename_i close hclosing
          exact hclose.unread hclosing hafter
    | reference => exact lands_reference h
    | name => exact lands_name (fun us _ hus => lands_arguments us hus) h
    | _ =>
      rw [primary.eq_def]
      exact hall.isAt rfl rfl
termination_by ts => 6 * ts.length + 1
decreasing_by all_goals simp only [List.length_cons]; omega

theorem lands_arguments (ts : List Token) (h : Closed ts) : Lands ts (arguments ts) := by
  have hfirst := lands_expression ts h
  rw [arguments]
  split
  · rename_i e he
    exact hfirst.isAt he (.all h)
  · rename_i first hresult
    have hunread := hfirst.unread hresult (.all h)
    split
    · rename_i hnil
      exact absurd hnil hunread.ne_nil
    · rename_i t tail hrest
      have htail : tail.length < ts.length := Nat.lt_trans (by simp [hrest]) first.shorter
      split
      · rename_i hcomma
        have hafter := hunread.next hrest (by simp [hcomma])
        have hothers := lands_arguments tail hafter.closed
        split
        · rename_i e he
          exact hothers.isAt he hafter
        · rename_i others hresult
          exact hothers.unread hresult hafter
      · split
        · rename_i hparen
          exact hunread.next hrest (by simp [hparen])
        · exact hunread.isAt hrest rfl
termination_by 6 * ts.length + 5
decreasing_by all_goals omega
end

theorem kind_getLast?_of_closed (h : Closed ts) : ts.getLast?.map Token.kind = some .finish := by
  induction h with
  | finish => rfl
  | cons ht hts ih =>
    cases hts with
    | finish => rfl
    | cons => rwa [List.getLast?_cons_cons]

theorem isAt_of_ofTokens (h : Closed ts) (herror : ofTokens ts = .error e) : IsAt ts e := by
  have hlands := lands_expression ts h
  rw [ofTokens, if_pos (kind_getLast?_of_closed h)] at herror
  split at herror
  · rename_i e' he
    cases herror
    exact hlands.isAt he (.all h)
  · rename_i r hr
    have hunread := hlands.unread hr (.all h)
    split at herror
    · rename_i hnil
      exact absurd hnil hunread.ne_nil
    · rename_i t tail hrest
      split at herror
      · cases herror
      · cases herror
        exact hunread.isAt hrest rfl

/-- The error of a text is one that texts have, and stands in its trimmed body or at its end. -/
theorem located_parse {s : String} (h : parse s = .error e) :
    e.fault.isOfText = true ∧ 0 ≤ e.position ∧ e.position ≤ (Text.trim (body s)).length := by
  have hlength : (Text.trim (body s)).length = (Text.trimChars (body s).toList).length := by
    rw [← String.length_toList, Text.toList_trim]
  have hscan := Token.ensures_scan 0 (Text.trimChars (body s).toList)
  have hlaid := Token.laidOut_scan 0 (Text.trimChars (body s).toList)
  rw [parse, tokenize] at h
  split at h
  · rename_i e' he
    cases h
    obtain ⟨hstart, hstop⟩ := hlaid.of_error he
    exact ⟨hscan.of_error he, by omega⟩
  · rename_i ts hts
    obtain ⟨hfault, t, ht, hposition⟩ := isAt_of_ofTokens (hscan.of_ok hts) h
    have hwithin := (hlaid.of_ok hts).within t ht
    exact ⟨hfault, by omega⟩

end Formula

end Gridcalc
