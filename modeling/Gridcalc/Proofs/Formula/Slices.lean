import Gridcalc.Proofs.Formula.Lexeme
import Gridcalc.Proofs.Outcome

/-! # The tokens of a text, in their places

Between blanks at its two ends a text is made up of its tokens and of blanks. Each token stands
where its position says, none reaches into the next, and what no token takes is blank.
-/

namespace Gridcalc

namespace Token

open Text (isBlank)

/-- How a lexeme is written: a text stands between quotes. -/
def quoted (kind : TokenKind) (text : List Char) : List Char :=
  if kind = .text then '"' :: (text ++ ['"']) else text

def written (t : Token) : List Char := quoted t.kind t.text.toList

def stop (t : Token) : Int := t.position + t.written.length

section Lexemes

variable {c : Char} {cs tail rest : List Char} {kind : TokenKind} {l : Lexeme}

/-- The lexeme takes from the text what it is written with, its first character at least. -/
structure Takes (c : Char) (cs : List Char) (l : Lexeme) : Prop where
  split : quoted l.kind l.text ++ cs.drop l.more = c :: cs
  length : (quoted l.kind l.text).length = l.more + 1

theorem takes_tail (hkind : kind ≠ .text) (h : tail ++ rest = cs) :
    Takes c cs ⟨kind, c :: tail, tail.length⟩ := by
  subst h
  constructor
  · rw [quoted, if_neg hkind, List.drop_left, List.cons_append]
  · rw [quoted, if_neg hkind, List.length_cons]

theorem takes_quoted (inner rest : List Char) :
    Takes '"' (inner ++ '"' :: rest) ⟨.text, inner, inner.length + 1⟩ := by
  constructor
  · simp [quoted]
  · simp [quoted]

theorem numberChars_append_drop (seenPoint : Bool) (cs : List Char) :
    numberChars seenPoint cs ++ cs.drop (numberChars seenPoint cs).length = cs := by
  induction cs generalizing seenPoint with
  | nil => rfl
  | cons c cs ih =>
    rw [numberChars]
    split
    · exact congrArg (c :: ·) (ih seenPoint)
    · split
      · exact congrArg (c :: ·) (ih true)
      · rfl

theorem exists_closing (h : (cs.takeWhile (· != '"')).length < cs.length) :
    ∃ rest, cs = cs.takeWhile (· != '"') ++ '"' :: rest := by
  have hsplit := List.takeWhile_append_dropWhile (p := (· != '"')) (l := cs)
  have hstop := Text.stops_dropWhile (· != '"') cs
  cases hdrop : cs.dropWhile (· != '"') with
  | nil =>
    rw [hdrop, List.append_nil] at hsplit
    rw [hsplit] at h
    omega
  | cons d rest =>
    rw [hdrop] at hsplit hstop
    have hd : (d != '"') = false := hstop d rfl
    rw [bne_eq_false_iff_eq] at hd
    subst hd
    exact ⟨rest, hsplit.symm⟩

theorem ne_text_of_punctuation? (h : punctuation? c = some kind) : kind ≠ .text := by
  unfold punctuation? at h
  split at h
  case h_10 => cases h
  all_goals
    cases h
    decide

theorem takes_lexeme (h : lexeme c cs = .ok l) : Takes c cs l := by
  rw [lexeme] at h
  split at h
  · cases h
    exact takes_tail (by simp) (numberChars_append_drop false cs)
  · split at h
    · rename_i hquote
      simp only at h
      split at h
      · rename_i hclosed
        cases h
        obtain ⟨rest, hrest⟩ := exists_closing hclosed
        subst hquote
        have htakes := takes_quoted (cs.takeWhile (· != '"')) rest
        rwa [← hrest] at htakes
      · cases h
    · split at h
      · rename_i hkind
        cases h
        exact takes_tail (ne_text_of_punctuation? hkind) (List.nil_append cs)
      · split at h
        · split at h
          · rename_i hreference
            cases h
            obtain ⟨s, rfl, rest, hrest, -⟩ :=
              Reference.Spelling.exists_of_referenceChars? hreference
            obtain ⟨d, tail, htail⟩ := List.exists_cons_of_ne_nil s.chars_ne
            rw [htail, List.cons_append, List.cons.injEq] at hrest
            rw [htail, ← hrest.1]
            exact takes_tail (by simp) hrest.2.symm
          · split at h
            · cases h
            · cases h
              exact takes_tail (by simp) List.takeWhile_append_dropWhile
        · cases h

end Lexemes

section Places

variable {start : Nat} {c : Char} {cs : List Char} {t : Token} {ts : List Token}

/-- From `start` on the text consists of these tokens and of blanks. -/
inductive Laid : Nat → List Char → List Token → Prop
  | done (start : Nat) : Laid start [] []
  | blank {start : Nat} {c : Char} {cs : List Char} {ts : List Token} (hc : isBlank c = true)
    (hrest : Laid (start + 1) cs ts) : Laid start (c :: cs) ts
  | token {start : Nat} {cs : List Char} {t : Token} {ts : List Token}
    (hposition : t.position = start) (hne : t.written ≠ [])
    (hrest : Laid (start + t.written.length) cs ts) : Laid start (t.written ++ cs) (t :: ts)

theorem Takes.le {l : Lexeme} (h : Takes c cs l) : l.more ≤ cs.length := by
  have hlength := congrArg List.length h.split
  rw [List.length_append, h.length, List.length_drop, List.length_cons] at hlength
  omega

/-- A lexeme is a token of the text, and the tokens after it stand behind what it takes. -/
theorem Laid.lexeme {l : Lexeme} (hlexeme : Token.lexeme c cs = .ok l)
    (hrest : Laid (start + 1 + l.more) (cs.drop l.more) ts) :
    Laid start (c :: cs) (⟨l.kind, String.ofList l.text, start⟩ :: ts) := by
  have htakes := takes_lexeme hlexeme
  let t : Token := ⟨l.kind, String.ofList l.text, start⟩
  have hwritten : t.written = quoted l.kind l.text := by rw [written, String.toList_ofList]
  rw [← htakes.split, ← hwritten]
  refine .token rfl ?_ ?_
  · rw [hwritten, ← List.length_pos_iff, htakes.length]
    exact Nat.succ_pos _
  · rwa [hwritten, htakes.length, Nat.add_comm l.more 1, ← Nat.add_assoc]

/-- The place is that of a character of the text that begins at `start`. -/
def Inside (start : Nat) (cs : List Char) (position : Int) : Prop :=
  (start : Int) ≤ position ∧ position < ↑(start + cs.length)

theorem Inside.of_drop {more : Nat} {position : Int} (hmore : more ≤ cs.length)
    (h : Inside (start + 1 + more) (cs.drop more) position) : Inside start (c :: cs) position := by
  obtain ⟨hstart, hstop⟩ := h
  rw [List.length_drop] at hstop
  rw [Inside, List.length_cons]
  omega

theorem inside_cons (start : Nat) (c : Char) (cs : List Char) : Inside start (c :: cs) start := by
  rw [Inside, List.length_cons]
  omega

/-- The tokens of the text that begins at `start`, and the closing one behind its last character. -/
def LaidOut (start : Nat) (cs : List Char) (ts : List Token) : Prop :=
  ∃ lexemes, ts = lexemes ++ [⟨.finish, "", ↑(start + cs.length)⟩] ∧ Laid start cs lexemes

/-- The tokens account for the text, or the error stands at one of its characters. -/
theorem laidOut_scan (start : Nat) (cs : List Char) :
    Ensures (LaidOut start cs) (fun e => Inside start cs e.position) (scan start cs) := by
  induction start, cs using scan.induct with
  | case1 start =>
    rw [scan]
    exact ⟨[], rfl, .done start⟩
  | case2 start c cs hblank ih =>
    rw [scan, if_pos hblank]
    cases hscan : scan (start + 1) cs with
    | error e => exact (ih.of_error hscan).of_drop (Nat.zero_le cs.length)
    | ok ts =>
      obtain ⟨lexemes, rfl, hlaid⟩ := ih.of_ok hscan
      refine ⟨lexemes, ?_, .blank hblank hlaid⟩
      rw [List.length_cons, Nat.add_assoc, Nat.add_comm 1]
  | case3 start c cs hblank fault hlexeme =>
    rw [scan, if_neg hblank, hlexeme]
    exact inside_cons start c cs
  | case4 start c cs hblank l hlexeme e hscan ih =>
    rw [scan, if_neg hblank, hlexeme]
    simp only [hscan]
    exact (ih.of_error hscan).of_drop (takes_lexeme hlexeme).le
  | case5 start c cs hblank l hlexeme tokens hscan ih =>
    obtain ⟨lexemes, rfl, hlaid⟩ := ih.of_ok hscan
    have hstop : start + 1 + l.more + (cs.drop l.more).length = start + (c :: cs).length := by
      have hle := (takes_lexeme hlexeme).le
      rw [List.length_cons, List.length_drop]
      omega
    rw [scan, if_neg hblank, hlexeme]
    simp only [hscan]
    rw [hstop]
    exact ⟨_ :: lexemes, rfl, hlaid.lexeme hlexeme⟩

theorem Laid.written_ne_nil (h : Laid start cs ts) : ∀ t ∈ ts, t.written ≠ [] := by
  induction h with
  | done => exact List.forall_mem_nil _
  | blank _ _ ih => exact ih
  | token _ hne _ ih => exact List.forall_mem_cons.mpr ⟨hne, ih⟩

theorem Laid.slice (h : Laid start cs ts) :
    ∀ t ∈ ts, ∃ i : Nat, t.position = start + i ∧ t.written <+: cs.drop i := by
  induction h with
  | done => exact List.forall_mem_nil _
  | blank _ _ ih =>
    intro t ht
    obtain ⟨i, hposition, hslice⟩ := ih t ht
    exact ⟨i + 1, by omega, hslice⟩
  | @token start cs t ts hposition _ _ ih =>
    refine List.forall_mem_cons.mpr ⟨⟨0, by omega, List.prefix_append _ cs⟩, fun u hu => ?_⟩
    obtain ⟨i, huposition, hslice⟩ := ih u hu
    refine ⟨t.written.length + i, by omega, ?_⟩
    rwa [List.drop_length_add_append]

theorem Laid.within (h : Laid start cs ts) : ∀ t ∈ ts, Inside start cs t.position := by
  intro t ht
  obtain ⟨i, hposition, hslice⟩ := h.slice t ht
  have hpos := List.length_pos_iff.mpr (h.written_ne_nil t ht)
  have hle := hslice.length_le
  rw [List.length_drop] at hle
  rw [Inside]
  omega

theorem LaidOut.within (h : LaidOut start cs ts) :
    ∀ t ∈ ts, start ≤ t.position ∧ t.position ≤ ↑(start + cs.length) := by
  obtain ⟨lexemes, rfl, hlaid⟩ := h
  rw [List.forall_mem_append, List.forall_mem_singleton]
  constructor
  · intro t ht
    obtain ⟨hstart, hstop⟩ := hlaid.within t ht
    exact ⟨hstart, Int.le_of_lt hstop⟩
  · exact ⟨Int.ofNat_le.mpr (Nat.le_add_right start _), Int.le_refl _⟩

theorem Laid.apart (h : Laid start cs ts) : ts.Pairwise fun t u => t.stop ≤ u.position := by
  induction h with
  | done => exact .nil
  | blank _ _ ih => exact ih
  | @token start cs t ts hposition _ hrest ih =>
    refine List.pairwise_cons.mpr ⟨fun u hu => ?_, ih⟩
    obtain ⟨i, huposition, -⟩ := hrest.slice u hu
    rw [stop]
    omega

theorem Laid.taken_or_blank (h : Laid start cs ts) : ∀ i (hi : i < cs.length),
    (∃ t ∈ ts, t.position ≤ ↑(start + i) ∧ ↑(start + i) < t.stop) ∨ isBlank cs[i] = true := by
  induction h with
  | done =>
    intro i hi
    cases hi
  | @blank start c cs ts hc _ ih =>
    intro i hi
    cases i with
    | zero => exact .inr hc
    | succ i =>
      rw [List.getElem_cons_succ, Nat.add_comm i 1, ← Nat.add_assoc]
      exact ih i (Nat.lt_of_succ_lt_succ hi)
  | @token start cs t ts hposition _ _ ih =>
    intro i hi
    by_cases hin : i < t.written.length
    · refine .inl ⟨t, List.mem_cons_self, by omega, ?_⟩
      rw [stop]
      omega
    · -- Behind the token, the place counts from its end.
      obtain ⟨j, rfl⟩ := Nat.exists_eq_add_of_le (Nat.le_of_not_lt hin)
      have hj : j < cs.length := by
        rw [List.length_append] at hi
        omega
      rw [List.getElem_append_right (Nat.le_add_right _ j)]
      simp only [Nat.add_sub_cancel_left]
      rw [← Nat.add_assoc]
      refine (ih j hj).imp_left ?_
      rintro ⟨u, hu, htaken⟩
      exact ⟨u, List.mem_cons_of_mem t hu, htaken⟩

end Places

/-- The tokens are slices of the text, one behind the other, and the rest of the text is blank. -/
structure SlicesOf (cs : List Char) (ts : List Token) : Prop where
  unfinished : ∀ t ∈ ts, t.kind ≠ .finish
  formed : ∀ t ∈ ts, WellFormed t.word
  slice : ∀ t ∈ ts, ∃ i : Nat, t.position = i ∧ (cs.drop i).take t.written.length = t.written
  increasing : ts.Pairwise fun t u => t.position < u.position
  apart : ts.Pairwise fun t u => t.stop ≤ u.position
  blank : ∀ i (hi : i < cs.length),
    (∀ t ∈ ts, ¬ (t.position ≤ i ∧ i < t.stop)) → isBlank cs[i] = true

theorem WellFormed.ne_finish {t : Token} (h : WellFormed t.word) : t.kind ≠ .finish := by
  intro hkind
  rw [WellFormed, word, hkind] at h
  exact h

theorem Laid.slicesOf {cs : List Char} {ts : List Token} (h : Laid 0 cs ts)
    (hformed : ∀ t ∈ ts, WellFormed t.word) : SlicesOf cs ts where
  unfinished t ht := (hformed t ht).ne_finish
  formed := hformed
  slice t ht := by
    obtain ⟨i, hposition, hslice⟩ := h.slice t ht
    exact ⟨i, by omega, (List.prefix_iff_eq_take.mp hslice).symm⟩
  increasing := by
    refine h.apart.imp_of_mem fun {t u} ht _ hstop => ?_
    have hpos := List.length_pos_iff.mpr (h.written_ne_nil t ht)
    rw [stop] at hstop
    omega
  apart := h.apart
  blank i hi huntaken := by
    refine (h.taken_or_blank i hi).resolve_left ?_
    rintro ⟨t, ht, htaken⟩
    rw [Nat.zero_add] at htaken
    exact huntaken t ht htaken

/-- Nothing of a text is lost but blanks: those at its ends are trimmed, and the tokens are slices
of what is left, with blanks between them. The closing token stands behind the last character, and
an error at one of the characters. -/
theorem tokenize_slices (s : String) :
    ∃ cs, Text.Trims s.toList cs ∧
      Ensures
        (fun ts => ∃ lexemes, ts = lexemes ++ [⟨.finish, "", cs.length⟩] ∧ SlicesOf cs lexemes)
        (fun e : SyntaxError => 0 ≤ e.position ∧ e.position < cs.length)
        (tokenize s) := by
  have hscan := laidOut_scan 0 (Text.trimChars s.toList)
  refine ⟨Text.trimChars s.toList, Text.trims_trimChars s.toList, ?_⟩
  rw [tokenize]
  cases htokens : scan 0 (Text.trimChars s.toList) with
  | error e =>
    obtain ⟨hstart, hstop⟩ := hscan.of_error htokens
    exact ⟨hstart, by omega⟩
  | ok ts =>
    obtain ⟨lexemes, rfl, hlaid⟩ := hscan.of_ok htokens
    obtain ⟨lexemes', stop, heq, hformed⟩ := exists_of_scan 0 _ htokens
    rw [← (List.append_inj' heq rfl).1] at hformed
    rw [Nat.zero_add]
    exact ⟨lexemes, rfl, hlaid.slicesOf hformed⟩

end Token

end Gridcalc
