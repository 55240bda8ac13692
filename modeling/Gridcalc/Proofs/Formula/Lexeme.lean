import Gridcalc.Formula.Token
import Gridcalc.Number.Layout
import Gridcalc.Proofs.Grid.Spelling
import Gridcalc.Proofs.Number.Numeral
import Gridcalc.Proofs.Text.Blank

/-! # Reading lexemes

Which words the tokens of a text are. A lexeme that is written out is read back if what follows
cannot be taken for more of it: an operator, a mark of punctuation or a blank. In turn, every
token of a text has the form of its kind.
-/

namespace Gridcalc

open Text (Stops isAsciiDigit isDigit stops_cons takeWhile_run)
open Number (Decimal Layout Numeral)

structure Word where
  kind : TokenKind
  text : String
deriving DecidableEq

namespace Token

def word (t : Token) : Word := ⟨t.kind, t.text⟩

theorem exists_token {ts : List Token} {ws : List Word} {k : TokenKind} {s : String}
    (h : ts.map word = ⟨k, s⟩ :: ws) :
    ∃ position tail, ts = ⟨k, s, position⟩ :: tail ∧ tail.map word = ws := by
  obtain ⟨⟨k, s, position⟩, tail, rfl, hword, htail⟩ := List.map_eq_cons_iff.mp h
  cases hword
  exact ⟨position, tail, rfl, htail⟩

/-- The text is read as these words, wherever it stands. -/
def Scans (cs : List Char) (ws : List Word) : Prop :=
  ∀ position, ∃ ts, scan position cs = .ok ts ∧ ts.map word = ws

def boundaries : List Char := ['+', '-', '*', '/', '^', '(', ')', ',', ':', ' ']

/-- The text goes on, if at all, with a character that belongs to no name, reference or number. -/
def Bounded (cs : List Char) : Prop := ∀ c ∈ cs.head?, c ∈ boundaries

section Bounded

variable {cs rest : List Char} {c : Char}

theorem bounded_nil : Bounded [] := by
  intro c hc
  cases hc

theorem bounded_cons (h : c ∈ boundaries) : Bounded (c :: cs) := by
  intro d hd
  cases hd
  exact h

theorem Bounded.stops {p : Char → Bool} (hp : ∀ c ∈ boundaries, p c = false) (h : Bounded cs) :
    Stops p cs :=
  fun c hc => hp c (h c hc)

theorem Bounded.stops_isDigit (h : Bounded cs) : Stops isDigit cs := h.stops (by decide)

theorem Bounded.stops_isNameChar (h : Bounded cs) : Stops isNameChar cs := h.stops (by decide)

end Bounded

section Scans

variable {cs rest tail : List Char} {ws : List Word} {c : Char} {kind : TokenKind}

theorem scans_nil : Scans [] [⟨.finish, ""⟩] := by
  intro position
  refine ⟨_, by rw [scan], rfl⟩

theorem Scans.blank (h : Scans rest ws) : Scans (' ' :: rest) ws := by
  intro position
  rw [scan, if_pos (by decide)]
  exact h (position + 1)

theorem Scans.cons {text : List Char} {more : Nat} (h : Scans (cs.drop more) ws)
    (hblank : Text.isBlank c = false) (hlexeme : lexeme c cs = .ok ⟨kind, text, more⟩) :
    Scans (c :: cs) (⟨kind, String.ofList text⟩ :: ws) := by
  intro position
  obtain ⟨ts, hscan, hwords⟩ := h (position + 1 + more)
  refine ⟨⟨kind, String.ofList text, position⟩ :: ts, ?_, ?_⟩
  · rw [scan, if_neg (by simp [hblank]), hlexeme]
    simp only [hscan]
  · rw [List.map_cons, hwords]
    rfl

theorem Scans.append (h : Scans rest ws) (hblank : Text.isBlank c = false)
    (hlexeme : lexeme c (tail ++ rest) = .ok ⟨kind, c :: tail, tail.length⟩) :
    Scans (c :: (tail ++ rest)) (⟨kind, String.ofList (c :: tail)⟩ :: ws) := by
  refine Scans.cons ?_ hblank hlexeme
  rw [List.drop_left]
  exact h

end Scans

section Kinds

variable {cs rest tail : List Char} {ws : List Word} {c : Char} {kind : TokenKind}

/-- The characters that stand for themselves. -/
def marks : List Char := ['(', ')', ',', ':', '+', '-', '*', '/', '^']

theorem mem_marks (h : punctuation? c = some kind) : c ∈ marks := by
  unfold punctuation? at h
  split at h
  case h_10 => cases h
  all_goals decide

theorem Scans.mark (h : Scans rest ws) (hkind : punctuation? c = some kind)
    (hnumber : startsNumber c rest = false) :
    Scans (c :: rest) (⟨kind, String.ofList [c]⟩ :: ws) := by
  have hall : ∀ c ∈ marks, Text.isBlank c = false ∧ c ≠ '"' := by decide
  obtain ⟨hblank, hquote⟩ := hall c (mem_marks hkind)
  have hlexeme : lexeme c ([] ++ rest) = .ok ⟨kind, [c], 0⟩ := by
    rw [List.nil_append, lexeme, if_neg (by simp [hnumber]), if_neg hquote, hkind]
  exact Scans.append h hblank hlexeme

/-- Only a minus sign can be the start of something longer. -/
theorem startsNumber_of_mem_marks (h : c ∈ marks) (hminus : c ≠ '-') :
    startsNumber c rest = false := by
  have hall : ∀ c ∈ marks, isAsciiDigit c = false := by decide
  simp [startsNumber, hall c h, hminus]

theorem startsNumber_minus (h : Stops isAsciiDigit rest) : startsNumber '-' rest = false := by
  cases rest with
  | nil => rfl
  | cons d rest =>
    have hd : isAsciiDigit d = false := h d rfl
    simp only [startsNumber, List.head?_cons, Option.map_some, Option.getD_some, hd]
    decide

theorem Scans.text {inner : List Char} (h : Scans rest ws) (hinner : '"' ∉ inner) :
    Scans ('"' :: (inner ++ '"' :: rest)) (⟨.text, String.ofList inner⟩ :: ws) := by
  have hrun : (inner ++ '"' :: rest).takeWhile (· != '"') = inner := by
    refine takeWhile_run (fun c hc => ?_) (stops_cons rfl)
    rw [bne_iff_ne]
    rintro rfl
    exact hinner hc
  have hlexeme : lexeme '"' (inner ++ '"' :: rest) = .ok ⟨.text, inner, inner.length + 1⟩ := by
    rw [lexeme, if_neg (by simp [startsNumber, isAsciiDigit]), if_pos rfl]
    simp [hrun]
  refine Scans.cons ?_ (by decide) hlexeme
  rw [List.drop_append, List.drop_eq_nil_of_le (Nat.le_succ inner.length)]
  simpa using h

theorem numberChars_digits (h : ∀ c ∈ cs, isAsciiDigit c = true) (seenPoint : Bool) :
    numberChars seenPoint (cs ++ rest) = cs ++ numberChars seenPoint rest := by
  induction cs with
  | nil => rfl
  | cons c cs ih =>
    rw [List.cons_append, numberChars, if_pos (h c List.mem_cons_self),
      ih fun d hd => h d (List.mem_cons_of_mem c hd), List.cons_append]

theorem numberChars_bounded (h : Bounded rest) (seenPoint : Bool) :
    numberChars seenPoint rest = [] := by
  have hall : ∀ c ∈ boundaries, isAsciiDigit c = false ∧ c ≠ '.' := by decide
  cases rest with
  | nil => rfl
  | cons c rest =>
    obtain ⟨hdigit, hpoint⟩ := hall c (h c rfl)
    rw [numberChars, if_neg (by simp [hdigit]), if_neg fun hc => hpoint hc.1]

theorem numberChars_numeral {d : Decimal} (hcs : Numeral cs d) (hrest : Bounded rest) :
    numberChars false (cs ++ rest) = cs := by
  cases hcs with
  | whole hne h => rw [numberChars_digits h, numberChars_bounded hrest, List.append_nil]
  | fraction hne h hf =>
    rw [List.append_assoc, numberChars_digits h, List.cons_append, numberChars,
      if_neg (by decide), if_pos ⟨rfl, rfl⟩, numberChars_digits hf, numberChars_bounded hrest,
      List.append_nil]

theorem Scans.number {d : Decimal} (h : Scans rest ws) (hcs : Numeral cs d) (negative : Bool)
    (hrest : Bounded rest) :
    Scans (Layout.signed negative cs ++ rest)
      (⟨.number, String.ofList (Layout.signed negative cs)⟩ :: ws) := by
  have hdigit : ∀ c ∈ Text.asciiDigits, Text.isBlank c = false := by decide
  obtain ⟨c, tail, rfl, hc⟩ := hcs.exists_head
  have hchars := numberChars_numeral hcs hrest
  cases negative with
  | true =>
    refine Scans.append h (by decide) ?_
    have hstart : startsNumber '-' (c :: tail ++ rest) = true := by simp [startsNumber, hc]
    rw [lexeme, if_pos hstart]
    simp only [hchars]
  | false =>
    refine Scans.append h (hdigit c (Text.mem_asciiDigits hc)) ?_
    rw [List.cons_append, numberChars, if_pos hc] at hchars
    rw [lexeme, if_pos (by simp [startsNumber, hc])]
    simp only [(List.cons.inj hchars).2]

/-- A reference or a name begins so. -/
def startsWord (c : Char) : Bool := c == '$' || isLetter c

def letters : List Char := Column.allLetters.filter isLetter

theorem mem_letters (h : isLetter c = true) : c ∈ letters := by
  have hcolumn : Address.isColumnLetter c = true := by
    rw [isLetter] at h
    simp [Address.isColumnLetter, h]
  exact List.mem_filter.mpr ⟨Column.mem_allLetters hcolumn, h⟩

def wordStarts : List Char := '$' :: letters

theorem mem_wordStarts (h : startsWord c = true) : c ∈ wordStarts := by
  rw [startsWord, Bool.or_eq_true, beq_iff_eq] at h
  rcases h with rfl | h
  · exact List.mem_cons_self
  · exact List.mem_cons_of_mem _ (mem_letters h)

def nameChars : List Char := letters ++ Text.asciiDigits ++ ['_']

theorem mem_nameChars (h : isNameChar c = true) : c ∈ nameChars := by
  rw [isNameChar, Bool.or_eq_true, Bool.or_eq_true, beq_iff_eq] at h
  rcases h with (h | h) | rfl
  · exact List.mem_append_left _ (List.mem_append_left _ (mem_letters h))
  · exact List.mem_append_left _ (List.mem_append_right _ (Text.mem_asciiDigits h))
  · decide

theorem isBlank_of_startsWord (h : startsWord c = true) : Text.isBlank c = false := by
  have hall : ∀ c ∈ wordStarts, Text.isBlank c = false := by decide
  exact hall c (mem_wordStarts h)

theorem lexeme_of_startsWord (h : startsWord c = true) :
    lexeme c cs =
      match referenceChars? (c :: cs) with
      | some chars => .ok ⟨.reference, chars, chars.length - 1⟩
      | none =>
        if c = '$' then .error (.unexpectedCharacter c)
        else .ok ⟨.name, c :: cs.takeWhile isNameChar, (cs.takeWhile isNameChar).length⟩ := by
  have hall : ∀ c ∈ wordStarts,
      isAsciiDigit c = false ∧ (c == '-') = false ∧ c ≠ '"' ∧ punctuation? c = none := by decide
  obtain ⟨hdigit, hminus, hquote, hmark⟩ := hall c (mem_wordStarts h)
  have hstart : c = '$' ∨ isLetter c = true := by simpa [startsWord] using h
  rw [lexeme, if_neg (by simp [startsNumber, hdigit, hminus]), if_neg hquote, hmark]
  cases referenceChars? (c :: cs) with
  | some chars => exact if_pos hstart
  | none => exact if_pos hstart

/-- The text is one reference of a formula. -/
def IsReference (text : String) : Prop :=
  Reference.Spelled text ∧ ∃ c ∈ text.toList.head?, startsWord c = true

/-- The text is one name of a formula. -/
structure IsName (text : String) : Prop where
  head : ∃ c ∈ text.toList.head?, isLetter c = true
  chars : ∀ c ∈ text.toList, isNameChar c = true
  free : referenceChars? text.toList = none

theorem isReference_toText {r : Reference} (hrow : 0 ≤ r.row) (hcolumn : 0 ≤ r.column) :
    IsReference r.toText := by
  have hall : ∀ c ∈ Column.capitals, startsWord c = true := by decide
  obtain ⟨s, hs, -, hcapitals⟩ := Reference.exists_spelling hrow hcolumn
  refine ⟨⟨s, hs⟩, ?_⟩
  rw [hs, Reference.Spelling.chars]
  cases s.pinnedColumn with
  | true => exact ⟨'$', rfl, rfl⟩
  | false =>
    obtain ⟨c, tail, hletters⟩ := List.exists_cons_of_ne_nil s.letters_ne
    refine ⟨c, by simp [hletters, Reference.marker], hall c (hcapitals c ?_)⟩
    rw [hletters]
    exact List.mem_cons_self

theorem Scans.reference {text : String} (h : Scans rest ws) (htext : IsReference text)
    (hrest : Bounded rest) : Scans (text.toList ++ rest) (⟨.reference, text⟩ :: ws) := by
  obtain ⟨⟨s, hs⟩, c, hc, hstart⟩ := htext
  obtain ⟨tail, htail⟩ := List.head?_eq_some_iff.mp hc
  have hlexeme : lexeme c (tail ++ rest) = .ok ⟨.reference, c :: tail, tail.length⟩ := by
    rw [lexeme_of_startsWord hstart, ← List.cons_append, ← htail, hs,
      s.referenceChars?_chars rest hrest.stops_isDigit, ← hs, htail]
    rfl
  have hscan := Scans.append h (isBlank_of_startsWord hstart) hlexeme
  rwa [← List.cons_append, ← htail, String.ofList_toList] at hscan

theorem IsName.referenceChars?_append {text : String} (h : IsName text) (hrest : Bounded rest) :
    referenceChars? (text.toList ++ rest) = none := by
  by_contra hsome
  obtain ⟨taken, htaken⟩ := Option.ne_none_iff_exists'.mp hsome
  obtain ⟨s, -, after, hafter, -⟩ := Reference.Spelling.exists_of_referenceChars? htaken
  have hfree := h.free
  rcases List.append_eq_append_iff.mp hafter with ⟨more, hmore, hrest'⟩ | ⟨more, hmore, -⟩
  · cases more with
    | nil =>
      rw [List.append_nil] at hmore
      rw [← hmore, ← List.append_nil s.chars] at hfree
      exact s.referenceChars?_ne_none [] hfree
    | cons d more =>
      -- The spelling would take in the boundary.
      have hspelled : d ∈ s.chars := by simp [hmore]
      have hd := hrest d (by rw [hrest']; rfl)
      have hall : ∀ d ∈ boundaries,
          d ≠ '$' ∧ Address.isColumnLetter d = false ∧ isDigit d = false := by decide
      obtain ⟨hdollar, hletter, hdigit⟩ := hall d hd
      rcases s.mem_chars hspelled with rfl | hd | hd
      · exact hdollar rfl
      · rw [hletter] at hd
        cases hd
      · rw [hdigit] at hd
        cases hd
  · rw [hmore] at hfree
    exact s.referenceChars?_ne_none more hfree

theorem Scans.name {text : String} (h : Scans rest ws) (htext : IsName text)
    (hrest : Bounded rest) : Scans (text.toList ++ rest) (⟨.name, text⟩ :: ws) := by
  have hfree := htext.referenceChars?_append hrest
  obtain ⟨⟨c, hc, hletter⟩, hchars, -⟩ := htext
  obtain ⟨tail, htail⟩ := List.head?_eq_some_iff.mp hc
  have hstart : startsWord c = true := by simp [startsWord, hletter]
  have hlexeme : lexeme c (tail ++ rest) = .ok ⟨.name, c :: tail, tail.length⟩ := by
    rw [htail] at hfree hchars
    have hdollar : c ≠ '$' := by
      rintro rfl
      exact absurd hletter (by decide)
    have hrun : (tail ++ rest).takeWhile isNameChar = tail :=
      takeWhile_run (fun d hd => hchars d (List.mem_cons_of_mem c hd)) hrest.stops_isNameChar
    rw [lexeme_of_startsWord hstart, ← List.cons_append, hfree]
    simp [hdollar, hrun]
  have hscan := Scans.append h (isBlank_of_startsWord hstart) hlexeme
  rwa [← List.cons_append, ← htail, String.ofList_toList] at hscan

end Kinds

/-- The text of a word has the form of its kind; a number only has to be one for the parser. No
lexeme is of the kind that closes the list. -/
def WellFormed (w : Word) : Prop :=
  match w.kind with
  | .text => '"' ∉ w.text.toList
  | .operator => w.text ∈ ["+", "-", "*", "/", "^"]
  | .reference => IsReference w.text
  | .name => IsName w.text
  | .finish => False
  | _ => True

section WellFormed

variable {c : Char} {cs chars : List Char} {l : Lexeme}

theorem spelled_of_referenceChars? (h : referenceChars? (c :: cs) = some chars) :
    Reference.Spelled (String.ofList chars) ∧ chars.head? = some c := by
  obtain ⟨s, rfl, rest, hrest, -⟩ := Reference.Spelling.exists_of_referenceChars? h
  refine ⟨⟨s, String.toList_ofList⟩, ?_⟩
  obtain ⟨d, tail, htail⟩ := List.exists_cons_of_ne_nil s.chars_ne
  rw [htail, List.cons_append] at hrest
  rw [htail, (List.cons.inj hrest).1]
  rfl

theorem isNameChar_of_isLetter (h : isLetter c = true) : isNameChar c = true := by
  simp [isNameChar, h]

theorem isName_of_letter (hletter : isLetter c = true) (h : referenceChars? (c :: cs) = none) :
    IsName (String.ofList (c :: cs.takeWhile isNameChar)) := by
  refine ⟨⟨c, by simp, hletter⟩, ?_, ?_⟩
  · intro d hd
    rw [String.toList_ofList, List.mem_cons] at hd
    rcases hd with rfl | hd
    · exact isNameChar_of_isLetter hletter
    · exact List.all_eq_true.mp List.all_takeWhile d hd
  · rw [String.toList_ofList]
    by_contra hsome
    obtain ⟨taken, htaken⟩ := Option.ne_none_iff_exists'.mp hsome
    obtain ⟨s, -, rest, hrest, -⟩ := Reference.Spelling.exists_of_referenceChars? htaken
    have hwhole : c :: cs = s.chars ++ (rest ++ cs.dropWhile isNameChar) := by
      rw [← List.append_assoc, ← hrest, List.cons_append, List.takeWhile_append_dropWhile]
    rw [hwhole] at h
    exact s.referenceChars?_ne_none _ h

theorem wellFormed_of_punctuation? {kind : TokenKind} (h : punctuation? c = some kind) :
    WellFormed ⟨kind, String.ofList [c]⟩ := by
  unfold punctuation? at h
  split at h
  case h_10 => cases h
  all_goals
    cases h
    simp [WellFormed]

theorem wellFormed_of_lexeme (h : lexeme c cs = .ok l) :
    WellFormed ⟨l.kind, String.ofList l.text⟩ := by
  rw [lexeme] at h
  split at h
  · cases h
    trivial
  · split at h
    · simp only at h
      split at h
      · cases h
        intro hquote
        rw [String.toList_ofList] at hquote
        simpa using List.all_eq_true.mp List.all_takeWhile _ hquote
      · cases h
    · split at h
      · rename_i hkind
        cases h
        exact wellFormed_of_punctuation? hkind
      · split at h
        · rename_i hstart
          split at h
          · rename_i hreference
            cases h
            obtain ⟨hspelled, hhead⟩ := spelled_of_referenceChars? hreference
            refine ⟨hspelled, c, ?_, ?_⟩
            · rw [String.toList_ofList, hhead]
              rfl
            · simpa [startsWord] using hstart
          · rename_i hname
            split at h
            · cases h
            · rename_i hdollar
              cases h
              exact isName_of_letter (hstart.resolve_left hdollar) hname
        · cases h

/-- Every token of a text but the last has the form of its kind. -/
theorem exists_of_scan (position : Nat) (cs : List Char) : ∀ {ts}, scan position cs = .ok ts →
    ∃ lexemes stop, ts = lexemes ++ [⟨.finish, "", stop⟩] ∧ ∀ t ∈ lexemes, WellFormed t.word := by
  induction position, cs using scan.induct with
  | case1 position =>
    intro ts h
    rw [scan] at h
    cases h
    exact ⟨[], position, rfl, List.forall_mem_nil _⟩
  | case2 position c cs hblank ih =>
    intro ts h
    rw [scan, if_pos hblank] at h
    exact ih h
  | case3 position c cs hblank fault hlexeme =>
    intro ts h
    rw [scan, if_neg hblank, hlexeme] at h
    cases h
  | case4 position c cs hblank l hlexeme e hscan ih =>
    intro ts h
    rw [scan, if_neg hblank, hlexeme] at h
    simp only [hscan] at h
    cases h
  | case5 position c cs hblank l hlexeme tokens hscan ih =>
    intro ts h
    rw [scan, if_neg hblank, hlexeme] at h
    simp only [hscan] at h
    cases h
    obtain ⟨lexemes, stop, rfl, hformed⟩ := ih hscan
    exact ⟨_ :: lexemes, stop, rfl,
      List.forall_mem_cons.mpr ⟨wellFormed_of_lexeme hlexeme, hformed⟩⟩

end WellFormed

section Capitals

variable {cs : List Char} {n : String}

theorem upperChars_of_isNameChar (h : ∀ c ∈ cs, isNameChar c = true) :
    Text.upperChars cs = cs.map Char.toUpper := by
  have hall : ∀ c ∈ nameChars, Text.upperChar c = [c.toUpper] := by decide
  rw [Text.upperChars, ← List.flatMap_pure_eq_map]
  exact List.flatMap_congr fun c hc => hall c (mem_nameChars (h c hc))

theorem IsName.upper_upper (h : IsName n) : Text.upper (Text.upper n) = Text.upper n := by
  have hall : ∀ c ∈ nameChars, isNameChar c.toUpper = true ∧ c.toUpper.toUpper = c.toUpper := by
    decide
  have hfirst := upperChars_of_isNameChar h.chars
  have hsecond : ∀ c ∈ n.toList.map Char.toUpper, isNameChar c = true := by
    intro c hc
    obtain ⟨d, hd, rfl⟩ := List.mem_map.mp hc
    exact (hall d (mem_nameChars (h.chars d hd))).1
  rw [Text.upper, Text.toList_upper, Text.upper, hfirst, upperChars_of_isNameChar hsecond,
    List.map_map]
  refine congrArg String.ofList (List.map_congr_left fun c hc => ?_)
  exact (hall c (mem_nameChars (h.chars c hc))).2

/-- Characters whose capitals begin with a reference begin with one themselves. -/
theorem exists_spelling_of_map_toUpper {rest : List Char} {s : Reference.Spelling}
    (h : ∀ c ∈ cs, isNameChar c = true) (hs : cs.map Char.toUpper = s.chars ++ rest) :
    ∃ (small : Reference.Spelling) (last : List Char), cs = small.chars ++ last := by
  have hall : ∀ c ∈ nameChars, c.toUpper ≠ '$' ∧
      Address.isColumnLetter c.toUpper = Address.isColumnLetter c ∧
      isDigit c.toUpper = isDigit c := by decide
  have hplain : ∀ c ∈ s.chars, c ≠ '$' := by
    intro c hc
    obtain ⟨d, hd, rfl⟩ := List.mem_map.mp (hs ▸ List.mem_append_left rest hc)
    exact (hall d (mem_nameChars (h d hd))).1
  rw [s.chars_of_unmarked hplain, List.append_assoc] at hs
  obtain ⟨front, back, rfl, hfront, hback⟩ := List.map_eq_append_iff.mp hs
  obtain ⟨middle, last, rfl, hmiddle, -⟩ := List.map_eq_append_iff.mp hback
  rw [List.forall_mem_append, List.forall_mem_append] at h
  let small : Reference.Spelling :=
    { pinnedColumn := false, letters := front, pinnedRow := false, digits := middle
      letters_ne := by
        rintro rfl
        exact s.letters_ne hfront.symm
      letters_spec := by
        intro c hc
        have hupper := s.letters_spec c.toUpper (hfront ▸ List.mem_map_of_mem hc)
        rwa [(hall c (mem_nameChars (h.1 c hc))).2.1] at hupper
      digits_ne := by
        rintro rfl
        exact s.digits_ne hmiddle.symm
      digits_spec := by
        intro c hc
        have hupper := s.digits_spec c.toUpper (hmiddle ▸ List.mem_map_of_mem hc)
        rwa [(hall c (mem_nameChars (h.2.1 c hc))).2.2] at hupper }
  exact ⟨small, last, by simp [small, Reference.Spelling.chars, Reference.marker]⟩

/-- A name in capitals is no reference either, for case does not make one. -/
theorem IsName.upper (h : IsName n) : IsName (Text.upper n) := by
  have hall : ∀ c ∈ nameChars, isNameChar c.toUpper = true ∧ isLetter c.toUpper = isLetter c := by
    decide
  have hchars : (Text.upper n).toList = n.toList.map Char.toUpper := by
    rw [Text.toList_upper, upperChars_of_isNameChar h.chars]
  refine ⟨?_, ?_, ?_⟩
  · obtain ⟨c, hc, hletter⟩ := h.head
    have hmem := mem_nameChars (h.chars c (List.mem_of_mem_head? hc))
    refine ⟨c.toUpper, ?_, (hall c hmem).2.trans hletter⟩
    rw [hchars, List.head?_map, Option.mem_def.mp hc]
    rfl
  · intro c hc
    rw [hchars] at hc
    obtain ⟨d, hd, rfl⟩ := List.mem_map.mp hc
    exact (hall d (mem_nameChars (h.chars d hd))).1
  · by_contra hsome
    obtain ⟨taken, htaken⟩ := Option.ne_none_iff_exists'.mp hsome
    obtain ⟨s, -, rest, hrest, -⟩ := Reference.Spelling.exists_of_referenceChars? htaken
    rw [hchars] at hrest
    obtain ⟨small, last, hsmall⟩ := exists_spelling_of_map_toUpper h.chars hrest
    have hfree := h.free
    rw [hsmall] at hfree
    exact small.referenceChars?_ne_none last hfree

end Capitals

section Whole

variable {cs : List Char} {ws : List Word} {kind : TokenKind} {text : String}

theorem Scans.exists_tokenize (h : Scans cs ws) (hhead : Stops Text.isBlank cs)
    (hlast : Stops Text.isBlank cs.reverse) :
    ∃ ts, tokenize (String.ofList cs) = .ok ts ∧ ts.map word = ws := by
  rw [tokenize, String.toList_ofList, Text.trimChars_eq_self hhead hlast]
  exact h 0

def IsToken (kind : TokenKind) (text : String) : Prop :=
  ∃ start stop, tokenize text = .ok [⟨kind, text, start⟩, ⟨.finish, "", stop⟩]

theorem IsToken.wellFormed (h : IsToken kind text) : WellFormed ⟨kind, text⟩ := by
  obtain ⟨start, stop, htokens⟩ := h
  obtain ⟨lexemes, stop', heq, hformed⟩ := exists_of_scan 0 _ htokens
  change [⟨kind, text, start⟩] ++ [⟨.finish, "", stop⟩] = lexemes ++ [⟨.finish, "", stop'⟩] at heq
  rw [← (List.append_inj' heq rfl).1] at hformed
  exact hformed _ List.mem_cons_self

theorem isToken_of_scans (h : Scans text.toList [⟨kind, text⟩, ⟨.finish, ""⟩])
    (hblank : ∀ c ∈ text.toList, Text.isBlank c = false) : IsToken kind text := by
  obtain ⟨ts, htokenize, hwords⟩ := h.exists_tokenize
    (fun c hc => hblank c (List.mem_of_mem_head? hc))
    (fun c hc => hblank c (List.mem_reverse.mp (List.mem_of_mem_head? hc)))
  rw [String.ofList_toList] at htokenize
  obtain ⟨start, tail, rfl, htail⟩ := exists_token hwords
  obtain ⟨stop, tail, rfl, hnil⟩ := exists_token htail
  rw [List.map_eq_nil_iff.mp hnil] at htokenize
  exact ⟨start, stop, htokenize⟩

theorem IsReference.isBlank_of_mem (h : IsReference text) {c : Char} (hc : c ∈ text.toList) :
    Text.isBlank c = false := by
  have hall : ∀ c ∈ Column.allLetters, Text.isBlank c = false := by decide
  obtain ⟨⟨s, hs⟩, -⟩ := h
  rw [hs] at hc
  rcases s.mem_chars hc with rfl | hletter | hdigit
  · decide
  · exact hall c (Column.mem_allLetters hletter)
  · exact Text.isBlank_of_isDigit hdigit

theorem IsName.isBlank_of_mem (h : IsName text) {c : Char} (hc : c ∈ text.toList) :
    Text.isBlank c = false := by
  have hall : ∀ c ∈ nameChars, Text.isBlank c = false := by decide
  exact hall c (mem_nameChars (h.chars c hc))

theorem isToken_reference_iff : IsToken .reference text ↔ IsReference text := by
  constructor
  · exact IsToken.wellFormed
  · intro h
    refine isToken_of_scans ?_ fun _ => h.isBlank_of_mem
    simpa using Scans.reference scans_nil h bounded_nil

theorem isToken_name_iff : IsToken .name text ↔ IsName text := by
  constructor
  · exact IsToken.wellFormed
  · intro h
    refine isToken_of_scans ?_ fun _ => h.isBlank_of_mem
    simpa using Scans.name scans_nil h bounded_nil

end Whole

end Token

end Gridcalc
