import Gridcalc.Formula.Shift
import Gridcalc.Proofs.Formula.Rendered

/-! # Copied formulas

The tree of a text can be written, and so can the tree with its references moved. A copy is
therefore read back as the moved tree, with one exception: a literal too large for a double is
infinite, and no formula can say so.
-/

namespace Gridcalc

open Number (IsFinite shape)
open Token (IsToken IsReference IsName WellFormed isToken_reference_iff isToken_name_iff)

namespace Formula

section Writable

mutual
theorem Derives.writable : ∀ {rule : Rule} {ws : List Word} {f : Formula}, Derives rule ws f →
    (∀ w ∈ ws, WellFormed w) → f.Writable
  | _, _, _, .term h, hws => h.writable hws
  | _, _, _, .sum ho hl hr, hws => by
    rw [List.forall_mem_append, List.forall_mem_cons] at hws
    exact ⟨hws.2.1, hl.writable hws.1, hr.writable hws.2.2⟩
  | _, _, _, .factor h, hws => h.writable hws
  | _, _, _, .product ho hl hr, hws => by
    rw [List.forall_mem_append, List.forall_mem_cons] at hws
    exact ⟨hws.2.1, hl.writable hws.1, hr.writable hws.2.2⟩
  | _, _, _, .primary h, hws => h.writable hws
  | _, _, _, .power hl hr, hws => by
    rw [List.forall_mem_append, List.forall_mem_cons] at hws
    exact ⟨hws.2.1, hl.writable hws.1, hr.writable hws.2.2⟩
  | _, _, _, .number _, _ => trivial
  | _, _, _, .text _, hws => hws _ List.mem_cons_self
  | _, _, _, .parens _ _ h, hws => by
    rw [List.forall_mem_cons, List.forall_mem_append] at hws
    exact h.writable hws.2.1
  | _, _, _, .cell _, hws => isToken_reference_iff.mpr (hws _ List.mem_cons_self)
  | _, _, _, .range _ _ _, hws => by
    rw [List.forall_mem_cons, List.forall_mem_cons, List.forall_mem_cons] at hws
    exact ⟨isToken_reference_iff.mpr hws.1, isToken_reference_iff.mpr hws.2.2.1⟩
  | _, _, _, .emptyCall n _ _, hws => by
    have hn : IsName n := hws _ List.mem_cons_self
    exact ⟨isToken_name_iff.mpr hn.upper, hn.upper_upper, trivial⟩
  | _, _, _, .call n _ _ h, hws => by
    rw [List.forall_mem_cons, List.forall_mem_cons, List.forall_mem_append] at hws
    have hn : IsName n := hws.1
    exact ⟨isToken_name_iff.mpr hn.upper, hn.upper_upper, h.writable hws.2.2.1⟩

theorem DerivesAll.writable : ∀ {ws : List Word} {fs : List Formula}, DerivesAll ws fs →
    (∀ w ∈ ws, WellFormed w) → WritableAll fs
  | _, _, .single h, hws => ⟨h.writable hws, trivial⟩
  | _, _, .cons _ h hall, hws => by
    rw [List.forall_mem_append, List.forall_mem_cons] at hws
    exact ⟨h.writable hws.1, hall.writable hws.2.2⟩
end

theorem writable_of_parse {s : String} {f : Formula} (h : parse s = .ok f) : f.Writable := by
  obtain ⟨lexemes, stop, -, hformed, hderives⟩ := tokenize_of_parse h
  refine hderives.writable fun w hw => ?_
  obtain ⟨t, ht, rfl⟩ := List.mem_map.mp hw
  exact hformed t ht

end Writable

end Formula

/-- Moved by this distance, a part of the reference that is not pinned would lie outside. -/
def Reference.Leaves (r : Reference) (rows columns : Int) : Prop :=
  (r.absoluteRow = false ∧ r.row + rows < 0) ∨ (r.absoluteColumn = false ∧ r.column + columns < 0)

namespace Formula

mutual
def writtenReferences : Formula → List String
  | .cell r => [r]
  | .range a b => [a, b]
  | .binary _ l r => l.writtenReferences ++ r.writtenReferences
  | .unary _ f => f.writtenReferences
  | .call _ fs => writtenReferencesAll fs
  | _ => []

def writtenReferencesAll : List Formula → List String
  | [] => []
  | f :: fs => f.writtenReferences ++ writtenReferencesAll fs
end

section Shift

variable (rows columns : Int)

/-- Moved by this distance, the text would name a place outside the grid. -/
def TextLeaves (text : String) : Prop :=
  ∃ r, Reference.ofText? text = some r ∧ r.Leaves rows columns

def AnyLeaves (texts : List String) : Prop := ∃ text ∈ texts, TextLeaves rows columns text

def LeavesGrid (f : Formula) : Prop := AnyLeaves rows columns f.writtenReferences

variable {rows columns}

theorem leaves_iff {r : Reference} (hrow : 0 ≤ r.row) (hcolumn : 0 ≤ r.column) :
    r.Leaves rows columns ↔
      (r.shift rows columns).row < 0 ∨ (r.shift rows columns).column < 0 := by
  simp only [Reference.Leaves, Reference.shift]
  cases r.absoluteRow <;> cases r.absoluteColumn <;> simp <;> omega

theorem shiftReference_cases {text : String} (h : IsToken .reference text) :
    (TextLeaves rows columns text ∧ shiftReference text rows columns = .error text) ∨
      ¬ TextLeaves rows columns text ∧
        ∃ moved, shiftReference text rows columns = .ok moved ∧ IsToken .reference moved := by
  cases hread : Reference.ofText? text with
  | none =>
    right
    refine ⟨?_, text, ?_, h⟩
    · rintro ⟨r, hr, -⟩
      rw [hread] at hr
      cases hr
    · rw [shiftReference, Reference.shiftText?, hread]
  | some r =>
    obtain ⟨hrow, hcolumn⟩ := Reference.nonneg_of_ofText? hread
    have hleaves : TextLeaves rows columns text ↔ r.Leaves rows columns := by
      simp [TextLeaves, hread]
    rw [hleaves, leaves_iff hrow hcolumn, shiftReference, Reference.shiftText?, hread]
    by_cases hout : (r.shift rows columns).row < 0 ∨ (r.shift rows columns).column < 0
    · simp [hout]
    · right
      refine ⟨hout, (r.shift rows columns).toText, by simp [hout], ?_⟩
      exact isToken_reference_iff.mpr (Token.isReference_toText (by omega) (by omega))

theorem anyLeaves_append {ts us : List String} :
    AnyLeaves rows columns (ts ++ us) ↔ AnyLeaves rows columns ts ∨ AnyLeaves rows columns us := by
  simp [AnyLeaves, or_and_right, exists_or]

mutual
/-- Either a reference would leave the grid, or the moved tree can be written, too, and has the
same numbers. -/
theorem shift_cases : ∀ {f : Formula}, f.Writable →
    (f.LeavesGrid rows columns ∧ ∃ e, f.shift rows columns = .error e) ∨
      ¬ f.LeavesGrid rows columns ∧
        ∃ g, f.shift rows columns = .ok g ∧ g.Writable ∧ g.literals = f.literals
  | .number v, h => by
    right
    exact ⟨by simp [LeavesGrid, AnyLeaves, writtenReferences], .number v, rfl, h, rfl⟩
  | .text s, h => by
    right
    exact ⟨by simp [LeavesGrid, AnyLeaves, writtenReferences], .text s, rfl, h, rfl⟩
  | .cell t, h => by
    have hleaves : (Formula.cell t).LeavesGrid rows columns ↔ TextLeaves rows columns t := by
      simp [LeavesGrid, AnyLeaves, writtenReferences]
    rw [hleaves, shift]
    rcases shiftReference_cases h with ⟨hout, hshift⟩ | ⟨hin, moved, hshift, hmoved⟩
    · rw [hshift]
      exact .inl ⟨hout, t, rfl⟩
    · rw [hshift]
      exact .inr ⟨hin, .cell moved, rfl, hmoved, rfl⟩
  | .range a b, h => by
    have hleaves : (Formula.range a b).LeavesGrid rows columns ↔
        TextLeaves rows columns a ∨ TextLeaves rows columns b := by
      simp [LeavesGrid, AnyLeaves, writtenReferences]
    rw [hleaves, shift]
    rcases shiftReference_cases h.1 with ⟨hout, hshift⟩ | ⟨hin, moved, hshift, hmoved⟩
    · rw [hshift]
      exact .inl ⟨.inl hout, a, rfl⟩
    · rw [hshift]
      rcases shiftReference_cases h.2 with ⟨hout', hshift'⟩ | ⟨hin', moved', hshift', hmoved'⟩
      · exact .inl ⟨.inr hout', b, by simp only [hshift']⟩
      · simp only [hshift']
        exact .inr ⟨not_or.mpr ⟨hin, hin'⟩, .range moved moved', rfl, ⟨hmoved, hmoved'⟩, rfl⟩
  | .binary o l r, h => by
    have hleaves : (Formula.binary o l r).LeavesGrid rows columns ↔
        l.LeavesGrid rows columns ∨ r.LeavesGrid rows columns := by
      rw [LeavesGrid, writtenReferences, anyLeaves_append]
      rfl
    rw [hleaves, shift]
    rcases shift_cases h.2.1 with ⟨hout, e, he⟩ | ⟨hin, l', hl', hwritable, hliterals⟩
    · rw [he]
      exact .inl ⟨.inl hout, e, rfl⟩
    · rw [hl']
      rcases shift_cases h.2.2 with ⟨hout, e, he⟩ | ⟨hin', r', hr', hwritable', hliterals'⟩
      · simp only [he]
        exact .inl ⟨.inr hout, e, rfl⟩
      · simp only [hr']
        refine .inr ⟨not_or.mpr ⟨hin, hin'⟩, .binary o l' r', rfl, ⟨h.1, hwritable, hwritable'⟩, ?_⟩
        rw [literals, literals, hliterals, hliterals']
  | .unary _ _, h => h.elim
  | .call n fs, h => by
    have hleaves : (Formula.call n fs).LeavesGrid rows columns ↔
        AnyLeaves rows columns (writtenReferencesAll fs) := by
      rw [LeavesGrid, writtenReferences]
    rw [hleaves, shift]
    rcases shiftAll_cases h.2.2 with ⟨hout, e, he⟩ | ⟨hin, gs, hgs, hwritable, hliterals⟩
    · rw [he]
      exact .inl ⟨hout, e, rfl⟩
    · rw [hgs]
      refine .inr ⟨hin, .call n gs, rfl, ⟨h.1, h.2.1, hwritable⟩, ?_⟩
      rw [literals, literals, hliterals]

theorem shiftAll_cases : ∀ {fs : List Formula}, WritableAll fs →
    (AnyLeaves rows columns (writtenReferencesAll fs) ∧ ∃ e, shiftAll rows columns fs = .error e) ∨
      ¬ AnyLeaves rows columns (writtenReferencesAll fs) ∧
        ∃ gs, shiftAll rows columns fs = .ok gs ∧ WritableAll gs ∧ literalsAll gs = literalsAll fs
  | [], h => by
    right
    exact ⟨by simp [AnyLeaves, writtenReferencesAll], [], rfl, h, rfl⟩
  | f :: fs, h => by
    rw [writtenReferencesAll, anyLeaves_append, shiftAll]
    rcases shift_cases h.1 with ⟨hout, e, he⟩ | ⟨hin, g, hg, hwritable, hliterals⟩
    · rw [he]
      exact .inl ⟨.inl hout, e, rfl⟩
    · rw [hg]
      rcases shiftAll_cases h.2 with ⟨hout, e, he⟩ | ⟨hin', gs, hgs, hwritable', hliterals'⟩
      · simp only [he]
        exact .inl ⟨.inr hout, e, rfl⟩
      · simp only [hgs]
        refine .inr ⟨not_or.mpr ⟨hin, hin'⟩, g :: gs, rfl, ⟨hwritable, hwritable'⟩, ?_⟩
        rw [literalsAll, literalsAll, hliterals, hliterals']
end

end Shift

def Called : List Word → Prop
  | [] => True
  | w :: ws => (w.kind = .name → ∃ u ∈ ws.head?, u.kind = .leftParen) ∧ Called ws

section Called

variable {ws us : List Word}

theorem Called.append (hws : Called ws) (hus : Called us) : Called (ws ++ us) := by
  induction ws with
  | nil => exact hus
  | cons w ws ih =>
    refine ⟨fun hname => ?_, ih hws.2⟩
    obtain ⟨u, hu, hkind⟩ := hws.1 hname
    exact ⟨u, by simp [Option.mem_def.mp hu], hkind⟩

theorem Called.of_append (h : Called (ws ++ us)) : Called us := by
  induction ws with
  | nil => exact h
  | cons w ws ih => exact ih h.2

theorem called_cons {w : Word} (hw : w.kind ≠ .name) (h : Called ws) : Called (w :: ws) :=
  ⟨fun hname => absurd hname hw, h⟩

mutual
/-- The grammar has a name only before a parenthesis. -/
theorem Derives.called : ∀ {rule : Rule} {ws : List Word} {f : Formula},
    Derives rule ws f → Called ws
  | _, _, _, .term h => h.called
  | _, _, _, .sum _ hl hr => hl.called.append (called_cons nofun hr.called)
  | _, _, _, .factor h => h.called
  | _, _, _, .product _ hl hr => hl.called.append (called_cons nofun hr.called)
  | _, _, _, .primary h => h.called
  | _, _, _, .power hl hr => hl.called.append (called_cons nofun hr.called)
  | _, _, _, .number _ => called_cons nofun trivial
  | _, _, _, .text _ => called_cons nofun trivial
  | _, _, _, .parens _ _ h => called_cons nofun (h.called.append (called_cons nofun trivial))
  | _, _, _, .cell _ => called_cons nofun trivial
  | _, _, _, .range _ _ _ =>
    called_cons nofun (called_cons nofun (called_cons nofun trivial))
  | _, _, _, .emptyCall _ _ _ =>
    ⟨fun _ => ⟨_, rfl, rfl⟩, called_cons nofun (called_cons nofun trivial)⟩
  | _, _, _, .call _ _ _ h =>
    ⟨fun _ => ⟨_, rfl, rfl⟩,
      called_cons nofun (h.called.append (called_cons nofun trivial))⟩

theorem DerivesAll.called : ∀ {ws : List Word} {fs : List Formula}, DerivesAll ws fs → Called ws
  | _, _, .single h => h.called
  | _, _, .cons _ h hall => h.called.append (called_cons nofun hall.called)
end

/-- No call begins with these words. -/
def Uncalling (ws : List Word) : Prop := ∀ w ∈ ws.head?, w.kind ≠ .leftParen

theorem uncalling_cons {w : Word} (hw : w.kind ≠ .leftParen) : Uncalling (w :: ws) := by
  intro v hv
  cases hv
  exact hw

theorem not_called_name {n : String} (h : Uncalling us) : ¬ Called (⟨.name, n⟩ :: us) := by
  intro hcalled
  obtain ⟨u, hu, hkind⟩ := hcalled.1 rfl
  exact h u hu hkind

theorem not_called_numberWords {v : Float} (hv : ¬ IsFinite v) (h : Uncalling us) :
    ¬ Called (numberWords v ++ us) := by
  rw [numberWords]
  split
  · rename_i hshape
    exact absurd ⟨_, _, hshape⟩ hv
  · exact fun hcalled => not_called_name h hcalled.2
  · exact not_called_name h
  · exact not_called_name h

theorem not_called_enclosed {when : Bool} (hws : ∀ us, Uncalling us → ¬ Called (ws ++ us))
    (h : Uncalling us) : ¬ Called (enclosed when ws ++ us) := by
  cases when with
  | false => exact hws us h
  | true =>
    have hparen : Uncalling ([⟨.rightParen, ")"⟩] ++ us) := uncalling_cons nofun
    intro hcalled
    rw [enclosed, if_pos rfl, List.cons_append, List.append_assoc] at hcalled
    exact hws _ hparen hcalled.2

mutual
theorem not_called_words : ∀ {f : Formula} {v : Float}, v ∈ f.literals → ¬ IsFinite v →
    ∀ us, Uncalling us → ¬ Called (f.words ++ us)
  | .number w, v, hmem, hv, us, hus => by
    rw [literals, List.mem_singleton] at hmem
    subst hmem
    rw [words]
    exact not_called_numberWords hv hus
  | .text _, _, hmem, _, _, _ => by cases hmem
  | .cell _, _, hmem, _, _, _ => by cases hmem
  | .range _ _, _, hmem, _, _, _ => by cases hmem
  | .binary o l r, v, hmem, hv, us, hus => by
    rw [literals, List.mem_append] at hmem
    rw [words, List.append_assoc]
    rcases hmem with hmem | hmem
    · exact not_called_enclosed (not_called_words hmem hv) (uncalling_cons nofun)
    · exact fun hcalled =>
        not_called_enclosed (not_called_words hmem hv) hus hcalled.of_append.2
  | .unary o f, v, hmem, hv, us, hus => by
    rw [literals] at hmem
    rw [words, List.cons_append]
    exact fun hcalled =>
      not_called_enclosed (not_called_words hmem hv) hus hcalled.2
  | .call n fs, v, hmem, hv, us, hus => by
    have hparen : Uncalling ([⟨.rightParen, ")"⟩] ++ us) := uncalling_cons nofun
    rw [words, List.cons_append, List.cons_append, List.append_assoc]
    exact fun hcalled => not_called_wordsAll hmem hv _ hparen hcalled.2.2

theorem not_called_wordsAll : ∀ {fs : List Formula} {v : Float}, v ∈ literalsAll fs →
    ¬ IsFinite v → ∀ us, Uncalling us → ¬ Called (wordsAll fs ++ us)
  | [], _, hmem, _, _, _ => by cases hmem
  | [f], v, hmem, hv, us, hus => by
    rw [literalsAll, List.mem_append] at hmem
    rw [wordsAll]
    rcases hmem with hmem | hmem
    · exact not_called_words hmem hv us hus
    · cases hmem
  | f :: g :: fs, v, hmem, hv, us, hus => by
    rw [literalsAll, List.mem_append] at hmem
    rw [wordsAll, List.append_assoc]
    · rcases hmem with hmem | hmem
      · exact not_called_words hmem hv _ (uncalling_cons nofun)
      · exact fun hcalled => not_called_wordsAll hmem hv us hus hcalled.of_append.2
    · nofun
end

end Called

theorem exists_error_of_body {s : String} {f : Formula} {v : Float} (hbody : body s = f.render)
    (h : f.Writable) (hmem : v ∈ f.literals) (hv : ¬ IsFinite v) : ∃ e, parse s = .error e := by
  cases hparse : parse s with
  | error e => exact ⟨e, rfl⟩
  | ok g =>
    exfalso
    obtain ⟨lexemes, stop, htokens, -, hderives⟩ := tokenize_of_parse hparse
    obtain ⟨ts, htokenize, hwords⟩ := exists_tokenize_render h
    rw [hbody, htokenize] at htokens
    rw [Except.ok.inj htokens, List.map_append] at hwords
    have hlexemes : lexemes.map Token.word = f.words := (List.append_inj' hwords rfl).1
    rw [hlexemes] at hderives
    refine not_called_words hmem hv [] nofun ?_
    rw [List.append_nil]
    exact hderives.called

section Copy

variable {s : String} {f : Formula} {rows columns : Int}

theorem trim_shiftText (h : Text.trim s = s) :
    Text.trim (shiftText s rows columns) = shiftText s rows columns := by
  rw [shiftText]
  split
  · exact h
  · rename_i f hparse
    rcases shift_cases (writable_of_parse hparse) with ⟨-, e, he⟩ | ⟨-, g, hg, hwritable, -⟩
    · rw [he]
      exact h
    · rw [hg]
      exact trim_equals (compact_renderChars hwritable)

/-- A formula is copied as it stands if a part of a reference that is not pinned would leave the
grid. Otherwise its copy parses exactly if its literals are finite, and then as the moved tree. -/
theorem parse_shiftText_iff (h : parse s = .ok f) :
    (f.LeavesGrid rows columns ∧ shiftText s rows columns = s) ∨
      ¬ f.LeavesGrid rows columns ∧ ∃ g, f.shift rows columns = .ok g ∧
        ∀ g', parse (shiftText s rows columns) = .ok g' ↔
          g' = g ∧ ∀ v ∈ f.literals, IsFinite v := by
  have hcases : (f.LeavesGrid rows columns ∧ _) ∨ _ := shift_cases (writable_of_parse h)
  rcases hcases with ⟨hout, e, he⟩ | ⟨hin, g, hg, hwritable, hliterals⟩
  · left
    refine ⟨hout, ?_⟩
    simp only [shiftText, h, he]
  · right
    refine ⟨hin, g, hg, fun g' => ?_⟩
    have htext : shiftText s rows columns = String.ofList ('=' :: renderChars g) := by
      simp only [shiftText, h, hg]
    have hbody : body (shiftText s rows columns) = g.render := by
      rw [htext, body_equals (compact_renderChars hwritable)]
      rfl
    rw [← hliterals]
    constructor
    · intro hparse
      have hfinite : ∀ v ∈ g.literals, IsFinite v := by
        intro v hmem
        by_contra hv
        obtain ⟨e, he⟩ := exists_error_of_body hbody hwritable hmem hv
        rw [he] at hparse
        cases hparse
      rw [parse_of_body hbody hwritable hfinite] at hparse
      exact ⟨(Except.ok.inj hparse).symm, hfinite⟩
    · rintro ⟨rfl, hfinite⟩
      exact parse_of_body hbody hwritable hfinite

/-- The column of `$A1` is pinned. -/
theorem parse_shiftText_pinned :
    let f : Formula := .binary "-" (.cell "$A1") (.cell "b2")
    parse " =$A1-b2" = .ok f ∧ shiftText " =$A1-b2" 1 1 = "=$A2-C3" ∧
      ((f.LeavesGrid 1 1 ∧ shiftText " =$A1-b2" 1 1 = " =$A1-b2") ∨
        ¬ f.LeavesGrid 1 1 ∧ ∃ g, f.shift 1 1 = .ok g ∧
          ∀ g', parse (shiftText " =$A1-b2" 1 1) = .ok g' ↔
            g' = g ∧ ∀ v ∈ f.literals, IsFinite v) := by
  intro f
  have hf : f.Writable :=
    ⟨by decide, ⟨0, 3, by decide +kernel⟩, ⟨0, 2, by decide +kernel⟩⟩
  have hparse : parse " =$A1-b2" = .ok f := parse_of_body (by decide +kernel) hf nofun
  exact ⟨hparse, by decide +kernel, parse_shiftText_iff hparse⟩

/-- A one with 309 zeros. -/
def overlongLiteral : List Char := '1' :: List.replicate 309 '0'

def overlongSum : List Char := "A1".toList ++ '+' :: overlongLiteral

theorem numeral_overlongLiteral :
    Number.Numeral overlongLiteral ⟨Text.digitsValue overlongLiteral, 0⟩ :=
  .whole (by decide) (by decide +kernel)

theorem float?_overlongLiteral :
    Number.float? (String.ofList overlongLiteral) = some (Number.infinity false) := by
  have hbits : Number.Decimal.nearestBits ⟨Text.digitsValue overlongLiteral, 0⟩ =
      Number.infinityBits := by decide +kernel
  exact (Number.float?_signed numeral_overlongLiteral false).trans
    (congrArg (some ∘ Number.ofBits false) hbits)

theorem parse_overlongSum :
    parse (String.ofList ('=' :: overlongSum)) =
      .ok (.binary "+" (.cell "A1") (.number (Number.infinity false))) := by
  have hA1 : IsToken .reference "A1" := ⟨0, 2, by decide +kernel⟩
  have hcompact : Compact overlongSum :=
    .of_forall (by decide) (by decide) (by decide +kernel)
  have hliteral : Token.Scans overlongLiteral
      [⟨.number, String.ofList overlongLiteral⟩, ⟨.finish, ""⟩] := by
    have hscan := Token.scans_nil.number numeral_overlongLiteral false Token.bounded_nil
    rwa [List.append_nil] at hscan
  have hplus := hliteral.mark (c := '+') rfl
    (Token.startsNumber_of_mem_marks (by decide) (by decide))
  have hscan := hplus.reference (isToken_reference_iff.mp hA1) (Token.bounded_cons (by decide))
  obtain ⟨ts, htokenize, hwords⟩ := hscan.exists_tokenize hcompact.stops_head hcompact.stops_last
  have hderives : Derives .expression
      ([⟨.reference, "A1"⟩] ++ ⟨.operator, "+"⟩ :: [⟨.number, String.ofList overlongLiteral⟩])
      (.binary "+" (.cell "A1") (.number (Number.infinity false))) :=
    .sum (by decide) (.term (.factor (.primary (.cell "A1"))))
      (.factor (.primary (.number float?_overlongLiteral)))
  rw [parse, body_equals hcompact, overlongSum, htokenize]
  exact ofTokens_of_derives hderives hwords

/-- The text of infinity is a name, so the copy is no formula. -/
theorem not_parse_shiftText_overlongSum :
    (∃ f, parse (String.ofList ('=' :: overlongSum)) = .ok f) ∧
      shiftText (String.ofList ('=' :: overlongSum)) 1 0 = "=A2+Infinity" ∧
      ¬ ∃ g, parse (shiftText (String.ofList ('=' :: overlongSum)) 1 0) = .ok g := by
  have hshift : (Formula.binary "+" (.cell "A1") (.number (Number.infinity false))).shift 1 0 =
      .ok (.binary "+" (.cell "A2") (.number (Number.infinity false))) := by
    have hA2 : shiftReference "A1" 1 0 = .ok "A2" := by decide +kernel
    simp only [shift, hA2]
  have hcopy : shiftText (String.ofList ('=' :: overlongSum)) 1 0 = "=A2+Infinity" := by
    rw [shiftText, parse_overlongSum]
    simp only [hshift]
    decide +kernel
  refine ⟨⟨_, parse_overlongSum⟩, hcopy, ?_⟩
  rintro ⟨g, hg⟩
  have hfail : (parse "=A2+Infinity").toOption.isSome = false := by decide +kernel
  rw [hcopy] at hg
  rw [hg] at hfail
  cases hfail

end Copy

end Formula

end Gridcalc
