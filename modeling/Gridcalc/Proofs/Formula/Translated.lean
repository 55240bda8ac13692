import Gridcalc.Proofs.Formula.Copied
import Gridcalc.Proofs.Formula.Mentions
import Gridcalc.Proofs.Grid.Notation

/-! # The meaning of a copy

A copied formula computes from the moved cells what the original computes from its own, and reads
them in the same order. Each of its references has to be pinned as a whole or not at all, and the
two ends of a range alike: the corners of a rectangle then move together.
-/

namespace Gridcalc

open Address (proper_of_namedCell?)
open Token (IsToken IsReference isToken_reference_iff)

/-- A lookup that goes by the cell that a reference names, if it names one. -/
def Lookup.ofCells (cells : Option Address → Except EvalError Datum) : Lookup :=
  fun ref => cells (namedCell? ref)

/-- Whether a copy leaves the reference in its place. -/
def Reference.isPinned (text : String) : Bool := (Reference.ofText? text).any (·.absoluteRow)

/-- The reference is pinned in both its parts or in neither. -/
def Reference.Uniform (text : String) : Prop :=
  ∀ r ∈ Reference.ofText? text, r.absoluteColumn = r.absoluteRow

/-- The references are pinned alike, if they name cells at all. -/
def Reference.Alike (a b : String) : Prop :=
  ∀ r ∈ Reference.ofText? a, ∀ q ∈ Reference.ofText? b, r.absoluteRow = q.absoluteRow

/-- A cell to be read, if a reference names one. -/
structure Site where
  pinned : Bool
  cell? : Option Address
deriving DecidableEq

def Site.moved (rows columns : Int) (p : Site) : Option Address :=
  p.cell?.map (Address.moved p.pinned rows columns)

namespace Formula

mutual
/-- No reference is pinned in one of its parts only, and the ends of each range are alike. -/
def Uniform : Formula → Prop
  | .cell t => Reference.Uniform t
  | .range a b => Reference.Uniform a ∧ Reference.Uniform b ∧ Reference.Alike a b
  | .binary _ l r => l.Uniform ∧ r.Uniform
  | .unary _ f => f.Uniform
  | .call _ fs => UniformAll fs
  | _ => True

def UniformAll : List Formula → Prop
  | [] => True
  | f :: fs => f.Uniform ∧ UniformAll fs
end

def siteOf (text : String) : Site := ⟨Reference.isPinned text, namedCell? text⟩

def spannedSites (pinned : Bool) : Option Address → Option Address → List Site
  | some a, some b => (Address.rectangle a b).map fun c => ⟨pinned, some c⟩
  | _, _ => []

mutual
/-- The places of the references and range cells, in the order of `mentions`. -/
def sites : Formula → List Site
  | .cell t => [siteOf t]
  | .range a b =>
    siteOf a :: siteOf b ::
      spannedSites (Reference.isPinned a) (namedCell? a) (namedCell? b)
  | .binary _ l r => l.sites ++ r.sites
  | .unary _ f => f.sites
  | .call _ fs => sitesAll fs
  | _ => []

def sitesAll : List Formula → List Site
  | [] => []
  | f :: fs => f.sites ++ sitesAll fs
end

end Formula

/-- What is told of a failure: a text that names no cell is not. -/
def EvalError.shown (e : EvalError) : String × Option String := (e.code, e.message?)

namespace Run

variable {α β : Type}

/-- Both runs read equally much and end alike, as far as can be seen. -/
structure InStep (r r' : Run α) : Prop where
  length : r'.consulted.length = r.consulted.length
  outcome : r'.outcome.mapError EvalError.shown = r.outcome.mapError EvalError.shown

namespace InStep

theorem refl (r : Run α) : InStep r r := ⟨rfl, rfl⟩

theorem bind {r r' : Run α} {f f' : α → Run β} (h : InStep r r') (hf : ∀ a, InStep (f a) (f' a)) :
    InStep (r >>= f) (r' >>= f') := by
  change InStep (r.bind f) (r'.bind f')
  have houtcome := h.outcome
  rw [Run.bind, Run.bind]
  cases hr : r.outcome with
  | error e =>
    cases hr' : r'.outcome with
    | error e' =>
      rw [hr, hr'] at houtcome
      exact ⟨h.length, congrArg Except.error (Except.error.inj houtcome)⟩
    | ok a =>
      rw [hr, hr'] at houtcome
      cases houtcome
  | ok a =>
    cases hr' : r'.outcome with
    | error e' =>
      rw [hr, hr'] at houtcome
      cases houtcome
    | ok a' =>
      rw [hr, hr'] at houtcome
      cases houtcome
      refine ⟨?_, (hf a).outcome⟩
      rw [List.length_append, List.length_append, h.length, (hf a).length]

end InStep

end Run

namespace Formula

open Run

section Reads

variable {l l' : Lookup}

theorem inStep_fetch {ref ref' : String} (h : l' ref' = l ref) :
    InStep (fetch l ref) (fetch l' ref') := by
  rw [fetch, fetch, h]
  exact ⟨rfl, rfl⟩

theorem inStep_readCell {ref ref' : String} (h : l' ref' = l ref) :
    InStep (readCell l ref) (readCell l' ref') :=
  (inStep_fetch h).bind fun _ => .refl _

theorem inStep_readCells {as : List Address} {m : Address → Address}
    (h : ∀ a ∈ as, l' (m a).toA1 = l a.toA1) :
    InStep (readCells l as) (readCells l' (as.map m)) := by
  induction as with
  | nil => exact .refl _
  | cons a as ih =>
    rw [List.forall_mem_cons] at h
    rw [List.map_cons, readCells, readCells]
    refine (inStep_fetch h.1).bind fun d => ?_
    cases d with
    | null => exact ih h.2
    | _ => exact (InStep.refl _).bind fun _ => (ih h.2).bind fun _ => .refl _

theorem inStep_readRange {first last first' last' : String} {m : Address → Address}
    (hfirst : namedCell? first' = (namedCell? first).map m)
    (hlast : namedCell? first ≠ none → namedCell? last' = (namedCell? last).map m)
    (hcells : ∀ a b, namedCell? first = some a → namedCell? last = some b →
      Address.rectangle (m a) (m b) = (Address.rectangle a b).map m ∧
        ∀ c ∈ Address.rectangle a b, l' (m c).toA1 = l c.toA1) :
    InStep (readRange l first last) (readRange l' first' last') := by
  rw [readRange, readRange]
  refine InStep.bind ⟨rfl, rfl⟩ fun _ => InStep.bind ⟨rfl, rfl⟩ fun _ => ?_
  cases ha : namedCell? first with
  | none =>
    rw [ha, Option.map_none] at hfirst
    rw [namedCell?] at ha hfirst
    simp only [ha, hfirst]
    exact ⟨rfl, rfl⟩
  | some a =>
    specialize hlast (by simp [ha])
    rw [ha, Option.map_some] at hfirst
    cases hb : namedCell? last with
    | none =>
      rw [hb, Option.map_none] at hlast
      rw [namedCell?] at ha hb hfirst hlast
      simp only [ha, hb, hfirst, hlast]
      exact ⟨rfl, rfl⟩
    | some b =>
      obtain ⟨hrectangle, hread⟩ := hcells a b ha hb
      rw [hb, Option.map_some] at hlast
      rw [namedCell?] at ha hb hfirst hlast
      simp only [ha, hb, hfirst, hlast, hrectangle]
      exact (inStep_readCells hread).bind fun _ => .refl _

end Reads

section Moves

variable {rows columns : Int} {t t' : String}

theorem namedCell?_of_isToken (h : IsToken .reference t) :
    namedCell? t = (Reference.ofText? t).map Reference.address :=
  (isToken_reference_iff.mp h).1.ofA1?_stripMarkers

theorem address_shift {r : Reference} (h : r.absoluteColumn = r.absoluteRow) :
    (r.shift rows columns).address = r.address.moved r.absoluteRow rows columns := by
  rw [Reference.shift, h, Reference.address, Reference.address, Address.moved]
  cases r.absoluteRow <;> rfl

theorem isToken_of_shiftReference (h : IsToken .reference t)
    (hshift : shiftReference t rows columns = .ok t') : IsToken .reference t' := by
  have hcases : (TextLeaves rows columns t ∧ _) ∨ _ := shiftReference_cases h
  rcases hcases with ⟨-, herror⟩ | ⟨-, moved, hmoved, htoken⟩
  · rw [herror] at hshift
    cases hshift
  · rw [hmoved] at hshift
    cases hshift
    exact htoken

theorem namedCell?_of_shift (h : IsToken .reference t) (huniform : Reference.Uniform t)
    (hshift : shiftReference t rows columns = .ok t') :
    namedCell? t' = (namedCell? t).map (Address.moved (Reference.isPinned t) rows columns) := by
  have ht' := isToken_of_shiftReference h hshift
  rw [namedCell?_of_isToken ht', namedCell?_of_isToken h, Reference.isPinned]
  cases hread : Reference.ofText? t with
  | none =>
    rw [shiftReference, Reference.shiftText?, hread] at hshift
    cases hshift
    rw [hread]
    rfl
  | some r =>
    rw [shiftReference, Reference.shiftText?, hread] at hshift
    simp only at hshift
    by_cases hout : (r.shift rows columns).row < 0 ∨ (r.shift rows columns).column < 0
    · simp [hout] at hshift
    · simp only [hout, if_false] at hshift
      cases hshift
      rw [Reference.ofText?_toText (by omega) (by omega)]
      exact congrArg some (address_shift (huniform r hread))

end Moves

section Tree

variable {rows columns : Int} {cells cells' : Option Address → Except EvalError Datum}

/-- What the cells hold at the place they hold where it is moved to. -/
def Carried (rows columns : Int) (cells cells' : Option Address → Except EvalError Datum)
    (ps : List Site) : Prop :=
  ∀ p ∈ ps, cells' (p.moved rows columns) = cells p.cell?

/-- The references name the sites, those of the copy the moved sites, and the evaluations run in
step. -/
structure Translated (rows columns : Int) (l l' : Lookup) (f g : Formula) : Prop where
  named : f.mentions.map namedCell? = f.sites.map Site.cell?
  moved : g.mentions.map namedCell? = f.sites.map (Site.moved rows columns)
  inStep : InStep (f.evaluate l) (g.evaluate l')

structure TranslatedAll (rows columns : Int) (l l' : Lookup) (fs gs : List Formula) : Prop where
  named : (mentionsAll fs).map namedCell? = (sitesAll fs).map Site.cell?
  moved : (mentionsAll gs).map namedCell? = (sitesAll fs).map (Site.moved rows columns)
  inStep : InStep (collect l fs) (collect l' gs)

theorem translated_cell {t t' : String} (h : IsToken .reference t) (huniform : Reference.Uniform t)
    (hshift : shiftReference t rows columns = .ok t')
    (hcells : Carried rows columns cells cells' (Formula.cell t).sites) :
    Translated rows columns (Lookup.ofCells cells) (Lookup.ofCells cells') (.cell t)
      (.cell t') := by
  have hnamed := namedCell?_of_shift h huniform hshift
  have hsame : Lookup.ofCells cells' t' = Lookup.ofCells cells t := by
    simp only [sites, Carried, List.forall_mem_singleton, siteOf, Site.moved] at hcells
    rw [Lookup.ofCells, Lookup.ofCells, hnamed]
    exact hcells
  constructor
  · simp only [mentions, sites, siteOf, List.map_singleton]
  · simp only [mentions, sites, siteOf, Site.moved, List.map_singleton, hnamed]
  · rw [evaluate, evaluate]
    exact inStep_readCell hsame

theorem map_namedCell?_rectangle {a b : Address} (ha : 0 ≤ a.row ∧ 0 ≤ a.column)
    (hb : 0 ≤ b.row ∧ 0 ≤ b.column) :
    ((Address.rectangle a b).map Address.toA1).map namedCell? =
      (Address.rectangle a b).map some := by
  rw [List.map_map]
  refine List.map_congr_left fun c hc => ?_
  rw [Function.comp_apply, Address.namedCell?_of_mem_rectangle ha hb hc]

theorem isPinned_eq {a b : String} {p q : Address} (ha : IsToken .reference a)
    (hb : IsToken .reference b) (halike : Reference.Alike a b) (hp : namedCell? a = some p)
    (hq : namedCell? b = some q) : Reference.isPinned a = Reference.isPinned b := by
  rw [namedCell?_of_isToken ha] at hp
  rw [namedCell?_of_isToken hb] at hq
  obtain ⟨r, hr, -⟩ := Option.map_eq_some_iff.mp hp
  obtain ⟨s, hs, -⟩ := Option.map_eq_some_iff.mp hq
  rw [Reference.isPinned, Reference.isPinned, hr, hs]
  exact halike r hr s hs

theorem map_namedCell?_spanned (a b : String) (pinned : Bool) :
    (spanned (namedCell? a) (namedCell? b)).map namedCell? =
      (spannedSites pinned (namedCell? a) (namedCell? b)).map Site.cell? := by
  cases hp : namedCell? a with
  | none => rfl
  | some p =>
    cases hq : namedCell? b with
    | none => rfl
    | some q =>
      rw [spanned, spannedSites, map_namedCell?_rectangle (proper_of_namedCell? hp)
        (proper_of_namedCell? hq), List.map_map]
      rfl

theorem spannedSites_moved (pinned : Bool) (p q : Address) :
    (spannedSites pinned (some (p.moved pinned rows columns))
      (some (q.moved pinned rows columns))).map Site.cell? =
      (spannedSites pinned (some p) (some q)).map (Site.moved rows columns) := by
  rw [spannedSites, spannedSites, Address.rectangle_moved, List.map_map, List.map_map,
    List.map_map]
  rfl

section Range

variable {a b a' b' : String} {pinned : Bool}

theorem inStep_range
    (hfirst : namedCell? a' = (namedCell? a).map (Address.moved pinned rows columns))
    (hlast : namedCell? a ≠ none →
      namedCell? b' = (namedCell? b).map (Address.moved pinned rows columns))
    (hcells : Carried rows columns cells cells'
      (spannedSites pinned (namedCell? a) (namedCell? b))) :
    InStep (readRange (Lookup.ofCells cells) a b) (readRange (Lookup.ofCells cells') a' b') := by
  refine inStep_readRange hfirst hlast fun p q hp hq => ?_
  have hrectangle := Address.rectangle_moved pinned rows columns p q
  refine ⟨hrectangle, fun c hc => ?_⟩
  specialize hlast (by simp [hp])
  rw [hp, Option.map_some] at hfirst
  rw [hq, Option.map_some] at hlast
  rw [hp, hq] at hcells
  have hmoved : c.moved pinned rows columns ∈
      Address.rectangle (p.moved pinned rows columns) (q.moved pinned rows columns) := by
    rw [hrectangle]
    exact List.mem_map_of_mem hc
  have hnamed := Address.namedCell?_of_mem_rectangle (proper_of_namedCell? hp)
    (proper_of_namedCell? hq) hc
  have hnamed' := Address.namedCell?_of_mem_rectangle (proper_of_namedCell? hfirst)
    (proper_of_namedCell? hlast) hmoved
  rw [Lookup.ofCells, Lookup.ofCells, hnamed, hnamed']
  exact hcells ⟨pinned, some c⟩ (List.mem_map.mpr ⟨c, hc, rfl⟩)

theorem translated_range (ha : IsToken .reference a) (hb : IsToken .reference b)
    (hua : Reference.Uniform a) (hub : Reference.Uniform b) (halike : Reference.Alike a b)
    (hsa : shiftReference a rows columns = .ok a') (hsb : shiftReference b rows columns = .ok b')
    (hcells : Carried rows columns cells cells' (Formula.range a b).sites) :
    Translated rows columns (Lookup.ofCells cells) (Lookup.ofCells cells') (.range a b)
      (.range a' b') := by
  have hna := namedCell?_of_shift ha hua hsa
  have hnb := namedCell?_of_shift hb hub hsb
  have hlast : namedCell? a ≠ none → namedCell? b' =
      (namedCell? b).map (Address.moved (Reference.isPinned a) rows columns) := by
    intro hsome
    obtain ⟨p, hp⟩ := Option.ne_none_iff_exists'.mp hsome
    rw [hnb]
    cases hq : namedCell? b with
    | none => rfl
    | some q => rw [isPinned_eq ha hb halike hp hq]
  have hspanned : (spanned (namedCell? a') (namedCell? b')).map namedCell? =
      (spannedSites (Reference.isPinned a) (namedCell? a) (namedCell? b)).map
        (Site.moved rows columns) := by
    rw [map_namedCell?_spanned a' b' (Reference.isPinned a), hna]
    cases hp : namedCell? a with
    | none => rfl
    | some p =>
      rw [hlast (by simp [hp])]
      cases namedCell? b with
      | none => rfl
      | some q => exact spannedSites_moved (Reference.isPinned a) p q
  constructor
  · rw [mentions_range, sites]
    simp only [List.map_cons, siteOf, map_namedCell?_spanned a b (Reference.isPinned a)]
  · rw [mentions_range, sites, List.map_cons, List.map_cons, hspanned, hna, hnb]
    simp only [List.map_cons, siteOf, Site.moved]
  · rw [sites, Carried, List.forall_mem_cons, List.forall_mem_cons] at hcells
    rw [evaluate, evaluate]
    exact inStep_range hna hlast hcells.2.2

end Range

theorem translated_binary {lookup lookup' : Lookup} {l r l' r' : Formula} (o : String)
    (hl : Translated rows columns lookup lookup' l l')
    (hr : Translated rows columns lookup lookup' r r') :
    Translated rows columns lookup lookup' (.binary o l r) (.binary o l' r') := by
  constructor
  · rw [mentions, sites, List.map_append, List.map_append, hl.named, hr.named]
  · rw [mentions, sites, List.map_append, List.map_append, hl.moved, hr.moved]
  · rw [evaluate, evaluate]
    exact hl.inStep.bind fun _ => (InStep.refl _).bind fun _ => hr.inStep.bind fun _ => .refl _

theorem translated_call {lookup lookup' : Lookup} {fs gs : List Formula} (n : String)
    (h : TranslatedAll rows columns lookup lookup' fs gs) :
    Translated rows columns lookup lookup' (.call n fs) (.call n gs) := by
  constructor
  · rw [mentions, sites, h.named]
  · rw [mentions, sites, h.moved]
  · rw [evaluate, evaluate]
    exact h.inStep.bind fun _ => .refl _

theorem translatedAll_cons {lookup lookup' : Lookup} {f g : Formula} {fs gs : List Formula}
    (h : Translated rows columns lookup lookup' f g)
    (hall : TranslatedAll rows columns lookup lookup' fs gs) :
    TranslatedAll rows columns lookup lookup' (f :: fs) (g :: gs) := by
  constructor
  · rw [mentionsAll, sitesAll, List.map_append, List.map_append, h.named, hall.named]
  · rw [mentionsAll, sitesAll, List.map_append, List.map_append, h.moved, hall.moved]
  · rw [collect, collect]
    exact h.inStep.bind fun _ => (InStep.refl _).bind fun _ => hall.inStep.bind fun _ => .refl _

theorem Carried.of_append {ps qs : List Site} (h : Carried rows columns cells cells' (ps ++ qs)) :
    Carried rows columns cells cells' ps ∧ Carried rows columns cells cells' qs :=
  List.forall_mem_append.mp h

mutual
theorem translated : ∀ {f g : Formula}, f.Writable → f.Uniform → f.shift rows columns = .ok g →
    Carried rows columns cells cells' f.sites →
    Translated rows columns (Lookup.ofCells cells) (Lookup.ofCells cells') f g
  | .number v, g, _, _, hshift, _ => by
    cases hshift
    refine ⟨by simp only [mentions, sites, List.map_nil],
      by simp only [mentions, sites, List.map_nil], ?_⟩
    rw [evaluate, evaluate]
    exact .refl _
  | .text s, g, _, _, hshift, _ => by
    cases hshift
    refine ⟨by simp only [mentions, sites, List.map_nil],
      by simp only [mentions, sites, List.map_nil], ?_⟩
    rw [evaluate, evaluate]
    exact .refl _
  | .cell t, g, h, huniform, hshift, hcells => by
    rw [shift] at hshift
    split at hshift
    · cases hshift
    · rename_i t' ht'
      cases hshift
      exact translated_cell h huniform ht' hcells
  | .range a b, g, h, huniform, hshift, hcells => by
    rw [shift] at hshift
    split at hshift
    · cases hshift
    · rename_i a' ha'
      split at hshift
      · cases hshift
      · rename_i b' hb'
        cases hshift
        exact translated_range h.1 h.2 huniform.1 huniform.2.1 huniform.2.2 ha' hb' hcells
  | .binary o l r, g, h, huniform, hshift, hcells => by
    rw [sites] at hcells
    obtain ⟨hleft, hright⟩ := hcells.of_append
    rw [shift] at hshift
    split at hshift
    · cases hshift
    · rename_i l' hl'
      split at hshift
      · cases hshift
      · rename_i r' hr'
        cases hshift
        exact translated_binary o (translated h.2.1 huniform.1 hl' hleft)
          (translated h.2.2 huniform.2 hr' hright)
  | .unary _ _, _, h, _, _, _ => h.elim
  | .call n fs, g, h, huniform, hshift, hcells => by
    rw [sites] at hcells
    rw [shift] at hshift
    split at hshift
    · cases hshift
    · rename_i gs hgs
      cases hshift
      exact translated_call n (translatedAll h.2.2 huniform hgs hcells)

theorem translatedAll : ∀ {fs gs : List Formula}, WritableAll fs → UniformAll fs →
    shiftAll rows columns fs = .ok gs → Carried rows columns cells cells' (sitesAll fs) →
    TranslatedAll rows columns (Lookup.ofCells cells) (Lookup.ofCells cells') fs gs
  | [], gs, _, _, hshift, _ => by
    cases hshift
    refine ⟨by simp only [mentionsAll, sitesAll, List.map_nil],
      by simp only [mentionsAll, sitesAll, List.map_nil], ?_⟩
    rw [collect, collect]
    exact .refl _
  | f :: fs, gs, h, huniform, hshift, hcells => by
    rw [sitesAll] at hcells
    obtain ⟨hfirst, hothers⟩ := hcells.of_append
    rw [shiftAll] at hshift
    split at hshift
    · cases hshift
    · rename_i g hg
      split at hshift
      · cases hshift
      · rename_i gs' hgs'
        cases hshift
        exact translatedAll_cons (translated h.1 huniform.1 hg hfirst)
          (translatedAll h.2 huniform.2 hgs' hothers)
end

end Tree

section Result

variable {s : String} {f g : Formula} {rows columns : Int} {lookup lookup' : Lookup}

/-- The places that an evaluation reads, in this order: it stops at a failure. -/
def sitesRead (lookup : Lookup) (f : Formula) : List Site :=
  f.sites.take (f.evaluate lookup).consulted.length

theorem Translated.consulted (h : Translated rows columns lookup lookup' f g) :
    (f.evaluate lookup).consulted.map namedCell? = (f.sitesRead lookup).map Site.cell? ∧
      (g.evaluate lookup').consulted.map namedCell? =
        (f.sitesRead lookup).map (Site.moved rows columns) := by
  have hf := List.prefix_iff_eq_take.mp (along_evaluate lookup f).within
  have hg := List.prefix_iff_eq_take.mp (along_evaluate lookup' g).within
  constructor
  · rw [sitesRead, List.map_take, ← h.named, ← List.map_take, ← hf]
  · rw [sitesRead, List.map_take, ← h.moved, ← List.map_take, ← h.inStep.length, ← hg]

theorem verdict_congr {r r' : Except EvalError Datum}
    (h : r'.mapError EvalError.shown = r.mapError EvalError.shown) :
    (Verdict.ofOutcome r').value? = (Verdict.ofOutcome r).value? ∧
      (Verdict.ofOutcome r').text? = (Verdict.ofOutcome r).text? ∧
      (Verdict.ofOutcome r').error? = (Verdict.ofOutcome r).error? ∧
      (Verdict.ofOutcome r').message? = (Verdict.ofOutcome r).message? := by
  cases r with
  | error e =>
    cases r' with
    | error e' =>
      have hshown : e'.shown = e.shown := Except.error.inj h
      refine ⟨rfl, rfl, ?_, ?_⟩
      · exact congrArg (some ∘ Prod.fst) hshown
      · exact congrArg Prod.snd hshown
    | ok d' => cases h
  | ok d =>
    cases r' with
    | error e' => cases h
    | ok d' =>
      cases h
      exact ⟨rfl, rfl, rfl, rfl⟩

theorem mem_map_references_iff {c : Option Address} :
    c ∈ (f.result lookup).references.map namedCell? ↔
      c ∈ (f.evaluate lookup).consulted.map namedCell? := by
  simp only [result, List.mem_map, Text.mem_firsts_iff]

/-- A copy shows what the original shows if the moved cells hold what the original ones hold. It
reads the moved cells in the same order, and these are the cells that its record names. -/
theorem result_translated {cells cells' : Option Address → Except EvalError Datum}
    (hparse : parse s = .ok f) (huniform : f.Uniform) (hshift : f.shift rows columns = .ok g)
    (hcells : ∀ p ∈ f.sites, cells' (p.moved rows columns) = cells p.cell?) :
    let original := f.result (Lookup.ofCells cells)
    let copy := g.result (Lookup.ofCells cells')
    let read := f.sitesRead (Lookup.ofCells cells)
    (copy.verdict.value? = original.verdict.value? ∧
      copy.verdict.text? = original.verdict.text? ∧
      copy.verdict.error? = original.verdict.error? ∧
      copy.verdict.message? = original.verdict.message?) ∧
    ((f.evaluate (Lookup.ofCells cells)).consulted.map namedCell? = read.map Site.cell? ∧
      (g.evaluate (Lookup.ofCells cells')).consulted.map namedCell? =
        read.map (Site.moved rows columns)) ∧
    ∀ c, (c ∈ original.references.map namedCell? ↔ c ∈ read.map Site.cell?) ∧
      (c ∈ copy.references.map namedCell? ↔ c ∈ read.map (Site.moved rows columns)) := by
  intro original copy read
  have h := translated (writable_of_parse hparse) huniform hshift hcells
  have hconsulted := h.consulted
  refine ⟨verdict_congr h.inStep.outcome, hconsulted, fun c => ?_⟩
  rw [← hconsulted.1, ← hconsulted.2]
  exact ⟨mem_map_references_iff, mem_map_references_iff⟩

/-- Row by row the cells hold one, two and so on; the copy finds those of the first column one row
further down. -/
theorem result_translated_sum :
    let f : Formula := .binary "+" (.cell "a1") (.call "SUM" [.range "$B$1" "$B$2"])
    let g : Formula := .binary "+" (.cell "A2") (.call "SUM" [.range "$B$1" "$B$2"])
    let cells : Option Address → Except EvalError Datum := fun a? =>
      .ok (a?.elim .null fun a => .int (a.row + 1))
    let cells' : Option Address → Except EvalError Datum := fun a? =>
      .ok (a?.elim .null fun a => .int (if a.column = 0 then a.row else a.row + 1))
    parse "=a1+SUM($B$1:$B$2)" = .ok f ∧ f.shift 1 0 = .ok g ∧
      (g.result (Lookup.ofCells cells')).verdict.value? =
        (f.result (Lookup.ofCells cells)).verdict.value? := by
  intro f g cells cells'
  have hf : f.Writable := by
    have hB1 : IsToken .reference "$B$1" := ⟨0, 4, by decide +kernel⟩
    have hB2 : IsToken .reference "$B$2" := ⟨0, 4, by decide +kernel⟩
    have hSUM : IsToken .name "SUM" := ⟨0, 3, by decide +kernel⟩
    exact ⟨by decide, ⟨0, 2, by decide +kernel⟩, hSUM, by decide, ⟨hB1, hB2⟩, trivial⟩
  have hparse : parse "=a1+SUM($B$1:$B$2)" = .ok f :=
    parse_of_body (by decide +kernel) hf nofun
  have huniform : f.Uniform := by
    have ha1 : Reference.Uniform "a1" := by rw [Reference.Uniform]; decide +kernel
    have hB1 : Reference.Uniform "$B$1" := by rw [Reference.Uniform]; decide +kernel
    have hB2 : Reference.Uniform "$B$2" := by rw [Reference.Uniform]; decide +kernel
    have halike : Reference.Alike "$B$1" "$B$2" := by rw [Reference.Alike]; decide +kernel
    exact ⟨ha1, ⟨hB1, hB2, halike⟩, trivial⟩
  have hshift : f.shift 1 0 = .ok g := by
    have ha1 : shiftReference "a1" 1 0 = .ok "A2" := by decide +kernel
    have hB1 : shiftReference "$B$1" 1 0 = .ok "$B$1" := by decide +kernel
    have hB2 : shiftReference "$B$2" 1 0 = .ok "$B$2" := by decide +kernel
    simp only [f, g, shift, shiftAll, ha1, hB1, hB2]
  have hsites : f.sites = [⟨false, some ⟨0, 0⟩⟩, ⟨true, some ⟨0, 1⟩⟩, ⟨true, some ⟨1, 1⟩⟩,
      ⟨true, some ⟨0, 1⟩⟩, ⟨true, some ⟨1, 1⟩⟩] := by decide +kernel
  refine ⟨hparse, hshift, (result_translated hparse huniform hshift ?_).1.1⟩
  rw [hsites]
  simp [cells, cells', Site.moved, Address.moved, Address.translate]

end Result

end Formula

end Gridcalc
