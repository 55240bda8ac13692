import Gridcalc.Proofs.Sheet.Recalculate
import Gridcalc.Proofs.Sheet.Store
import Gridcalc.Proofs.Sheet.Unique
import Gridcalc.Sheet.Load

/-! # Loaded sheets

A description that names different cells of the grid always gives a sheet. The plain texts are in
place before any formula is evaluated, so what the sheet comes to is a matter of the two passes
over the formulas; the order of the entries decides only which cells the passes overtake.
-/

namespace Gridcalc.Sheet

open Relation (ReflTransGen)

variable {s : Sheet} {spec : Datum} {rows columns : Int} {k : String} {c : Cell}
  {entries entries' : List (Datum × Datum)} {formulas done texts : List (Address × String)}

/-- The dimensions and the entries of a description. -/
def readSpec (spec : Datum) : Except SpecError (Int × Int × List (Datum × Datum)) := do
  let fields ← entriesOf spec
  let rows ← dimension "n_rows" 100 fields
  let columns ← dimension "n_cols" 26 fields
  let cells := (Datum.find? "cells" fields).getD .null
  let entries ← if cells.isTrue then entriesOf cells else .ok []
  return (rows, columns, entries)

def layOut (rows columns : Int) (entries : List (Datum × Datum)) :
    Except SpecError (Sheet × Nat) := do
  let (s, formulas) ← ({ rows, columns } : Sheet).placeEntries [] entries
  return (formulas.foldl (fun s (a, raw) => s.placeFormula a raw) s, formulas.length)

theorem ofSpec_eq_bind (spec : Datum) :
    ofSpec spec = do
      let (rows, columns, entries) ← readSpec spec
      let (s, n) ← layOut rows columns entries
      return (s.recalculateAll.1,
        s.recalculateAll.2 ++ [.loaded s.recalculateAll.1.cells.size n]) := by
  rw [ofSpec, readSpec]
  simp only [bind_assoc, pure_bind, layOut]
  refine bind_congr fun fields => bind_congr fun rows => bind_congr fun columns => ?_
  split
  · simp only [bind_assoc, pure_bind]
  · rfl

def locate (rows columns : Int) (e : Datum × Datum) : Option (Address × String) :=
  match e.1 with
  | .text target =>
    match ({ rows, columns } : Sheet).resolve (.text target) with
    | .ok a => some (a, e.2.display)
    | .error _ => none
  | _ => none

/-- The entries name cells of the grid, all of them different. -/
structure Laid (rows columns : Int) (entries : List (Datum × Datum)) : Prop where
  located : ∀ e ∈ entries, ∃ p, locate rows columns e = some p
  distinct : ((entries.filterMap (locate rows columns)).map (·.1)).Nodup

instance (rows columns : Int) (entries : List (Datum × Datum)) :
    Decidable (Laid rows columns entries) :=
  decidable_of_iff
    ((∀ e ∈ entries, (locate rows columns e).isSome = true) ∧
      ((entries.filterMap (locate rows columns)).map (·.1)).Nodup)
    ⟨fun h => ⟨fun e he => Option.isSome_iff_exists.mp (h.1 e he), h.2⟩,
      fun h => ⟨fun e he => Option.isSome_iff_exists.mpr (h.located e he), h.distinct⟩⟩

theorem Laid.perm (h : Laid rows columns entries) (hperm : entries'.Perm entries) :
    Laid rows columns entries' where
  located e he := h.located e (hperm.subset he)
  distinct := ((hperm.filterMap _).map _).nodup_iff.mpr h.distinct

/-- A text in place: a formula shows nothing until it is evaluated. -/
def placedCell (raw : String) : Cell :=
  if isFormulaText raw then .formula (Text.trim raw) "" none else plainCell (Text.trim raw)

/-- The sheet and the formulas put off, after the entries of some texts. -/
structure Placing (rows columns : Int) (s : Sheet) (formulas done : List (Address × String)) :
    Prop where
  rows : s.rows = rows
  columns : s.columns = columns
  graph : s.graph = ∅
  cells : ∀ k c, s.cells.find? k = some c ↔
    ∃ e ∈ done, e.1.key = k ∧ isFormulaText e.2 = false ∧ Text.trim e.2 ≠ "" ∧
      c = plainCell (Text.trim e.2)
  formulas : ∀ e, e ∈ formulas ↔
    ∃ e' ∈ done, isFormulaText e'.2 = true ∧ e = (e'.1, Text.trim e'.2)

/-- The sheet with the texts in place. -/
structure Placed (rows columns : Int) (s : Sheet) (texts : List (Address × String)) : Prop where
  rows : s.rows = rows
  columns : s.columns = columns
  graph : s.graph = ∅
  cells : ∀ k c, s.cells.find? k = some c ↔
    ∃ e ∈ texts, e.1.key = k ∧ Text.trim e.2 ≠ "" ∧ c = placedCell e.2

theorem deferFormula_of_new {a : Address} {raw : String} (h : ∀ e ∈ formulas, e.1 ≠ a) :
    deferFormula a raw formulas = formulas ++ [(a, raw)] := by
  induction formulas with
  | nil => rfl
  | cons e es ih =>
    rw [deferFormula, if_neg (h e List.mem_cons_self),
      ih fun e' he' => h e' (List.mem_cons_of_mem e he'), List.cons_append]

theorem resolve_congr {t : Sheet} (hrows : s.rows = t.rows) (hcolumns : s.columns = t.columns)
    (target : Target) : s.resolve target = t.resolve target := by
  have hwithin (a : Address) : s.within a = t.within a := by
    rw [within, within, hrows, hcolumns]
  cases target with
  | address a => exact hwithin a
  | text text => simp only [resolve, hwithin]

theorem placeEntries_cons {e : Datum × Datum} {a : Address} {raw : String}
    (hrows : s.rows = rows) (hcolumns : s.columns = columns)
    (he : locate rows columns e = some (a, raw)) (formulas : List (Address × String))
    (entries : List (Datum × Datum)) :
    s.placeEntries formulas (e :: entries) =
      if isFormulaText raw then s.placeEntries (deferFormula a (Text.trim raw) formulas) entries
      else (s.store raw a).sheet.placeEntries formulas entries := by
  obtain ⟨key, value⟩ := e
  cases key with
  | text target =>
    have hresolve := resolve_congr (t := { rows, columns }) hrows hcolumns (.text target)
    simp only [locate] at he
    split at he
    · rename_i b hb
      cases he
      rw [placeEntries, hresolve, hb]
    · cases he
  | _ => cases he

theorem store_of_plain {raw : String} {a : Address} (hg : s.graph = ∅)
    (hf : isFormulaText raw = false) : (s.store raw a).sheet.graph = ∅ := by
  rw [store]
  simp only [isFormula_process, hf, true_and, graph_process_of_plain hf, hg]
  rfl

theorem exists_mem_append_singleton {α : Type} {p : α → Prop} {l : List α} {x : α} :
    (∃ e ∈ l ++ [x], p e) ↔ (∃ e ∈ l, p e) ∨ p x := by
  simp [or_and_right, exists_or]

namespace Placing

theorem start (rows columns : Int) : Placing rows columns { rows, columns } [] [] where
  rows := rfl
  columns := rfl
  graph := rfl
  cells k c := by simp
  formulas e := by simp

variable (h : Placing rows columns s formulas done) {a : Address} {raw : String}

include h

theorem store_plain (hnew : ∀ e ∈ done, e.1.key ≠ a.key) (hf : isFormulaText raw = false) :
    Placing rows columns (s.store raw a).sheet formulas (done ++ [(a, raw)]) where
  rows := by rw [rows_store, h.rows]
  columns := by rw [columns_store, h.columns]
  graph := store_of_plain h.graph hf
  cells k c := by
    rw [find?_store, exists_mem_append_singleton, ← h.cells]
    by_cases hk : k = a.key
    · have hnone : s.cells.find? k ≠ some c := by
        intro hc
        obtain ⟨e, he, hkey, -⟩ := (h.cells k c).mp hc
        exact hnew e he (hkey.trans hk)
      rw [if_pos hk, or_iff_right hnone]
      constructor
      · intro hc
        split at hc
        · cases hc
        · rename_i hne
          exact ⟨hk.symm, hf, hne, by rw [← Option.some.inj hc, cell_process_of_plain hne hf]⟩
      · rintro ⟨-, -, hne, hc⟩
        rw [if_neg hne, hc, cell_process_of_plain hne hf]
    · rw [if_neg hk, or_iff_left]
      rintro ⟨hkey, -⟩
      exact hk hkey.symm
  formulas e := by
    rw [exists_mem_append_singleton, ← h.formulas, or_iff_left]
    rintro ⟨hformula, -⟩
    rw [hf] at hformula
    cases hformula

theorem defer_formula (hnew : ∀ e ∈ done, e.1.key ≠ a.key) (hf : isFormulaText raw = true) :
    Placing rows columns s (deferFormula a (Text.trim raw) formulas) (done ++ [(a, raw)]) where
  rows := h.rows
  columns := h.columns
  graph := h.graph
  cells k c := by
    rw [exists_mem_append_singleton, ← h.cells, or_iff_left]
    rintro ⟨-, hplain, -⟩
    rw [hf] at hplain
    cases hplain
  formulas e := by
    have hfresh : ∀ e' ∈ formulas, e'.1 ≠ a := by
      intro e' he' heq
      obtain ⟨e'', he'', -, rfl⟩ := (h.formulas e').mp he'
      exact hnew e'' he'' (congrArg Address.key heq)
    rw [deferFormula_of_new hfresh, List.mem_append, List.mem_singleton,
      exists_mem_append_singleton, ← h.formulas]
    exact or_congr_right (iff_and_self.mpr fun _ => hf)

theorem exists_placeEntries (hlocated : ∀ e ∈ entries, ∃ p, locate rows columns e = some p)
    (hkeys : ((done ++ entries.filterMap (locate rows columns)).map fun e => e.1.key).Nodup) :
    ∃ t formulas', s.placeEntries formulas entries = .ok (t, formulas') ∧
      Placing rows columns t formulas' (done ++ entries.filterMap (locate rows columns)) := by
  induction entries generalizing s formulas done with
  | nil =>
    refine ⟨s, formulas, rfl, ?_⟩
    rwa [List.filterMap_nil, List.append_nil]
  | cons e entries ih =>
    obtain ⟨⟨a, raw⟩, hp⟩ := hlocated e List.mem_cons_self
    rw [List.filterMap_cons_some hp, List.append_cons] at hkeys ⊢
    have hnew : ∀ e ∈ done, e.1.key ≠ a.key := by
      intro e he
      rw [List.map_append, List.map_append] at hkeys
      have hfirst := (List.nodup_append.mp (List.nodup_append.mp hkeys).1).2.2
      exact hfirst _ (List.mem_map_of_mem he) _ List.mem_cons_self
    have hrest : ∀ e ∈ entries, ∃ p, locate rows columns e = some p := fun e he =>
      hlocated e (List.mem_cons_of_mem _ he)
    rw [placeEntries_cons h.rows h.columns hp]
    split
    · rename_i hf
      exact ih (h.defer_formula hnew hf) hrest hkeys
    · rename_i hf
      rw [Bool.not_eq_true] at hf
      exact ih (h.store_plain hnew hf) hrest hkeys

end Placing

theorem find?_placeFormula {a : Address} {raw : String} :
    (s.placeFormula a raw).cells.find? k =
      if k = a.key then some (.formula raw "" none) else s.cells.find? k :=
  CellTable.find?_put s.cells

theorem find?_placeFormulas {fs : List (Address × String)}
    (hkeys : ∀ e ∈ fs, ∀ e' ∈ fs, e.1.key = e'.1.key → e = e') :
    (fs.foldl (fun s (a, raw) => s.placeFormula a raw) s).cells.find? k = some c ↔
      (∃ e ∈ fs, e.1.key = k ∧ c = .formula e.2 "" none) ∨
        (∀ e ∈ fs, e.1.key ≠ k) ∧ s.cells.find? k = some c := by
  induction fs generalizing s with
  | nil => simp
  | cons e fs ih =>
    have hrest : ∀ e ∈ fs, ∀ e' ∈ fs, e.1.key = e'.1.key → e = e' := fun e he e' he' =>
      hkeys e (List.mem_cons_of_mem _ he) e' (List.mem_cons_of_mem _ he')
    rw [List.foldl_cons, ih hrest, find?_placeFormula, List.exists_mem_cons_iff,
      List.forall_mem_cons]
    by_cases hk : k = e.1.key
    · rw [if_pos hk, Option.some.injEq]
      constructor
      · rintro (hlater | ⟨-, rfl⟩)
        · exact .inl (.inr hlater)
        · exact .inl (.inl ⟨hk.symm, rfl⟩)
      · rintro ((⟨-, rfl⟩ | hlater) | ⟨⟨hne, -⟩, -⟩)
        · by_cases hagain : ∃ e' ∈ fs, e'.1.key = k
          · obtain ⟨e', he', hkey⟩ := hagain
            have heq := hkeys e List.mem_cons_self e' (List.mem_cons_of_mem _ he')
              (hk.symm.trans hkey.symm)
            exact .inl ⟨e', he', hkey, by rw [heq]⟩
          · refine .inr ⟨fun e' he' hkey => hagain ⟨e', he', hkey⟩, rfl⟩
        · exact .inl hlater
        · exact absurd hk.symm hne
    · rw [if_neg hk]
      have hne : e.1.key ≠ k := Ne.symm hk
      simp only [hne, false_and, false_or, not_false_eq_true, ne_eq, true_and]

theorem placeFormulas_rest (fs : List (Address × String)) :
    (fs.foldl (fun s (a, raw) => s.placeFormula a raw) s).rows = s.rows ∧
      (fs.foldl (fun s (a, raw) => s.placeFormula a raw) s).columns = s.columns ∧
      (fs.foldl (fun s (a, raw) => s.placeFormula a raw) s).graph = s.graph := by
  induction fs generalizing s with
  | nil => exact ⟨rfl, rfl, rfl⟩
  | cons e fs ih => exact ih (s := s.placeFormula e.1 e.2)

theorem Placing.placed (h : Placing rows columns s formulas texts)
    (hkeys : (texts.map fun e => e.1.key).Nodup) :
    Placed rows columns (formulas.foldl (fun s (a, raw) => s.placeFormula a raw) s) texts := by
  have hsame : ∀ e ∈ texts, ∀ e' ∈ texts, e.1.key = e'.1.key → e = e' := fun e he e' he' =>
    List.inj_on_of_nodup_map hkeys he he'
  have hformulas : ∀ e ∈ formulas, ∀ e' ∈ formulas, e.1.key = e'.1.key → e = e' := by
    intro e he e' he' hkey
    obtain ⟨p, hp, -, rfl⟩ := (h.formulas e).mp he
    obtain ⟨p', hp', -, rfl⟩ := (h.formulas e').mp he'
    rw [hsame p hp p' hp' hkey]
  obtain ⟨hrows, hcolumns, hgraph⟩ := placeFormulas_rest (s := s) formulas
  refine ⟨hrows.trans h.rows, hcolumns.trans h.columns, hgraph.trans h.graph, fun k c => ?_⟩
  rw [find?_placeFormulas hformulas, h.cells]
  constructor
  · rintro (⟨e, he, hkey, hc⟩ | ⟨-, p, hp, hkey, hf, hne, hc⟩)
    · obtain ⟨p, hp, hf, rfl⟩ := (h.formulas e).mp he
      exact ⟨p, hp, hkey, trim_ne_empty_of_isFormulaText hf, by rw [placedCell, if_pos hf, hc]⟩
    · exact ⟨p, hp, hkey, hne, by rw [placedCell, hf, if_neg Bool.false_ne_true, hc]⟩
  · rintro ⟨p, hp, hkey, hne, hc⟩
    cases hf : isFormulaText p.2 with
    | true =>
      refine .inl ⟨(p.1, Text.trim p.2), (h.formulas _).mpr ⟨p, hp, hf, rfl⟩, hkey, ?_⟩
      rw [hc, placedCell, if_pos hf]
    | false =>
      refine .inr ⟨fun e he hkey' => ?_, p, hp, hkey, hf, hne, ?_⟩
      · obtain ⟨p', hp', hf', rfl⟩ := (h.formulas e).mp he
        rw [hsame p' hp' p hp (hkey'.trans hkey.symm), hf] at hf'
        cases hf'
      · rw [hc, placedCell, hf, if_neg Bool.false_ne_true]

theorem locate_inGrid {e : Datum × Datum} {p : Address × String}
    (h : locate rows columns e = some p) : p.1.InGrid rows columns := by
  obtain ⟨key, value⟩ := e
  cases key with
  | text target =>
    simp only [locate] at h
    split at h
    · rename_i a ha
      cases h
      exact inGrid_of_resolve ha
    · cases h
  | _ => cases h

theorem Laid.nodup_keys (h : Laid rows columns entries) :
    ((entries.filterMap (locate rows columns)).map fun e => e.1.key).Nodup := by
  have hmap : (entries.filterMap (locate rows columns)).map (fun e => e.1.key) =
      ((entries.filterMap (locate rows columns)).map (·.1)).map Address.key := by
    rw [List.map_map]
    rfl
  have hgrid : ∀ a ∈ (entries.filterMap (locate rows columns)).map (·.1),
      a.InGrid rows columns := by
    intro a ha
    obtain ⟨p, hp, rfl⟩ := List.mem_map.mp ha
    obtain ⟨e, -, he⟩ := List.mem_filterMap.mp hp
    exact locate_inGrid he
  rw [hmap]
  refine List.Nodup.map_on (fun a ha b hb hkey => ?_) h.distinct
  have ha' := hgrid a ha
  have hb' := hgrid b hb
  exact Address.key_injective_of_nonneg ha'.2.2.1 ha'.1 hb'.2.2.1 hb'.1 hkey

theorem Laid.exists_layOut (h : Laid rows columns entries) :
    ∃ s n, layOut rows columns entries = .ok (s, n) ∧
      Placed rows columns s (entries.filterMap (locate rows columns)) := by
  obtain ⟨s, formulas, hplace, hplacing⟩ := (Placing.start rows columns).exists_placeEntries
    h.located h.nodup_keys
  refine ⟨_, formulas.length, ?_, hplacing.placed h.nodup_keys⟩
  rw [layOut, hplace]
  rfl

theorem raw?_placedCell {raw : String} : (placedCell raw).raw? = some (Text.trim raw) := by
  rw [placedCell]
  split
  · rfl
  · exact raw?_plainCell

namespace Placed

variable (h : Placed rows columns s texts)

include h

theorem sound (hgrid : ∀ e ∈ texts, e.1.InGrid rows columns) : s.Sound := by
  have hlinked : s.graph.Linked := h.graph ▸ Graph.linked_empty
  have hunread (k : String) : s.graph.dependencies k = ∅ := by
    rw [h.graph]
    exact Graph.dependencies_eq_empty Std.TreeMap.getElem?_emptyc
  refine ⟨⟨hlinked, fun k c hc => ?_⟩, fun k c hc => ?_, fun k hk => absurd (hunread k) hk⟩
  · obtain ⟨e, he, hkey, -⟩ := (h.cells k c).mp hc
    exact ⟨e.1, h.rows ▸ h.columns ▸ hgrid e he, hkey⟩
  · obtain ⟨e, -, -, hne, hcell⟩ := (h.cells k c).mp hc
    refine ⟨Text.trim e.2, hcell ▸ raw?_placedCell, Text.trim_trim e.2, hne, ?_⟩
    rw [isFormulaText_trim, hcell, placedCell]
    split
    · rename_i hf
      rw [hf]
      rfl
    · rename_i hf
      rw [isFormula_plainCell, Bool.eq_false_of_not_eq_true hf]

theorem upToDate_of_plain (hs : s.Sound) (hc : s.cells.find? k = some c)
    (hf : c.isFormula = false) : s.UpToDate k := by
  obtain ⟨e, -, -, -, hcell⟩ := (h.cells k c).mp hc
  refine (hs.upToDate_iff_of_plain hc hf).mpr ⟨Text.trim e.2, hcell ▸ raw?_placedCell, ?_⟩
  rw [hcell, placedCell] at hf ⊢
  split
  · rename_i hformula
    rw [if_pos hformula] at hf
    cases hf
  · rfl

end Placed

theorem Placed.raw?_eq {t : Sheet} {texts' : List (Address × String)}
    (h : Placed rows columns s texts) (h' : Placed rows columns t texts')
    (hperm : texts'.Perm texts) (k : String) :
    (s.cells.find? k).bind Cell.raw? = (t.cells.find? k).bind Cell.raw? := by
  have hcells (c : Cell) : s.cells.find? k = some c ↔ t.cells.find? k = some c := by
    rw [h.cells, h'.cells]
    constructor
    · rintro ⟨e, he, hrest⟩
      exact ⟨e, hperm.mem_iff.mpr he, hrest⟩
    · rintro ⟨e, he, hrest⟩
      exact ⟨e, hperm.mem_iff.mp he, hrest⟩
  rw [Option.ext hcells]

theorem Laid.exists_ofSpec (h : Laid rows columns entries)
    (hspec : readSpec spec = .ok (rows, columns, entries)) :
    ∃ base n, layOut rows columns entries = .ok (base, n) ∧ base.Sound ∧
      Placed rows columns base (entries.filterMap (locate rows columns)) ∧
      ofSpec spec = .ok (base.recalculateAll.1,
        base.recalculateAll.2 ++ [.loaded base.recalculateAll.1.cells.size n]) := by
  obtain ⟨base, n, hlay, hplaced⟩ := h.exists_layOut
  refine ⟨base, n, hlay, hplaced.sound fun p hp => ?_, hplaced, ?_⟩
  · obtain ⟨e, -, he⟩ := List.mem_filterMap.mp hp
    exact locate_inGrid he
  · rw [ofSpec_eq_bind, hspec]
    change (layOut rows columns entries >>= _) = _
    rw [hlay]
    rfl

/-- A description that names different cells of the grid is loaded. The sheet is settled exactly
if each cell that the second pass overtook is up to date all the same, and when that pass found an
order of dependencies, none is overtaken unless the pass made some formula read other cells. Two
orders of the entries that both end up settled end up alike. -/
theorem exists_ofSpec_settled_iff (hspec : readSpec spec = .ok (rows, columns, entries))
    (hlaid : Laid rows columns entries) :
    ∃ base n notices, layOut rows columns entries = .ok (base, n) ∧
      ofSpec spec = .ok (base.recalculateAll.1, notices) ∧
      (base.recalculateAll.1.Settled ↔
        ∀ k ∈ base.secondOrder,
          Overtaken base.learned base.recalculateAll.1 base.secondOrder k →
            base.recalculateAll.1.UpToDate k) ∧
      (base.learned.graph.topologicalOrder? base.formulaKeys = some base.secondOrder →
        ∀ k ∈ base.secondOrder,
          Overtaken base.learned base.recalculateAll.1 base.secondOrder k →
            ∃ d ∈ base.secondOrder, ReflTransGen base.recalculateAll.1.graph.Reads k d ∧
              base.learned.graph.dependencies d ≠ base.recalculateAll.1.graph.dependencies d) ∧
      ∀ spec' entries' s' notices', readSpec spec' = .ok (rows, columns, entries') →
        entries'.Perm entries → ofSpec spec' = .ok (s', notices') →
        base.recalculateAll.1.Settled → s'.Settled → ∀ k, SameAt base.recalculateAll.1 s' k := by
  obtain ⟨base, n, hlay, hsound, hplaced, hof⟩ := hlaid.exists_ofSpec hspec
  refine ⟨base, n, _, hlay, hof, ?_, fun horder k hk hover => ?_, ?_⟩
  · exact hsound.settled_recalculateAll_iff fun k c hc hf => hplaced.upToDate_of_plain hsound hc hf
  · have hordered := Graph.ordered_of_topologicalOrder? hsound.sound_learned.linked horder
    exact exists_relinked_of_overtaken hordered hk hover
  · intro spec' entries' s' notices' hspec' hperm hof' hsettled hsettled'
    obtain ⟨base', n', -, hsound', hplaced', hof''⟩ := (hlaid.perm hperm).exists_ofSpec hspec'
    rw [hof'', Except.ok.injEq, Prod.mk.injEq] at hof'
    obtain ⟨rfl, -⟩ := hof'
    refine SameTexts.sameAt ⟨hsound.sound_recalculateAll, hsettled,
      hsound'.sound_recalculateAll, hsettled', fun k => ?_⟩
    rw [hsound.raw?_recalculateAll, hsound'.raw?_recalculateAll]
    exact hplaced.raw?_eq hplaced' (hperm.filterMap _) k

/-- In a chain that is described from its start, the first pass meets no error and records all. -/
theorem settled_ofSpec_chain :
    ∃ s notices, ofSpec (.mapping [(.text "cells", .mapping [(.text "A1", .text "3"),
      (.text "B1", .text "=A1"), (.text "C1", .text "=B1*2")])]) = .ok (s, notices) ∧
      s.Settled := by
  let entries : List (Datum × Datum) :=
    [(.text "A1", .text "3"), (.text "B1", .text "=A1"), (.text "C1", .text "=B1*2")]
  have hlaid : Laid 100 26 entries := by decide +kernel
  let keys := ["r0c1", "r0c2"]
  have hspec : readSpec (.mapping [(.text "cells", .mapping entries)]) = .ok (100, 26, entries) :=
    rfl
  obtain ⟨base, n, notices, hlay, hof, hiff, hrelinked, -⟩ := exists_ofSpec_settled_iff hspec hlaid
  have hstable : (layOut 100 26 entries).toOption.all fun (base, _) =>
      (base.cells.slots.toList.Pairwise fun x y => x.2.serial ≤ y.2.serial) ∧
        (base.cells.slots.toList.filter (·.2.cell.isFormula)).map (·.1) = keys ∧
        (base.restore keys).1.graph.topologicalOrder? keys = some keys ∧
        ∀ d ∈ keys, (base.restore keys).1.graph.dependencies d =
          ((base.restore keys).1.restore keys).1.graph.dependencies d := by
    decide +kernel
  rw [hlay] at hstable
  obtain ⟨hserial, hkeys, horder, hstable⟩ := of_decide_eq_true hstable
  rw [← formulaKeys_of_pairwise hserial] at hkeys
  have hlearned : base.learned = (base.restore keys).1 := by rw [learned, hkeys]
  have hsecond : base.secondOrder = keys := by
    rw [secondOrder, hlearned, hkeys, horder, Option.getD_some]
  have hsheet : base.recalculateAll.1 = ((base.restore keys).1.restore keys).1 := by
    rw [sheet_recalculateAll, hsecond, hlearned]
  refine ⟨_, notices, hof, hiff.mpr fun k hk hover => ?_⟩
  rw [hsecond, hlearned, hsheet, hkeys] at hrelinked
  rw [hsecond] at hk hover
  rw [hlearned, hsheet] at hover
  obtain ⟨d, hd, -, hne⟩ := hrelinked horder k hk hover
  exact absurd (hstable d hd) hne

/-- Nothing here reads itself. The first pass stops at the division by the empty `B1`, so the second
one, in the order of what was recorded, takes `A1` before `C1`. -/
theorem not_settled_after_error :
    ∃ spec entries, readSpec spec = .ok (100, 26, entries) ∧ Laid 100 26 entries ∧
      ∃ s notices, ofSpec spec = .ok (s, notices) ∧ s.graph.cyclic = [] ∧
        (s.cells.find? "r0c0").map Cell.display = some "1" ∧ ¬ s.Settled := by
  let entries : List (Datum × Datum) := [(.text "A1", .text "=1/B1+C1"), (.text "B1", .text "=1"),
    (.text "C1", .text "=D1"), (.text "D1", .text "=5")]
  have hspec : readSpec (.mapping [(.text "cells", .mapping entries)]) = .ok (100, 26, entries) :=
    rfl
  have hlaid : Laid 100 26 entries := by decide +kernel
  let keys := ["r0c0", "r0c1", "r0c2", "r0c3"]
  let order := ["r0c1", "r0c3", "r0c0", "r0c2"]
  obtain ⟨base, n, hlay, -, -, hof⟩ := hlaid.exists_ofSpec hspec
  have hstale : (layOut 100 26 entries).toOption.all fun (base, _) =>
      (base.cells.slots.toList.Pairwise fun x y => x.2.serial ≤ y.2.serial) ∧
        (base.cells.slots.toList.filter (·.2.cell.isFormula)).map (·.1) = keys ∧
        (base.restore keys).1.graph.topologicalOrder? keys = some order ∧
        ((base.restore keys).1.restore order).1.graph.cyclic = [] ∧
        (((base.restore keys).1.restore order).1.cells.find? "r0c0").map Cell.display = some "1" ∧
        ¬ ((base.restore keys).1.restore order).1.Settled := by
    decide +kernel
  rw [hlay] at hstale
  obtain ⟨hserial, hkeys, horder, hstale⟩ := of_decide_eq_true hstale
  rw [← formulaKeys_of_pairwise hserial] at hkeys
  refine ⟨_, entries, hspec, hlaid, _, _, hof, ?_⟩
  rw [sheet_recalculateAll, secondOrder, learned, hkeys, horder, Option.getD_some]
  exact hstale

end Gridcalc.Sheet
