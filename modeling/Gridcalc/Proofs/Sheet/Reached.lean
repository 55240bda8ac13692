import Gridcalc.Proofs.Formula.Mentions
import Gridcalc.Proofs.Outcome
import Gridcalc.Proofs.Sheet.History
import Gridcalc.Proofs.Sheet.Load

/-! # What holds of every sheet

Whatever is done to an empty or a loaded sheet, each cell stays in the grid and is what processing
its text made of it at some time. It need not be up to date, but what it is and what it is known
to read fit together.
-/

namespace Gridcalc.Sheet

variable {s t : Sheet} {spec : Datum} {rows columns : Int} {k : String} {a : Address}
  {order : List String} {rounds : List Round} {entries : List (Datum × Datum)}
  {formulas formulas' : List (Address × String)} {notices : List Notice}

structure Regular (s : Sheet) : Prop extends s.Sound where
  made : ∀ k, s.Made k

/-- Formulas may be in place that have not been processed yet. -/
structure Prepared (s : Sheet) : Prop extends s.Sound where
  made : ∀ k, k ∉ s.formulaKeys → s.Made k

section Rounds

theorem Edited.regular (h : Edited s t k) (hs : s.Regular) : t.Regular := by
  refine ⟨h.sound, fun x => ?_⟩
  by_cases hx : x = k
  · exact hx ▸ h.made
  · exact (hs.made x).of_sameAt (h.elsewhere x hx)

theorem Pass.regular_refreshAll (h : Pass s order) (hn : order.Nodup)
    (hrest : ∀ k, k ∉ order → s.Made k) : (s.refreshAll order).Regular := by
  refine ⟨h.sound_refreshAll, fun k => ?_⟩
  by_cases hk : k ∈ order
  · obtain ⟨f, now, hturn⟩ := h.exists_turn hn hk
    exact made_of_evaluation hturn.cell_end hturn.dependencies_end
  · exact (hrest k hk).of_sameAt (h.sameAt_refreshAll hk)

theorem regular_of_empty (hcells : s.cells = .empty) (hgraph : s.graph = ∅) : s.Regular := by
  refine ⟨sound_of_empty hcells hgraph, fun k => made_of_none ?_⟩
  rw [hcells, CellTable.find?_empty]

theorem Led.regular (h : Led s rounds t) (hs : s.Regular) : t.Regular := by
  induction h with
  | nil s => exact hs
  | @edit s t u k rounds h _ ih =>
    have hnodup := Graph.nodup_recalculationOrder h.sound.linked [k]
    exact ih ((pass_recalculation h.sound [k]).regular_refreshAll hnodup
      fun x _ => (h.regular hs).made x)
  | process h hn _ _ ih => exact ih (h.regular_refreshAll hn fun k _ => hs.made k)
  | clear _ ih => exact ih (regular_of_empty rfl rfl)

end Rounds

section Loading

/-- The trimmed text of a formula, for a cell of the grid. -/
structure Deferred (rows columns : Int) (e : Address × String) : Prop where
  placed : e.1.InGrid rows columns
  trimmed : Text.trim e.2 = e.2
  formula : isFormulaText e.2 = true

theorem deferred_deferFormula {f : String} (h : Deferred rows columns (a, f))
    (hformulas : ∀ e ∈ formulas, Deferred rows columns e) :
    ∀ e ∈ deferFormula a f formulas, Deferred rows columns e := by
  induction formulas with
  | nil =>
    intro e he
    rw [List.mem_singleton.mp he]
    exact h
  | cons e' formulas ih =>
    obtain ⟨hfirst, hrest⟩ := List.forall_mem_cons.mp hformulas
    rw [deferFormula]
    split
    · exact List.forall_mem_cons.mpr ⟨h, hrest⟩
    · exact List.forall_mem_cons.mpr ⟨hfirst, ih hrest⟩

theorem regular_placeEntries (hs : s.Regular)
    (hformulas : ∀ e ∈ formulas, Deferred s.rows s.columns e)
    (h : s.placeEntries formulas entries = .ok (t, formulas')) :
    t.Regular ∧ ∀ e ∈ formulas', Deferred t.rows t.columns e := by
  induction entries generalizing s formulas with
  | nil =>
    cases h
    exact ⟨hs, hformulas⟩
  | cons e entries ih =>
    obtain ⟨key, value⟩ := e
    cases key with
    | text target =>
      rw [placeEntries] at h
      simp only at h
      split at h
      · cases h
      · rename_i a ha
        have hgrid := inGrid_of_resolve ha
        split at h
        · rename_i hf
          have hdeferred : Deferred s.rows s.columns (a, Text.trim value.display) :=
            ⟨hgrid, Text.trim_trim _, (isFormulaText_trim _).trans hf⟩
          exact ih hs (deferred_deferFormula hdeferred hformulas) h
        · refine ih ((edited_store value.display hs.toSound hgrid).regular hs) ?_ h
          rwa [rows_store, columns_store]
    | _ => cases h

theorem Prepared.placeFormula {f : String} (hs : s.Prepared)
    (h : Deferred s.rows s.columns (a, f)) : (s.placeFormula a f).Prepared := by
  obtain ⟨hgrid, htrim : Text.trim f = f, hf⟩ := h
  have hsame {x : String} (hx : x ≠ a.key) : SameAt s (s.placeFormula a f) x :=
    ⟨by rw [find?_placeFormula, if_neg hx], rfl⟩
  have hself : (s.placeFormula a f).cells.find? a.key = some (.formula f "" none) := by
    rw [find?_placeFormula, if_pos rfl]
  refine ⟨⟨⟨hs.linked, fun x c hc => ?_⟩, fun x c hc => ?_, fun x hx => ?_⟩, fun x hx => ?_⟩
  · by_cases hxa : x = a.key
    · exact ⟨a, hgrid, hxa.symm⟩
    · exact hs.placed x c ((hsame hxa).cell.trans hc)
  · by_cases hxa : x = a.key
    · rw [hxa, hself, Option.some.injEq] at hc
      exact hc ▸ ⟨f, rfl, htrim, htrim ▸ trim_ne_empty_of_isFormulaText hf, hf.symm⟩
    · exact hs.typed x c ((hsame hxa).cell.trans hc)
  · by_cases hxa : x = a.key
    · exact ⟨_, hxa ▸ hself, rfl⟩
    · rw [← (hsame hxa).cell]
      exact hs.sourced x hx
  · -- Nothing is asked of `a` any more, since it holds a formula now.
    have hxa : x ≠ a.key := by
      rintro rfl
      exact hx (mem_formulaKeys_iff.mpr ⟨_, hself, rfl⟩)
    refine (hs.made x fun hold => hx ?_).of_sameAt (hsame hxa)
    rw [mem_formulaKeys_iff] at hold ⊢
    rwa [← (hsame hxa).cell]

theorem Prepared.placeFormulas (hs : s.Prepared)
    (hformulas : ∀ e ∈ formulas, Deferred s.rows s.columns e) :
    (formulas.foldl (fun s (a, raw) => s.placeFormula a raw) s).Prepared := by
  induction formulas generalizing s with
  | nil => exact hs
  | cons e formulas ih =>
    obtain ⟨hfirst, hrest⟩ := List.forall_mem_cons.mp hformulas
    exact ih (hs.placeFormula hfirst) hrest

theorem prepared_layOut {n : Nat} (h : layOut rows columns entries = .ok (s, n)) :
    s.Prepared := by
  obtain ⟨⟨base, formulas⟩, hplace, h⟩ := exists_of_bind_eq_ok h
  cases h
  obtain ⟨hbase, hformulas⟩ := regular_placeEntries (regular_of_empty rfl rfl)
    (fun e he => absurd he List.not_mem_nil) hplace
  have hprepared : base.Prepared := ⟨hbase.toSound, fun k _ => hbase.made k⟩
  exact hprepared.placeFormulas hformulas

theorem Prepared.regular_recalculateAll (hs : s.Prepared) : s.recalculateAll.1.Regular := by
  have hlearned : s.learned.Regular := by
    rw [hs.learned_eq]
    exact hs.pass_formulaKeys.regular_refreshAll (nodup_formulaKeys s) hs.made
  rw [hs.recalculateAll_eq]
  exact hs.pass_secondOrder.regular_refreshAll hs.nodup_secondOrder fun k _ => hlearned.made k

theorem regular_ofSpec (h : ofSpec spec = .ok (s, notices)) : s.Regular := by
  rw [ofSpec_eq_bind] at h
  obtain ⟨⟨rows, columns, entries⟩, -, h⟩ := exists_of_bind_eq_ok h
  obtain ⟨⟨base, n⟩, hlay, h⟩ := exists_of_bind_eq_ok h
  cases h
  exact (prepared_layOut hlay).regular_recalculateAll

end Loading

section Mentions

variable {f raw shown : String} {v : Verdict} {cycle : Option (List String)} {value : Option Float}

theorem exists_mentions_of_mem_inputs {d : String} (hd : d ∈ s.inputs f) :
    ∃ tree, Formula.parse f = .ok tree ∧ d ∈ tree.mentions.map readKey := by
  obtain ⟨ref, href, rfl⟩ := List.mem_map.mp (KeySet.mem_ofList.mp hd)
  cases hparse : Formula.parse f with
  | error e =>
    rw [evaluation, Formula.references_compute_of_error hparse] at href
    cases href
  | ok tree =>
    have hmention := Formula.mem_mentions_of_mem_references hparse href
    exact ⟨tree, rfl, List.mem_map_of_mem hmention⟩

theorem exists_inputs_eq_mentions (h : (s.evaluation f).verdict.isValue = true) :
    ∃ tree, Formula.parse f = .ok tree ∧ s.inputs f = .ofList (tree.mentions.map readKey) := by
  obtain ⟨tree, hparse, href⟩ := Formula.exists_mem_references_iff h
  refine ⟨tree, hparse, KeySet.ext fun d => ?_⟩
  rw [inputs, KeySet.mem_ofList, KeySet.mem_ofList, List.mem_map, List.mem_map]
  exact exists_congr fun ref => and_congr_left' (href ref)

theorem isValue_of_formulaCell (h : formulaCell f v cycle = .formula raw shown value) :
    f = raw ∧ v.isValue = true := by
  cases v <;> cases cycle <;> cases h <;> exact ⟨rfl, rfl⟩

end Mentions

/-- How the cells, and what they are known to read, fit the grid, the texts and each other. -/
structure WellFormed (s : Sheet) : Prop where
  placed : ∀ k c, s.cells.find? k = some c →
    ∃ a : Address, a.InGrid s.rows s.columns ∧ a.key = k
  typed : ∀ k c, s.cells.find? k = some c → c ≠ .empty ∧ c.Typed
  mentioned : ∀ k d, s.graph.Reads k d → ∃ f tree, s.formula? k = some f ∧
    Formula.parse f = .ok tree ∧ d ∈ tree.mentions.map readKey
  complete : ∀ k raw shown value, s.cells.find? k = some (.formula raw shown value) →
    ∃ tree, Formula.parse raw = .ok tree ∧
      s.graph.dependencies k = .ofList (tree.mentions.map readKey)
  /-- The type of cells carries this: a fault is what an error cell has, and its code is shown. -/
  faulty : ∀ k c, s.cells.find? k = some c → (c.kind = "error" ↔ ∃ e, c.fault? = some e) ∧
    ∀ e, c.fault? = some e → c.display = e.code
  plain : ∀ k c, s.cells.find? k = some c → c.isFormula = false →
    ∃ raw, c.raw? = some raw ∧ ∀ (u : Sheet) (a : Address), (u.process raw a).cell = c

theorem Regular.wellFormed (hs : s.Regular) : s.WellFormed where
  placed := hs.placed
  typed k c hc := by
    have htyped := hs.typed k c hc
    refine ⟨?_, htyped⟩
    rintro rfl
    obtain ⟨raw, hraw, -⟩ := htyped
    cases hraw
  mentioned k d hd := by
    obtain ⟨f, hf⟩ := hs.exists_formula?_of_reads hd
    obtain ⟨u, cycle, -, hdeps⟩ := (hs.made k).formula f hf
    rw [Graph.Reads, hdeps] at hd
    obtain ⟨tree, hparse, hmention⟩ := exists_mentions_of_mem_inputs hd
    exact ⟨f, tree, hf, hparse, hmention⟩
  complete k raw shown value hc := by
    obtain ⟨f, hf⟩ := hs.exists_formula? hc rfl
    obtain ⟨u, cycle, hcell, hdeps⟩ := (hs.made k).formula f hf
    rw [hc, Option.some.injEq] at hcell
    obtain ⟨rfl, hvalue⟩ := isValue_of_formulaCell hcell.symm
    obtain ⟨tree, hparse, hinputs⟩ := exists_inputs_eq_mentions hvalue
    exact ⟨tree, hparse, hdeps.trans hinputs⟩
  faulty k c _ := by
    rw [← c.fault?.isSome_iff_exists]
    cases c with
    | error raw e =>
      refine ⟨iff_of_true rfl rfl, fun e' he => ?_⟩
      cases he
      rfl
    | _ => exact ⟨by simp [Cell.kind, Cell.fault?], fun e he => by cases he⟩
  plain k c hc hf := by
    obtain ⟨raw, hraw, hcell⟩ := (hs.made k).plain c hc hf
    obtain ⟨raw', hraw', htrim, hne, hkind⟩ := hs.typed k c hc
    rw [hraw, Option.some.injEq] at hraw'
    subst hraw'
    refine ⟨raw, hraw, fun u a => ?_⟩
    rw [cell_process_of_plain (htrim.symm ▸ hne) (hkind ▸ hf), htrim, hcell]

/-- Sheets that come from an empty or a loaded one, whatever was done to it. -/
inductive Reached : Sheet → Prop
  | blank (rows columns : Int) : Reached { rows, columns }
  | loaded {spec : Datum} {s : Sheet} {notices : List Notice}
      (h : ofSpec spec = .ok (s, notices)) : Reached s
  | act {s : Sheet} (h : Reached s) (action : Action) : Reached (action.run s)

namespace Reached

theorem regular (h : s.Reached) : s.Regular := by
  induction h with
  | blank rows columns => exact regular_of_empty rfl rfl
  | loaded h => exact regular_ofSpec h
  | act _ action ih => exact (action.led ih.toSound).regular ih

theorem runAll (h : s.Reached) (actions : List Action) : (s.runAll actions).Reached :=
  List.foldlRecOn actions _ h fun _ ht action _ => ht.act action

end Reached

/-- Nothing that can be done to a sheet, whether it succeeds or fails, takes it out of shape. -/
theorem wellFormed_of_reached (h : s.Reached) : s.WellFormed := h.regular.wellFormed

/-- The second edit fails, and the fill makes `A2` read itself. -/
theorem wellFormed_after_failure :
    ∃ s, s = ({ rows := 3, columns := 3 } : Sheet).runAll
      [.edit (.text "A1") (.set "=SUM(A2:C2)/D9"), .edit (.text "D9") (.set "1"),
        .fill (.text "A1") (.text "A2") (.text "A3"), .edit (.text "A2") (.set "=1+A2"),
        .recalculateAll] ∧ s.Reached ∧ s.WellFormed := by
  have h := (Reached.blank 3 3).runAll
    [.edit (.text "A1") (.set "=SUM(A2:C2)/D9"), .edit (.text "D9") (.set "1"),
      .fill (.text "A1") (.text "A2") (.text "A3"), .edit (.text "A2") (.set "=1+A2"),
      .recalculateAll]
  exact ⟨_, rfl, h, wellFormed_of_reached h⟩

end Gridcalc.Sheet
