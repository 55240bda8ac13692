import Gridcalc.Proofs.Sheet.Load
import Gridcalc.Proofs.Sheet.Reached

/-! # One entry of a description

Whatever else a description holds, a plain text that is alone in naming its cell comes through: the
other entries leave the cell as it is, and the passes over the formulas do not touch it.
-/

namespace Gridcalc.Sheet

variable {s t : Sheet} {spec : Datum} {rows columns : Int} {k raw : String} {a : Address}
  {e : Datum × Datum} {entries before after : List (Datum × Datum)}
  {formulas : List (Address × String)}

/-- None of the entries names the cell of the key. -/
def Apart (rows columns : Int) (k : String) (entries : List (Datum × Datum)) : Prop :=
  ∀ e ∈ entries, ∀ p, locate rows columns e = some p → p.1.key ≠ k

theorem forall_mem_deferFormula (ha : a.key ≠ k) (h : ∀ e ∈ formulas, e.1.key ≠ k) :
    ∀ e ∈ deferFormula a raw formulas, e.1.key ≠ k := by
  induction formulas with
  | nil => simpa [deferFormula] using ha
  | cons e formulas ih =>
    obtain ⟨hfirst, hrest⟩ := List.forall_mem_cons.mp h
    rw [deferFormula]
    split
    · exact List.forall_mem_cons.mpr ⟨ha, hrest⟩
    · exact List.forall_mem_cons.mpr ⟨hfirst, ih hrest⟩

/-- Entries that name cells of the grid are placed, and each leaves the cells that it does not name
as they are. -/
theorem exists_placeEntries_apart (formulas : List (Address × String))
    (hrows : s.rows = rows) (hcolumns : s.columns = columns)
    (hlocated : ∀ e ∈ entries, ∃ p, locate rows columns e = some p) :
    ∃ t formulas', s.placeEntries formulas entries = .ok (t, formulas') ∧ t.rows = rows ∧
      t.columns = columns ∧ ∀ k, Apart rows columns k entries →
        t.cells.find? k = s.cells.find? k ∧
          ((∀ e ∈ formulas, e.1.key ≠ k) → ∀ e ∈ formulas', e.1.key ≠ k) := by
  induction entries generalizing s formulas with
  | nil =>
    exact ⟨s, formulas, rfl, hrows, hcolumns, fun k _ => ⟨rfl, id⟩⟩
  | cons e entries ih =>
    obtain ⟨⟨⟨a, raw⟩, he⟩, hrest⟩ := List.forall_mem_cons.mp hlocated
    have hapart : ∀ k, Apart rows columns k (e :: entries) →
        a.key ≠ k ∧ Apart rows columns k entries := by
      intro k h
      exact ⟨h e List.mem_cons_self (a, raw) he, fun e' he' => h e' (List.mem_cons_of_mem e he')⟩
    rw [placeEntries_cons hrows hcolumns he]
    split
    · obtain ⟨t, formulas', hplace, ht, ht', hframe⟩ :=
        ih (deferFormula a (Text.trim raw) formulas) hrows hcolumns hrest
      refine ⟨t, formulas', hplace, ht, ht', fun k hk => ?_⟩
      obtain ⟨hne, hk⟩ := hapart k hk
      obtain ⟨hcells, hformulas⟩ := hframe k hk
      exact ⟨hcells, fun h => hformulas (forall_mem_deferFormula hne h)⟩
    · obtain ⟨t, formulas', hplace, ht, ht', hframe⟩ :=
        ih (s := (s.store raw a).sheet) formulas (rows_store.trans hrows)
          (columns_store.trans hcolumns) hrest
      refine ⟨t, formulas', hplace, ht, ht', fun k hk => ?_⟩
      obtain ⟨hne, hk⟩ := hapart k hk
      obtain ⟨hcells, hformulas⟩ := hframe k hk
      rw [find?_store, if_neg hne.symm] at hcells
      exact ⟨hcells, hformulas⟩

theorem placeEntries_append :
    s.placeEntries formulas (before ++ after) =
      (s.placeEntries formulas before).bind fun p => p.1.placeEntries p.2 after := by
  induction before generalizing s formulas with
  | nil => rfl
  | cons e before ih =>
    obtain ⟨key, value⟩ := e
    cases key with
    | text target =>
      rw [List.cons_append, placeEntries, placeEntries]
      split
      · rfl
      · dsimp only
        split
        · exact ih
        · exact ih
    | _ => rfl

theorem find?_placeFormulas_of_ne (h : ∀ e ∈ formulas, e.1.key ≠ k) :
    (formulas.foldl (fun s (a, raw) => s.placeFormula a raw) s).cells.find? k =
      s.cells.find? k := by
  induction formulas generalizing s with
  | nil => rfl
  | cons e formulas ih =>
    obtain ⟨hfirst, hrest⟩ := List.forall_mem_cons.mp h
    rw [List.foldl_cons, ih hrest, find?_placeFormula, if_neg hfirst.symm]

theorem exists_layOut_entry
    (hlocated : ∀ e' ∈ before ++ e :: after, ∃ p, locate rows columns e' = some p)
    (he : locate rows columns e = some (a, raw)) (hf : isFormulaText raw = false)
    (hbefore : Apart rows columns a.key before) (hafter : Apart rows columns a.key after) :
    ∃ base n, layOut rows columns (before ++ e :: after) = .ok (base, n) ∧
      ∀ u : Sheet, base.cellAt a = (u.process raw a).cell := by
  obtain ⟨hlocatedBefore, hlocatedRest⟩ := List.forall_mem_append.mp hlocated
  obtain ⟨-, hlocatedAfter⟩ := List.forall_mem_cons.mp hlocatedRest
  obtain ⟨s, formulas, hplace, hrows, hcolumns, hframe⟩ := exists_placeEntries_apart
    (s := { rows, columns }) [] rfl rfl hlocatedBefore
  obtain ⟨t, formulas', hplace', -, -, hframe'⟩ := exists_placeEntries_apart
    (s := (s.store raw a).sheet) formulas (rows_store.trans hrows)
    (columns_store.trans hcolumns) hlocatedAfter
  have hnone := (hframe a.key hbefore).2 (fun _ h => absurd h List.not_mem_nil)
  obtain ⟨hcells, hformulas⟩ := hframe' a.key hafter
  have hentry := placeEntries_cons hrows hcolumns he formulas after
  rw [hf, if_neg Bool.false_ne_true, hplace'] at hentry
  refine ⟨formulas'.foldl (fun s (a, raw) => s.placeFormula a raw) t, formulas'.length, ?_,
    fun u => ?_⟩
  · rw [layOut, placeEntries_append, hplace]
    change (s.placeEntries formulas (e :: after) >>= _) = _
    rw [hentry]
    simp only [bind, Except.bind, pure, Except.pure]
  · rw [cellAt, find?_placeFormulas_of_ne (hformulas hnone), hcells, find?_store, if_pos rfl]
    by_cases hblank : Text.trim raw = ""
    · rw [if_pos hblank, process_of_blank hblank]
      rfl
    · rw [if_neg hblank, cell_process_of_plain hblank hf, cell_process_of_plain hblank hf,
        Option.getD_some]

theorem isFormula_cell_process_of_plain (hf : isFormulaText raw = false) :
    (s.process raw a).cell.isFormula = false := by
  by_cases hblank : Text.trim raw = ""
  · rw [process_of_blank hblank]
    rfl
  · rw [cell_process_of_plain hblank hf, isFormula_plainCell]

/-- A plain text whose entry is alone in naming its cell makes that cell of the loaded sheet. -/
theorem exists_ofSpec_entry
    (hspec : readSpec spec = .ok (rows, columns, before ++ e :: after))
    (hlocated : ∀ e' ∈ before ++ e :: after, ∃ p, locate rows columns e' = some p)
    (he : locate rows columns e = some (a, raw)) (hf : isFormulaText raw = false)
    (hbefore : Apart rows columns a.key before) (hafter : Apart rows columns a.key after) :
    ∃ s notices, ofSpec spec = .ok (s, notices) ∧
      ∀ u : Sheet, s.cellAt a = (u.process raw a).cell := by
  obtain ⟨base, n, hlay, hcell⟩ := exists_layOut_entry hlocated he hf hbefore hafter
  refine ⟨base.recalculateAll.1,
    base.recalculateAll.2 ++ [.loaded base.recalculateAll.1.cells.size n], ?_, fun u => ?_⟩
  · rw [ofSpec_eq_bind, hspec]
    change (layOut rows columns (before ++ e :: after) >>= _) = _
    rw [hlay]
    rfl
  · have hkey : a.key ∉ base.formulaKeys := by
      intro hmem
      obtain ⟨c, hc, hformula⟩ := mem_formulaKeys_iff.mp hmem
      have hplain := hcell u
      rw [cellAt, hc, Option.getD_some] at hplain
      rw [hplain, isFormula_cell_process_of_plain hf] at hformula
      cases hformula
    have hsame := ((prepared_layOut hlay).toSound.sameAt_recalculateAll hkey).cell
    rw [← hcell u, cellAt, cellAt, hsame]

end Gridcalc.Sheet
