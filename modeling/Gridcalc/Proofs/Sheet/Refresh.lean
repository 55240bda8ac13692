import Gridcalc.Proofs.Sheet.Settled

/-! # Processing formulas again

What one formula cell becomes when it is processed again, and what a row of formula cells become
one after the other. Nothing else on the sheet is touched, and all texts stay.
-/

namespace Gridcalc.Sheet

variable {s : Sheet} {k x f : String} {ks : List String}

/-- Processes the cell of the key again and puts it in its place. -/
def refresh (s : Sheet) (k : String) : Sheet :=
  match s.again? k with
  | some p => { s with cells := s.cells.put k p.cell, graph := p.graph }
  | none => s

def refreshAll (s : Sheet) (ks : List String) : Sheet := ks.foldl refresh s

namespace Sound

section Refresh

variable (hs : s.Sound) (hf : s.formula? k = some f)

include hs hf

theorem dependencies_refresh :
    (s.refresh k).graph.dependencies x = if x = k then s.inputs f else s.graph.dependencies x := by
  obtain ⟨a, rfl, hagain⟩ := hs.again?_of_formula hf
  rw [refresh, hagain]
  exact dependencies_processFormula

theorem find?_refresh :
    (s.refresh k).cells.find? x =
      if x = k then
        some (formulaCell f (s.evaluation f).verdict ((s.refresh k).graph.findCycle k))
      else s.cells.find? x := by
  obtain ⟨a, rfl, hagain⟩ := hs.again?_of_formula hf
  rw [refresh, hagain]
  exact CellTable.find?_put s.cells

theorem sameAt_refresh (hx : x ≠ k) : SameAt s (s.refresh k) x where
  cell := by rw [hs.find?_refresh hf, if_neg hx]
  dependencies := by rw [hs.dependencies_refresh hf, if_neg hx]

theorem formula?_refresh : (s.refresh k).formula? x = s.formula? x := by
  by_cases hx : x = k
  · rw [hx, hf]
    apply formula?_of_formulaCell
    rw [hs.find?_refresh hf, if_pos rfl]
  · exact (hs.sameAt_refresh hf hx).formula?.symm

theorem raw?_refresh :
    ((s.refresh k).cells.find? x).bind Cell.raw? = (s.cells.find? x).bind Cell.raw? := by
  by_cases hx : x = k
  · obtain ⟨c, hc, hraw, -⟩ := hs.formula?_eq_some_iff.mp hf
    rw [hx, hs.find?_refresh hf, if_pos rfl, Option.bind_some, raw?_formulaCell, hc,
      Option.bind_some, hraw]
  · rw [(hs.sameAt_refresh hf hx).cell]

theorem linked_refresh : (s.refresh k).graph.Linked := by
  obtain ⟨a, rfl, hagain⟩ := hs.again?_of_formula hf
  rw [refresh, hagain]
  exact Graph.linked_update _ _ hs.linked

theorem size_refresh : (s.refresh k).rows = s.rows ∧ (s.refresh k).columns = s.columns := by
  obtain ⟨a, rfl, hagain⟩ := hs.again?_of_formula hf
  rw [refresh, hagain]
  exact ⟨rfl, rfl⟩

theorem sound_refresh : (s.refresh k).Sound := by
  obtain ⟨c, hc, hraw, htrim, hformula, htext⟩ := hs.formula?_eq_some_iff.mp hf
  obtain ⟨hrows, hcolumns⟩ := hs.size_refresh hf
  refine ⟨⟨hs.linked_refresh hf, fun x c' hc' => ?_⟩, fun x c' hc' => ?_, fun x hx => ?_⟩
  · rw [hrows, hcolumns]
    by_cases hxk : x = k
    · exact hxk ▸ hs.placed k c hc
    · rw [(hs.sameAt_refresh hf hxk).cell.symm] at hc'
      exact hs.placed x c' hc'
  · by_cases hxk : x = k
    · rw [hs.find?_refresh hf, if_pos hxk, Option.some.injEq] at hc'
      refine ⟨f, hc' ▸ raw?_formulaCell, htrim, ?_, ?_⟩
      · exact htrim ▸ trim_ne_empty_of_isFormulaText htext
      · rw [htext, ← hc', isFormula_formulaCell]
    · rw [(hs.sameAt_refresh hf hxk).cell.symm] at hc'
      exact hs.typed x c' hc'
  · by_cases hxk : x = k
    · exact ⟨_, by rw [hs.find?_refresh hf, if_pos hxk], isFormula_formulaCell⟩
    · rw [(hs.sameAt_refresh hf hxk).dependencies.symm] at hx
      rw [(hs.sameAt_refresh hf hxk).cell.symm]
      exact hs.sourced x hx

theorem exists_refresh :
    ∃ c a, s.cells.find? k = some c ∧ c.raw? = some f ∧ Address.ofKey? k = some a ∧ a.key = k ∧
      f ≠ "" ∧ isFormulaText f = true ∧
      s.refresh k =
        { s with cells := s.cells.put k (s.process f a).cell, graph := (s.process f a).graph } := by
  obtain ⟨c, hc, hraw, htrim, -, htext⟩ := hs.formula?_eq_some_iff.mp hf
  obtain ⟨a, hkey, -, rfl⟩ := hs.ofKey? hc
  refine ⟨c, a, hc, hraw, hkey, rfl, htrim ▸ trim_ne_empty_of_isFormulaText htext, htext, ?_⟩
  rw [refresh, again?, hc, Option.bind_some, hraw, Option.bind_some, hkey]
  rfl

end Refresh

end Sound

/-- Formula cells of a sheet, to be processed again one after the other. -/
structure Pass (s : Sheet) (ks : List String) : Prop where
  sound : s.Sound
  formulas : ∀ k ∈ ks, ∃ f, s.formula? k = some f

namespace Pass

theorem of_cons (h : Pass s (k :: ks)) : ∃ f, s.formula? k = some f ∧ Pass (s.refresh k) ks := by
  obtain ⟨f, hf⟩ := h.formulas k List.mem_cons_self
  refine ⟨f, hf, h.sound.sound_refresh hf, fun x hx => ?_⟩
  rw [h.sound.formula?_refresh hf]
  exact h.formulas x (List.mem_cons_of_mem k hx)

theorem of_append {ks' : List String} (h : Pass s (ks ++ ks')) :
    Pass s ks ∧ Pass (s.refreshAll ks) ks' := by
  induction ks generalizing s with
  | nil => exact ⟨⟨h.sound, fun k hk => absurd hk List.not_mem_nil⟩, h⟩
  | cons k ks ih =>
    obtain ⟨f, hf, hrest⟩ := h.of_cons
    exact ⟨⟨h.sound, fun x hx => h.formulas x (List.mem_append_left ks' hx)⟩, (ih hrest).2⟩

theorem sound_refreshAll (h : Pass s ks) : (s.refreshAll ks).Sound := by
  rw [← List.append_nil ks] at h
  exact h.of_append.2.sound

theorem formula?_refreshAll (h : Pass s ks) : (s.refreshAll ks).formula? x = s.formula? x := by
  induction ks generalizing s with
  | nil => rfl
  | cons k ks ih =>
    obtain ⟨f, hf, hrest⟩ := h.of_cons
    exact (ih hrest).trans (h.sound.formula?_refresh hf)

theorem raw?_refreshAll (h : Pass s ks) :
    ((s.refreshAll ks).cells.find? x).bind Cell.raw? = (s.cells.find? x).bind Cell.raw? := by
  induction ks generalizing s with
  | nil => rfl
  | cons k ks ih =>
    obtain ⟨f, hf, hrest⟩ := h.of_cons
    exact (ih hrest).trans (h.sound.raw?_refresh hf)

theorem sameAt_refreshAll (h : Pass s ks) (hx : x ∉ ks) : SameAt s (s.refreshAll ks) x := by
  induction ks generalizing s with
  | nil => exact .refl s x
  | cons k ks ih =>
    obtain ⟨f, hf, hrest⟩ := h.of_cons
    obtain ⟨hne, hnot⟩ := not_or.mp (mt List.mem_cons.mpr hx)
    exact (h.sound.sameAt_refresh hf hne).trans (ih hrest hnot)

theorem replay_cons (h : Pass s (k :: ks)) :
    ∃ p : Processed, (s.refresh k).cells.find? k = some p.cell ∧
      s.replay (k :: ks) =
        ⟨((s.refresh k).replay ks).sheet, (k, p.cell) :: ((s.refresh k).replay ks).updated,
          p.notices ++ ((s.refresh k).replay ks).notices⟩ := by
  obtain ⟨f, hf, -⟩ := h.of_cons
  obtain ⟨c, a, hc, hraw, hkey, rfl, hne, -, hrefresh⟩ := h.sound.exists_refresh hf
  refine ⟨s.process f a, ?_, ?_⟩
  · rw [hrefresh]
    exact (CellTable.find?_put s.cells).trans (if_pos rfl)
  · rw [replay, hc, Option.bind_some, hraw, hkey]
    simp only [if_neg hne, ← hrefresh]

theorem replay_eq (h : Pass s ks) :
    (s.replay ks).sheet = s.refreshAll ks ∧ (s.replay ks).updated.map (·.1) = ks := by
  induction ks generalizing s with
  | nil => exact ⟨rfl, rfl⟩
  | cons k ks ih =>
    obtain ⟨f, -, hrest⟩ := h.of_cons
    obtain ⟨p, -, hreplay⟩ := h.replay_cons
    obtain ⟨hsheet, hkeys⟩ := ih hrest
    rw [hreplay]
    exact ⟨hsheet, congrArg (k :: ·) hkeys⟩

theorem sheet_replay (h : Pass s ks) : (s.replay ks).sheet = s.refreshAll ks := h.replay_eq.1

theorem keys_replay (h : Pass s ks) : (s.replay ks).updated.map (·.1) = ks := h.replay_eq.2

theorem sheet_restore (h : Pass s ks) : (s.restore ks).1 = s.refreshAll ks := by
  induction ks generalizing s with
  | nil => rfl
  | cons k ks ih =>
    obtain ⟨f, hf, hrest⟩ := h.of_cons
    obtain ⟨c, a, hc, hraw, hkey, rfl, -, htext, hrefresh⟩ := h.sound.exists_refresh hf
    have hformula : (s.process f a).cell.isFormula = true := isFormula_process.trans htext
    have hne : (s.process f a).cell ≠ .empty := by
      intro hempty
      rw [hempty] at hformula
      cases hformula
    have hstore : s.refresh a.key = (s.store f a).sheet := by
      rw [hrefresh, store]
      simp only [hformula, hne, if_false, Bool.true_eq_false, false_and]
    rw [restore, hc, hkey]
    simp only [hraw, Option.getD_some, ← hstore]
    exact ih hrest

end Pass

end Gridcalc.Sheet
