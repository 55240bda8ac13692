import Gridcalc.Proofs.Sheet.Settled

/-! # Storing a text

What typing a text into a cell, or emptying it, does before anything that depends on the cell is
computed anew: all other cells and links stay, and the cell itself is made from the sheet as it
is, so it is up to date unless it reads itself.
-/

namespace Gridcalc.Sheet

open Relation (ReflTransGen TransGen)

variable {s t : Sheet} {k x f raw : String} {a : Address} {target : Target}

/-- Only the cell of one key was edited; it has been made anew, and nothing else followed. -/
structure Edited (s t : Sheet) (k : String) : Prop where
  sound : t.Sound
  elsewhere : ∀ x, x ≠ k → SameAt s t x
  upToDate : ∀ c, t.cells.find? k = some c → ¬ t.graph.Reads k k → t.UpToDate k
  marked : t.WellMarked k
  made : t.Made k

theorem inGrid_of_resolve (ha : s.resolve target = .ok a) : a.InGrid s.rows s.columns := by
  have hwithin {b : Address} (hb : s.within b = .ok a) : a.InGrid s.rows s.columns := by
    rw [within] at hb
    split at hb
    · rename_i hgrid
      cases hb
      exact hgrid
    · cases hb
  cases target with
  | address b => exact hwithin ha
  | text t =>
    rw [resolve] at ha
    split at ha
    · exact hwithin ha
    · split at ha
      · exact hwithin ha
      · cases ha

theorem cell_process_eq_empty_iff : (s.process raw a).cell = .empty ↔ Text.trim raw = "" := by
  constructor
  · intro hempty
    by_contra hne
    have hraw : (s.process raw a).cell.raw? = some (Text.trim raw) := raw?_process hne
    rw [hempty] at hraw
    cases hraw
  · intro hblank
    rw [process_of_blank hblank]

section Store

@[simp] theorem rows_store : (s.store raw a).sheet.rows = s.rows := by
  simp only [store]

@[simp] theorem columns_store : (s.store raw a).sheet.columns = s.columns := by
  simp only [store]

theorem find?_store :
    (s.store raw a).sheet.cells.find? x =
      if x = a.key then
        if Text.trim raw = "" then none else some (s.process raw a).cell
      else s.cells.find? x := by
  rw [store]
  simp only [cell_process_eq_empty_iff]
  split
  · rw [CellTable.find?_erase]
  · rw [CellTable.find?_put]

theorem dependencies_store :
    (s.store raw a).sheet.graph.dependencies x =
      if x = a.key then
        if isFormulaText raw = true then s.inputs (Text.trim raw) else ∅
      else s.graph.dependencies x := by
  rw [store]
  simp only [isFormula_process]
  cases hf : isFormulaText raw with
  | true =>
    simp only [Bool.true_eq_false, false_and, if_false, if_true, process_of_formula hf,
      dependencies_processFormula]
  | false =>
    simp only [true_and, Bool.false_eq_true, if_false, graph_process_of_plain hf]
    split
    · rw [Graph.dependencies_update]
      split
      · rfl
      · rfl
    · rename_i hunknown
      split
      · rename_i hx
        rw [hx, Graph.dependencies_eq_empty]
        simpa [Graph.contains] using hunknown
      · rfl

theorem linked_store (hs : s.graph.Linked) : (s.store raw a).sheet.graph.Linked := by
  rw [store]
  simp only
  split
  · exact Graph.linked_update _ _ (linked_process hs)
  · exact linked_process hs

theorem find?_store_of_formula (hf : isFormulaText raw = true) :
    (s.store raw a).sheet.cells.find? a.key =
      some (formulaCell (Text.trim raw) (s.evaluation (Text.trim raw)).verdict
        ((s.store raw a).sheet.graph.findCycle a.key)) := by
  have hgraph : (s.store raw a).sheet.graph = (s.processFormula (Text.trim raw) a).graph := by
    rw [store]
    simp only [isFormula_process, hf, Bool.true_eq_false, false_and, if_false]
    rw [process_of_formula hf]
  rw [find?_store, if_pos rfl, if_neg (trim_ne_empty_of_isFormulaText hf), hgraph,
    process_of_formula hf, cell_processFormula]

theorem sound_store (raw : String) (hs : s.Sound) (ha : a.InGrid s.rows s.columns) :
    (s.store raw a).sheet.Sound := by
  refine ⟨⟨linked_store hs.linked, fun x c hc => ?_⟩, fun x c hc => ?_, fun x hx => ?_⟩
  · by_cases hxk : x = a.key
    · rw [rows_store, columns_store]
      exact ⟨a, ha, hxk.symm⟩
    · rw [find?_store, if_neg hxk] at hc
      rw [rows_store, columns_store]
      exact hs.placed x c hc
  · by_cases hxk : x = a.key
    · rw [find?_store, if_pos hxk] at hc
      split at hc
      · cases hc
      · rename_i hne
        rw [← Option.some.inj hc]
        exact typed_process hne
    · rw [find?_store, if_neg hxk] at hc
      exact hs.typed x c hc
  · by_cases hxk : x = a.key
    · subst hxk
      rw [dependencies_store, if_pos rfl] at hx
      split at hx
      · rename_i hf
        exact ⟨_, find?_store_of_formula hf, isFormula_formulaCell⟩
      · exact absurd rfl hx
    · rw [dependencies_store, if_neg hxk] at hx
      rw [find?_store, if_neg hxk]
      exact hs.sourced x hx

theorem sameAt_store (hx : x ≠ a.key) : SameAt s (s.store raw a).sheet x where
  cell := by rw [find?_store, if_neg hx]
  dependencies := by rw [dependencies_store, if_neg hx]

/-- A formula that is made from the sheet before is up to date unless it reads itself. -/
theorem edited_of_formula (ht : t.Sound) (helsewhere : ∀ x, x ≠ k → SameAt s t x)
    {cycle : Option (List String)}
    (hcell : t.cells.find? k = some (formulaCell f (s.evaluation f).verdict cycle))
    (hdeps : t.graph.dependencies k = s.inputs f)
    (hcycle : cycle.isSome = true ↔ t.graph.Cyclic k) : Edited s t k where
  sound := ht
  elsewhere := helsewhere
  upToDate c _ hself := by
    refine ht.upToDate_of_evaluation (formula?_of_formulaCell hcell) hcell hdeps
      (fun d hd => ?_) hcycle
    exact (helsewhere d fun hdk => hself (hdk ▸ hd)).shown
  marked := wellMarked_of_evaluation hcell hcycle
  made := made_of_evaluation hcell hdeps

/-- What holds no formula is up to date if it is what its text alone makes of it. -/
theorem edited_of_plain (raw : String) (ht : t.Sound) (helsewhere : ∀ x, x ≠ k → SameAt s t x)
    (hcell : ∀ c, t.cells.find? k = some c → c = plainCell raw) : Edited s t k := by
  have hraw (c : Cell) (hc : t.cells.find? k = some c) : c.raw? = some raw := by
    rw [hcell c hc, raw?_plainCell]
  have hkind (c : Cell) (hc : t.cells.find? k = some c) : c.isFormula = false := by
    rw [hcell c hc, isFormula_plainCell]
  have hnone (f : String) (hf : t.formula? k = some f) : False := by
    obtain ⟨c, hc, -, -, hformula, -⟩ := ht.formula?_eq_some_iff.mp hf
    rw [hkind c hc] at hformula
    cases hformula
  exact {
    sound := ht
    elsewhere := helsewhere
    upToDate := fun c hc _ =>
      (ht.upToDate_iff_of_plain hc (hkind c hc)).mpr ⟨raw, hraw c hc, hcell c hc⟩
    marked := fun f hf => (hnone f hf).elim
    made := ⟨fun c hc _ => ⟨raw, hraw c hc, hcell c hc⟩, fun f hf => (hnone f hf).elim⟩ }

theorem edited_store (raw : String) (hs : s.Sound) (ha : a.InGrid s.rows s.columns) :
    Edited s (s.store raw a).sheet a.key := by
  have hsound := sound_store raw hs ha
  cases hf : isFormulaText raw with
  | true =>
    refine edited_of_formula hsound (fun x => sameAt_store) (find?_store_of_formula hf) ?_
      (Graph.hasCycle_iff _ _)
    rw [dependencies_store, if_pos rfl, if_pos hf]
  | false =>
    refine edited_of_plain (Text.trim raw) hsound (fun x => sameAt_store) fun c hc => ?_
    rw [find?_store, if_pos rfl] at hc
    split at hc
    · cases hc
    · rename_i hne
      rw [← Option.some.inj hc, cell_process_of_plain hne hf]

end Store

section Emptied

def emptied (s : Sheet) (a : Address) : Sheet :=
  let stored := s.store "" a
  let graph := stored.sheet.graph
  { stored.sheet with
    graph :=
      if graph.contains a.key ∧ graph.dependents a.key = ∅ then graph.remove a.key else graph }

/-- To drop the node of an empty cell is to drop no link. -/
theorem dependencies_emptied :
    (s.emptied a).graph.dependencies x = (s.store "" a).sheet.graph.dependencies x := by
  rw [emptied]
  simp only
  split
  · rename_i hunread
    apply KeySet.ext
    intro d
    rw [Graph.mem_dependencies_remove, hunread.2]
    constructor
    · rintro ⟨-, hd, -⟩
      exact hd
    · intro hd
      refine ⟨?_, hd, fun _ => KeySet.not_mem_empty x⟩
      rintro rfl
      rw [dependencies_store, if_pos rfl] at hd
      exact absurd hd (KeySet.not_mem_empty d)
  · rfl

theorem edited_emptied (hs : s.Sound) (ha : a.InGrid s.rows s.columns) :
    Edited s (s.emptied a) a.key := by
  have hstored := edited_store "" hs ha
  have hempty : (s.emptied a).cells.find? a.key = none := by
    change (s.store "" a).sheet.cells.find? a.key = none
    rw [find?_store, if_pos rfl]
    rfl
  have hsame (x : String) : SameAt (s.store "" a).sheet (s.emptied a) x :=
    ⟨rfl, dependencies_emptied.symm⟩
  have hlinked : (s.emptied a).graph.Linked := by
    rw [emptied]
    simp only
    split
    · exact Graph.linked_remove _ hstored.sound.linked
    · exact hstored.sound.linked
  have hsound : (s.emptied a).Sound := by
    refine ⟨⟨hlinked, hstored.sound.placed⟩, hstored.sound.typed, fun x hx => ?_⟩
    rw [dependencies_emptied] at hx
    exact hstored.sound.sourced x hx
  refine edited_of_plain "" hsound (fun x hx => (hstored.elsewhere x hx).trans (hsame x)) ?_
  intro c hc
  rw [hempty] at hc
  cases hc

end Emptied

end Gridcalc.Sheet
