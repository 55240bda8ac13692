import Gridcalc.Proofs.Formula.Consulted
import Gridcalc.Proofs.Graph.Cycles
import Gridcalc.Proofs.Graph.Links
import Gridcalc.Proofs.Grid.Key
import Gridcalc.Proofs.Sheet.Table
import Gridcalc.Proofs.Text.Blank

/-! # What a cell is made from

A plain cell is made from its text alone. A formula is made from its text, from what the cells
it reads show, and from whether a cycle can be reached from it once its reads are recorded.
-/

namespace Gridcalc

@[simp] theorem isFormulaText_trim (s : String) : isFormulaText (Text.trim s) = isFormulaText s := by
  simp [isFormulaText]

theorem trim_ne_empty_of_isFormulaText {s : String} (h : isFormulaText s = true) :
    Text.trim s ≠ "" := by
  intro hempty
  simp [isFormulaText, hempty] at h

/-- Holding a text as it is kept: trimmed, not blank, and a formula by its first character. -/
def Cell.Typed (c : Cell) : Prop :=
  ∃ raw, c.raw? = some raw ∧ Text.trim raw = raw ∧ raw ≠ "" ∧ c.isFormula = isFormulaText raw

namespace Sheet

variable {s t : Sheet} {raw formula k : String} {a : Address} {v : Verdict}
  {cycle cycle' : Option (List String)}

section Cells

theorem raw?_plainCell : (plainCell raw).raw? = some raw := by
  rw [plainCell]
  split
  · split <;> rfl
  · rfl

theorem isFormula_plainCell : (plainCell raw).isFormula = false := by
  rw [plainCell]
  split
  · split <;> rfl
  · rfl

theorem raw?_formulaCell : (formulaCell formula v cycle).raw? = some formula := by
  cases v <;> cases cycle <;> rfl

theorem isFormula_formulaCell : (formulaCell formula v cycle).isFormula = true := by
  cases v <;> cases cycle <;> rfl

/-- Of the cycle, the cell shows only that there is one. -/
theorem formulaCell_congr (h : cycle.isSome = cycle'.isSome) :
    formulaCell formula v cycle = formulaCell formula v cycle' := by
  simp only [formulaCell, h]

theorem fault?_formulaCell (hv : v.isMalformed = false) :
    (formulaCell formula v cycle).fault? = some .cycle ↔ cycle.isSome = true := by
  cases v <;> cases cycle <;> simp_all [formulaCell, Cell.fault?, Verdict.isMalformed]

end Cells

section Reads

def shown (s : Sheet) (k : String) : Datum := ((s.cells.find? k).map Cell.datum).getD .null

def evaluation (s : Sheet) (formula : String) : Evaluation :=
  Formula.compute (fun ref => .ok (s.lookup ref)) formula

def inputs (s : Sheet) (formula : String) : KeySet :=
  .ofList ((s.evaluation formula).references.map readKey)

theorem lookup_congr {ref : String} (h : s.shown (readKey ref) = t.shown (readKey ref)) :
    s.lookup ref = t.lookup ref := by
  have hlookup (u : Sheet) :
      u.lookup ref = (keyOfReference? ref).elim .null fun k => u.shown k := by
    unfold lookup
    cases keyOfReference? ref with
    | none => rfl
    | some k => cases hk : u.cells.find? k <;> simp [shown, hk]
  rw [hlookup, hlookup]
  cases hk : keyOfReference? ref with
  | none => rfl
  | some k =>
    rw [readKey, hk] at h
    exact h

theorem evaluation_congr (h : ∀ y ∈ s.inputs formula, s.shown y = t.shown y) :
    s.evaluation formula = t.evaluation formula := by
  apply Formula.compute_congr
  intro ref href
  have hin : readKey ref ∈ s.inputs formula := KeySet.mem_ofList.mpr (List.mem_map_of_mem href)
  rw [lookup_congr (h _ hin)]

theorem exists_input_of_evaluation_ne (h : s.evaluation formula ≠ t.evaluation formula) :
    ∃ y, y ∈ s.inputs formula ∧ y ∈ t.inputs formula ∧ s.shown y ≠ t.shown y := by
  obtain heq | ⟨ref, hs, ht, hne⟩ := Formula.compute_eq_or_exists
    (fun ref => .ok (s.lookup ref)) (fun ref => .ok (t.lookup ref)) formula
  · exact absurd heq h
  · refine ⟨readKey ref, KeySet.mem_ofList.mpr (List.mem_map_of_mem hs),
      KeySet.mem_ofList.mpr (List.mem_map_of_mem ht), ?_⟩
    intro hshown
    exact hne (by rw [lookup_congr hshown])

end Reads

section Process

theorem process_of_blank (h : Text.trim raw = "") : s.process raw a = ⟨.empty, s.graph, []⟩ := by
  simp [process, h]

theorem cell_process_of_plain (h : Text.trim raw ≠ "") (hf : isFormulaText raw = false) :
    (s.process raw a).cell = plainCell (Text.trim raw) := by
  simp [process, h, hf]

theorem graph_process_of_plain (hf : isFormulaText raw = false) :
    (s.process raw a).graph = s.graph := by
  by_cases h : Text.trim raw = ""
  · rw [process_of_blank h]
  · simp [process, h, hf]

theorem process_of_formula (hf : isFormulaText raw = true) :
    s.process raw a = s.processFormula (Text.trim raw) a := by
  simp [process, trim_ne_empty_of_isFormulaText hf, hf]

theorem dependencies_processFormula :
    (s.processFormula formula a).graph.dependencies k =
      if k = a.key then s.inputs formula else s.graph.dependencies k :=
  Graph.dependencies_update _ _ _

theorem cell_processFormula :
    (s.processFormula formula a).cell =
      formulaCell formula (s.evaluation formula).verdict
        ((s.processFormula formula a).graph.findCycle a.key) := rfl

theorem isFormula_process : (s.process raw a).cell.isFormula = isFormulaText raw := by
  cases hf : isFormulaText raw with
  | true =>
    rw [process_of_formula hf, cell_processFormula, isFormula_formulaCell]
  | false =>
    by_cases h : Text.trim raw = ""
    · rw [process_of_blank h]
      rfl
    · rw [cell_process_of_plain h hf, isFormula_plainCell]

theorem raw?_process (h : Text.trim raw ≠ "") :
    (s.process raw a).cell.raw? = some (Text.trim raw) := by
  cases hf : isFormulaText raw with
  | true =>
    rw [process_of_formula hf, cell_processFormula, raw?_formulaCell]
  | false =>
    rw [cell_process_of_plain h hf, raw?_plainCell]

theorem typed_process (h : Text.trim raw ≠ "") : (s.process raw a).cell.Typed :=
  ⟨Text.trim raw, raw?_process h, Text.trim_trim raw, h, by
    rw [isFormula_process, isFormulaText_trim]⟩

theorem linked_process (hs : s.graph.Linked) : (s.process raw a).graph.Linked := by
  cases hf : isFormulaText raw with
  | true =>
    rw [process_of_formula hf]
    exact Graph.linked_update _ _ hs
  | false => rwa [graph_process_of_plain hf]

end Process

end Sheet

end Gridcalc
