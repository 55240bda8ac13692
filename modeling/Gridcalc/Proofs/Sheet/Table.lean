import Gridcalc.Proofs.Graph.Links
import Gridcalc.Sheet.Edit

/-! # Tables of cells

What is found in a table after a cell was put or erased. The listing of a table names each key
that has a cell exactly once.
-/

namespace Gridcalc.CellTable

variable {k x : String} {c : Cell}

@[simp] theorem find?_empty : empty.find? x = none := by
  simp [find?, empty]

theorem find?_put (t : CellTable) : (t.put k c).find? x = if x = k then some c else t.find? x := by
  rw [put]
  split
  · simp only [find?, Std.TreeMap.getElem?_insert, Std.LawfulEqOrd.compare_eq_iff_eq]
    by_cases hx : x = k
    · simp [hx]
    · simp [hx, Ne.symm hx]
  · simp only [find?, Std.TreeMap.getElem?_insert, Std.LawfulEqOrd.compare_eq_iff_eq]
    by_cases hx : x = k
    · simp [hx]
    · simp [hx, Ne.symm hx]

theorem find?_erase (t : CellTable) :
    (t.erase k).find? x = if x = k then none else t.find? x := by
  simp only [find?, erase, Std.TreeMap.getElem?_erase, Std.LawfulEqOrd.compare_eq_iff_eq]
  by_cases hx : x = k
  · simp [hx]
  · simp [hx, Ne.symm hx]

theorem mem_keys_iff {t : CellTable} : x ∈ t.slots.keys ↔ ∃ c, t.find? x = some c := by
  rw [Std.TreeMap.mem_keys, Graph.mem_iff_exists_getElem?]
  constructor
  · rintro ⟨slot, hslot⟩
    exact ⟨slot.cell, Option.map_eq_some_iff.mpr ⟨slot, hslot, rfl⟩⟩
  · rintro ⟨c, hc⟩
    obtain ⟨slot, hslot, -⟩ := Option.map_eq_some_iff.mp hc
    exact ⟨slot, hslot⟩

theorem mem_entries_iff {t : CellTable} : (k, c) ∈ t.entries ↔ t.find? k = some c := by
  simp only [entries, List.mem_map, List.mem_mergeSort, Prod.mk.injEq, Prod.exists, find?,
    Option.map_eq_some_iff]
  constructor
  · rintro ⟨k', slot, hmem, rfl, rfl⟩
    exact ⟨slot, Std.TreeMap.mem_toList_iff_getElem?_eq_some.mp hmem, rfl⟩
  · rintro ⟨slot, hslot, rfl⟩
    exact ⟨k, slot, Std.TreeMap.mem_toList_iff_getElem?_eq_some.mpr hslot, rfl, rfl⟩

theorem nodup_keys_entries (t : CellTable) : (t.entries.map (·.1)).Nodup := by
  have hkeys : (t.slots.toList.map (·.1)).Nodup := by
    rw [Std.TreeMap.map_fst_toList_eq_keys]
    exact Std.TreeMap.nodup_keys
  rw [entries, List.map_map]
  exact ((List.mergeSort_perm _ _).map _).nodup_iff.mpr hkeys

theorem entries_of_pairwise {t : CellTable}
    (h : t.slots.toList.Pairwise fun x y => x.2.serial ≤ y.2.serial) :
    t.entries = t.slots.toList.map fun e => (e.1, e.2.cell) := by
  rw [entries, List.mergeSort_of_pairwise]
  exact h.imp fun hle => decide_eq_true hle

end Gridcalc.CellTable

namespace Gridcalc.Sheet

variable {s : Sheet} {k : String}

theorem mem_formulaKeys_iff :
    k ∈ s.formulaKeys ↔ ∃ c, s.cells.find? k = some c ∧ c.isFormula = true := by
  simp [formulaKeys, CellTable.mem_entries_iff]

theorem nodup_formulaKeys (s : Sheet) : s.formulaKeys.Nodup :=
  (CellTable.nodup_keys_entries s.cells).sublist (List.filter_sublist.map _)

theorem formulaKeys_of_pairwise
    (h : s.cells.slots.toList.Pairwise fun x y => x.2.serial ≤ y.2.serial) :
    s.formulaKeys = (s.cells.slots.toList.filter (·.2.cell.isFormula)).map (·.1) := by
  rw [formulaKeys, CellTable.entries_of_pairwise h, List.filter_map, List.map_map]
  rfl

end Gridcalc.Sheet
