import Gridcalc.Proofs.Sheet.Overtaken

/-! # Computing all formulas anew

All formulas are processed twice. What the first pass records gives the order of the second, if
it has no cycle; else that is the order of the keys. After the second pass all cells are up to
date but those that it overtook.
-/

namespace Gridcalc.Sheet

open Relation (ReflTransGen)

variable {s : Sheet} {k f : String}

def learned (s : Sheet) : Sheet := (s.restore s.formulaKeys).1

def secondOrder (s : Sheet) : List String :=
  (s.learned.graph.topologicalOrder? s.formulaKeys).getD (KeySet.ofList s.formulaKeys).toList

theorem sheet_recalculateAll : s.recalculateAll.1 = (s.learned.restore s.secondOrder).1 := rfl

namespace Sound

variable (hs : s.Sound)

include hs

theorem pass_formulaKeys : Pass s s.formulaKeys :=
  ⟨hs, fun _ hk => hs.mem_formulaKeys_iff.mp hk⟩

theorem learned_eq : s.learned = s.refreshAll s.formulaKeys := hs.pass_formulaKeys.sheet_restore

theorem sound_learned : s.learned.Sound := hs.learned_eq ▸ hs.pass_formulaKeys.sound_refreshAll

theorem mem_secondOrder_iff : k ∈ s.secondOrder ↔ k ∈ s.formulaKeys := by
  rw [secondOrder]
  cases horder : s.learned.graph.topologicalOrder? s.formulaKeys with
  | none => exact KeySet.mem_ofList
  | some order =>
    exact (Graph.ordered_of_topologicalOrder? hs.sound_learned.linked horder).mem_iff k

theorem nodup_secondOrder : s.secondOrder.Nodup := by
  rw [secondOrder]
  cases horder : s.learned.graph.topologicalOrder? s.formulaKeys with
  | none => exact KeySet.nodup _
  | some order => exact (Graph.ordered_of_topologicalOrder? hs.sound_learned.linked horder).nodup

theorem pass_secondOrder : Pass s.learned s.secondOrder := by
  refine ⟨hs.sound_learned, fun k hk => ?_⟩
  obtain ⟨f, hf⟩ := hs.pass_formulaKeys.formulas k (hs.mem_secondOrder_iff.mp hk)
  exact ⟨f, by rw [hs.learned_eq, hs.pass_formulaKeys.formula?_refreshAll, hf]⟩

theorem recalculateAll_eq : s.recalculateAll.1 = s.learned.refreshAll s.secondOrder :=
  hs.pass_secondOrder.sheet_restore

theorem sound_recalculateAll : s.recalculateAll.1.Sound :=
  hs.recalculateAll_eq ▸ hs.pass_secondOrder.sound_refreshAll

theorem sameAt_recalculateAll (hk : k ∉ s.formulaKeys) : SameAt s s.recalculateAll.1 k := by
  rw [hs.recalculateAll_eq]
  refine (hs.learned_eq ▸ hs.pass_formulaKeys.sameAt_refreshAll hk).trans ?_
  exact hs.pass_secondOrder.sameAt_refreshAll (mt hs.mem_secondOrder_iff.mp hk)

theorem raw?_recalculateAll (k : String) :
    (s.recalculateAll.1.cells.find? k).bind Cell.raw? = (s.cells.find? k).bind Cell.raw? := by
  rw [hs.recalculateAll_eq, hs.pass_secondOrder.raw?_refreshAll, hs.learned_eq,
    hs.pass_formulaKeys.raw?_refreshAll]

theorem settled_recalculateAll_iff
    (hplain : ∀ k c, s.cells.find? k = some c → c.isFormula = false → s.UpToDate k) :
    s.recalculateAll.1.Settled ↔
      ∀ k ∈ s.secondOrder, Overtaken s.learned s.recalculateAll.1 s.secondOrder k →
        s.recalculateAll.1.UpToDate k := by
  have hsound := hs.sound_recalculateAll
  have hsame {k : String} (hk : k ∉ s.secondOrder) : SameAt s s.recalculateAll.1 k :=
    hs.sameAt_recalculateAll (mt hs.mem_secondOrder_iff.mpr hk)
  rw [hs.recalculateAll_eq] at hsound hsame ⊢
  refine hs.pass_secondOrder.settled_refreshAll_iff hs.nodup_secondOrder fun k c hk hc => ?_
  have hc' : s.cells.find? k = some c := (hsame hk).cell ▸ hc
  have hkind : c.isFormula = false := by
    by_contra hformula
    rw [Bool.not_eq_false] at hformula
    exact hk (hs.mem_secondOrder_iff.mpr (Sheet.mem_formulaKeys_iff.mpr ⟨c, hc', hformula⟩))
  obtain ⟨raw, hraw, hcell⟩ := (hs.upToDate_iff_of_plain hc' hkind).mp (hplain k c hc' hkind)
  exact (hsound.upToDate_iff_of_plain hc hkind).mpr ⟨raw, hraw, hcell⟩

end Sound

end Gridcalc.Sheet
