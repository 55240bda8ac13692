import Gridcalc.Proofs.Graph.Order
import Gridcalc.Proofs.Sheet.Refresh

/-! # Overtaken cells

Formula cells are processed again in some order, each from what the sheet is at its turn. What
is processed with a cell or after it is late for it. A cell is overtaken if something late changes
after all: the value of a cell that it reads, or the links of a cell that it reaches. A cell that
is not overtaken is up to date in the end, whatever the order.
-/

namespace Gridcalc.Sheet

open Relation (ReflTransGen)

variable {s t : Sheet} {k d f : String} {order : List String}

/-- What is processed with `k` or after it. -/
def late (order : List String) (k : String) : List String := order.dropWhile (· != k)

/-- The cell reads something late that shows `s` when the cell's turn comes, but `t` in the end. -/
def ValueOvertaken (s t : Sheet) (order : List String) (k : String) : Prop :=
  ∃ d ∈ late order k, t.graph.Reads k d ∧ s.shown d ≠ t.shown d

/-- The cell reaches another one that is late and whose links are not the same in the end. -/
def LinkOvertaken (s t : Sheet) (order : List String) (k : String) : Prop :=
  ∃ d ∈ late order k, d ≠ k ∧ ReflTransGen t.graph.Reads k d ∧
    s.graph.dependencies d ≠ t.graph.dependencies d

def Overtaken (s t : Sheet) (order : List String) (k : String) : Prop :=
  ValueOvertaken s t order k ∨ LinkOvertaken s t order k

theorem exists_late_eq_cons (hk : k ∈ order) :
    ∃ before after, order = before ++ k :: after ∧ k ∉ before ∧ late order k = k :: after := by
  obtain ⟨before, after, rfl, hbefore⟩ := List.eq_append_cons_of_mem hk
  have hskip : ∀ d ∈ before, (d != k) = true := fun d hd =>
    bne_iff_ne.mpr fun heq => hbefore (heq ▸ hd)
  refine ⟨before, after, rfl, hbefore, ?_⟩
  rw [late, List.dropWhile_append_of_pos hskip, List.dropWhile_cons_of_neg (by simp)]

theorem not_lt_of_mem_late (hsorted : order.Pairwise (· < ·)) (hk : k ∈ order)
    (hd : d ∈ late order k) : ¬ d < k := by
  obtain ⟨before, after, rfl, -, hlate⟩ := exists_late_eq_cons hk
  obtain ⟨-, htail, -⟩ := List.pairwise_append.mp hsorted
  rw [hlate] at hd
  intro hlt
  rcases List.mem_cons.mp hd with rfl | hd
  · exact String.lt_irrefl d hlt
  · exact String.lt_irrefl d (String.lt_trans hlt ((List.pairwise_cons.mp htail).1 d hd))

theorem mem_of_mem_late (h : d ∈ late order k) : d ∈ order := List.dropWhile_subset _ h

/-- The sheet at the turn of a cell: what is late for the cell is as it was, and the rest, like
the cell itself after its turn, is as it will be. -/
structure Turn (s t : Sheet) (order : List String) (k f : String) (now : Sheet) : Prop where
  sound : now.Sound
  formula : now.formula? k = some f
  waiting : ∀ d ∈ late order k, SameAt s now d
  done : ∀ d, d ∉ late order k → SameAt now t d
  result : SameAt (now.refresh k) t k

namespace Pass

variable (h : Pass s order) (hn : order.Nodup)

include h hn

theorem exists_turn (hk : k ∈ order) : ∃ f now, Turn s (s.refreshAll order) order k f now := by
  obtain ⟨before, after, rfl, hbefore, hlate⟩ := exists_late_eq_cons hk
  obtain ⟨hfirst, hrest⟩ := h.of_append
  obtain ⟨f, hf, hafter⟩ := hrest.of_cons
  obtain ⟨-, htail, hdisjoint⟩ := List.nodup_append.mp hn
  obtain ⟨hknot, -⟩ := List.nodup_cons.mp htail
  have hend : s.refreshAll (before ++ k :: after) =
      ((s.refreshAll before).refresh k).refreshAll after := by
    rw [refreshAll, List.foldl_append]
    rfl
  rw [hend]
  refine ⟨f, s.refreshAll before, hrest.sound, hf, fun d hd => ?_, fun d hd => ?_, ?_⟩
  · rw [hlate] at hd
    exact hfirst.sameAt_refreshAll fun hmem => hdisjoint d hmem d hd rfl
  · rw [hlate] at hd
    obtain ⟨hne, hnot⟩ := not_or.mp (mt List.mem_cons.mpr hd)
    exact (hrest.sound.sameAt_refresh hf hne).trans (hafter.sameAt_refreshAll hnot)
  · exact hafter.sameAt_refreshAll hknot

end Pass

namespace Turn

variable {now : Sheet} (h : Turn s t order k f now)

include h

theorem formula_end : t.formula? k = some f := by
  rw [← h.result.formula?, h.sound.formula?_refresh h.formula, h.formula]

theorem cell_end :
    t.cells.find? k = some
      (formulaCell f (now.evaluation f).verdict ((now.refresh k).graph.findCycle k)) := by
  rw [← h.result.cell, h.sound.find?_refresh h.formula, if_pos rfl]

theorem dependencies_end : t.graph.dependencies k = now.inputs f := by
  rw [← h.result.dependencies, h.sound.dependencies_refresh h.formula, if_pos rfl]

/-- Unless late links change, the cell is told of a cycle if there is one in the end. -/
theorem cycle_end (hlinks : ¬ LinkOvertaken s t order k) :
    ((now.refresh k).graph.findCycle k).isSome = true ↔ t.graph.Cyclic k := by
  rw [← Graph.hasCycle, Graph.hasCycle_iff]
  apply Iff.symm
  apply Graph.cyclic_iff_of_dependencies_eq
  intro d hd
  by_cases hdk : d = k
  · exact hdk ▸ h.result.dependencies.symm
  · rw [← (h.sound.sameAt_refresh h.formula hdk).dependencies]
    by_cases hlate : d ∈ late order k
    · rw [← (h.waiting d hlate).dependencies]
      by_contra hne
      exact hlinks ⟨d, hlate, hdk, hd, Ne.symm hne⟩
    · exact (h.done d hlate).dependencies.symm

theorem upToDate (ht : t.Sound) (hnot : ¬ Overtaken s t order k) : t.UpToDate k := by
  obtain ⟨hvalues, hlinks⟩ := not_or.mp hnot
  refine Sound.upToDate_of_evaluation ht h.formula_end h.cell_end h.dependencies_end
    (fun d hd => ?_) (h.cycle_end hlinks)
  by_cases hlate : d ∈ late order k
  · rw [← (h.waiting d hlate).shown]
    by_contra hne
    exact hvalues ⟨d, hlate, hd, hne⟩
  · exact (h.done d hlate).shown

end Turn

namespace Pass

variable (h : Pass s order)

include h

theorem upToDate_of_not_overtaken (hn : order.Nodup) (hk : k ∈ order)
    (hnot : ¬ Overtaken s (s.refreshAll order) order k) : (s.refreshAll order).UpToDate k := by
  obtain ⟨f, now, hturn⟩ := h.exists_turn hn hk
  exact hturn.upToDate h.sound_refreshAll hnot

theorem upToDate_of_apart (hapart : ∀ d, ReflTransGen s.graph.Reads k d → d ∉ order)
    (hk : s.UpToDate k) : (s.refreshAll order).UpToDate k :=
  h.sound.upToDate_of_reached h.sound_refreshAll
    (fun d hd => h.sameAt_refreshAll (hapart d hd)) hk

/-- If all else is up to date, only overtaken cells can keep the sheet from being settled. -/
theorem settled_refreshAll_iff (hn : order.Nodup)
    (hrest : ∀ k c, k ∉ order → (s.refreshAll order).cells.find? k = some c →
      (s.refreshAll order).UpToDate k) :
    (s.refreshAll order).Settled ↔
      ∀ k ∈ order, Overtaken s (s.refreshAll order) order k → (s.refreshAll order).UpToDate k := by
  constructor
  · intro hsettled k hk _
    obtain ⟨f, hf⟩ := h.formulas k hk
    rw [← h.formula?_refreshAll] at hf
    obtain ⟨c, hc, -⟩ := h.sound_refreshAll.formula?_eq_some_iff.mp hf
    exact hsettled.upToDate k c hc
  · intro hovertaken
    refine ⟨fun k c hc => ?_, h.sound_refreshAll.sourced⟩
    by_cases hk : k ∈ order
    · by_cases hover : Overtaken s (s.refreshAll order) order k
      · exact hovertaken k hk hover
      · exact h.upToDate_of_not_overtaken hn hk hover
    · exact hrest k c hk hc

end Pass

/-- In an order of dependencies, a cell can be overtaken only if it or something that it reaches
does not read the same in the end. -/
theorem exists_relinked_of_overtaken {ks : List String} (horder : s.graph.Ordered ks order)
    (hk : k ∈ order) (h : Overtaken s t order k) :
    ∃ d ∈ order, ReflTransGen t.graph.Reads k d ∧
      s.graph.dependencies d ≠ t.graph.dependencies d := by
  rcases h with ⟨d, hlate, hreads, -⟩ | ⟨d, hlate, -, hreach, hne⟩
  · refine ⟨k, hk, .refl, fun hsame => ?_⟩
    -- what `k` has always read comes before it, so it is not late
    have hd := (horder.mem_iff d).mp (mem_of_mem_late hlate)
    obtain ⟨before, after, hsplit, -, hrest⟩ := exists_late_eq_cons hk
    rw [Graph.Reads, ← hsame] at hreads
    have hbefore := horder.precede before k after hsplit d hreads hd
    rw [hrest] at hlate
    have hnodup := hsplit ▸ horder.nodup
    exact (List.nodup_append.mp hnodup).2.2 d hbefore d hlate rfl
  · exact ⟨d, mem_of_mem_late hlate, hreach, hne⟩

end Gridcalc.Sheet
