import Gridcalc.Proofs.Sheet.History

/-! # Marks of cycles

A formula is told whether a cycle can be reached from it when its turn comes, and what comes after
it in the same round may still make or break that cycle. A mark can be wrong only where the last
round that processed the cell changed, late for the cell, the links of something it reaches.
-/

namespace Gridcalc.Sheet

open Relation (ReflTransGen TransGen)

variable {s t : Sheet} {k x : String} {order : List String} {rounds : List Round}
  {doubt : String → Prop}

theorem Pass.wellMarked_of_apart (h : Pass s order)
    (hapart : ∀ d, ReflTransGen s.graph.Reads k d → d ∉ order) (hk : s.WellMarked k) :
    (s.refreshAll order).WellMarked k :=
  hk.of_reached fun d hd => h.sameAt_refreshAll (hapart d hd)

theorem Pass.wellMarked_of_not_linkOvertaken (h : Pass s order) (hn : order.Nodup)
    (hk : k ∈ order) (hnot : ¬ LinkOvertaken s (s.refreshAll order) order k) :
    (s.refreshAll order).WellMarked k := by
  obtain ⟨f, now, hturn⟩ := h.exists_turn hn hk
  exact wellMarked_of_evaluation hturn.cell_end (hturn.cycle_end hnot)

theorem Edited.wellMarked_base (h : Edited s t k) (hapart : ¬ TransGen t.graph.Reads x k)
    (hx : x ≠ k → s.WellMarked x) : t.WellMarked x := by
  by_cases hxk : x = k
  · exact hxk ▸ h.marked
  · exact (hx hxk).of_reached fun d => h.sameAt_of_reaches hxk hapart

/-- The marks in doubt after a round, given those before it: a cell that was processed has its
mark from there, and so has the one that was stored. -/
def Round.doubts (r : Round) (before : String → Prop) (k : String) : Prop :=
  (k ∈ r.order ∧ LinkOvertaken r.before r.after r.order k) ∨
    (k ∉ r.order ∧ r.edited ≠ some k ∧ before k)

def Doubtful (rounds : List Round) : String → Prop :=
  rounds.foldl (fun before r => r.doubts before) fun _ => False

/-- No round makes a mark wrong that is not in doubt after it. -/
theorem Led.wellMarked (h : Led s rounds t) (hs : s.Sound)
    (hdoubt : ∀ k, ¬ doubt k → s.WellMarked k)
    (hk : ¬ rounds.foldl (fun before r => r.doubts before) doubt k) : t.WellMarked k := by
  induction h generalizing doubt with
  | nil s => exact hdoubt k hk
  | @edit s t u key rounds h _ ih =>
    have hpass := pass_recalculation h.sound [key]
    refine ih hpass.sound_refreshAll (fun x hx => ?_) hk
    by_cases hmem : x ∈ t.graph.recalculationOrder [key]
    · have hnodup := Graph.nodup_recalculationOrder h.sound.linked [key]
      exact hpass.wellMarked_of_not_linkOvertaken hnodup hmem fun hover => hx (.inl ⟨hmem, hover⟩)
    · refine hpass.wellMarked_of_apart
        (fun d => not_mem_recalculationOrder_of_reaches h.sound hmem)
        (h.wellMarked_base (mt h.mem_recalculationOrder_iff.mpr hmem)
          fun hne => hdoubt x fun hold => hx ?_)
      exact .inr ⟨hmem, fun heq => hne (Option.some.inj heq).symm, hold⟩
  | @process s u order rounds h hn hapart _ ih =>
    refine ih h.sound_refreshAll (fun x hx => ?_) hk
    by_cases hmem : x ∈ order
    · exact h.wellMarked_of_not_linkOvertaken hn hmem fun hover => hx (.inl ⟨hmem, hover⟩)
    · refine h.wellMarked_of_apart (hapart x hmem) (hdoubt x fun hold => hx ?_)
      exact .inr ⟨hmem, nofun, hold⟩
  | clear _ ih =>
    refine ih (sound_of_empty rfl rfl) (fun x _ f hf => ?_) hk
    rw [formula?, Sheet.clear, CellTable.find?_empty] at hf
    cases hf

/-- Whatever was done to an empty sheet, the marks are right exactly if those in doubt are. -/
theorem wellMarked_runAll_iff (rows columns : Int) (actions : List Action) :
    (∀ k, (({ rows, columns } : Sheet).runAll actions).WellMarked k) ↔
      ∀ k, Doubtful (({ rows, columns } : Sheet).roundsAll actions) k →
        (({ rows, columns } : Sheet).runAll actions).WellMarked k := by
  have hblank : ({ rows, columns } : Sheet).Sound := sound_of_empty rfl rfl
  constructor
  · intro hall k _
    exact hall k
  · intro hdoubtful k
    by_cases hk : Doubtful (({ rows, columns } : Sheet).roundsAll actions) k
    · exact hdoubtful k hk
    · refine (led_runAll actions hblank).wellMarked hblank (fun x _ f hf => ?_) hk
      rw [formula?, CellTable.find?_empty] at hf
      cases hf

/-- `B1` shows a number when it is processed; then `C1` comes to read it, and they read each
other. -/
theorem not_wellMarked_after_new_read :
    ∃ rows columns actions k f,
      (({ rows, columns } : Sheet).runAll actions).formula? k = some f ∧
      (Formula.parse f).isOk = true ∧
      (({ rows, columns } : Sheet).runAll actions).graph.hasCycle k = true ∧
      ((({ rows, columns } : Sheet).runAll actions).cells.find? k).bind Cell.fault? = none := by
  refine ⟨10, 10, [.edit (.text "A1") (.set "x"), .edit (.text "B1") (.set "=A1+C1"),
    .edit (.text "C1") (.set "=A1+B1"), .edit (.text "A1") (.set "5")], "r0c1", "=A1+C1", ?_⟩
  decide +kernel

end Gridcalc.Sheet
