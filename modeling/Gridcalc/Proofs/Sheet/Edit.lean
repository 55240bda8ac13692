import Gridcalc.Proofs.Graph.Affected
import Gridcalc.Proofs.Sheet.Overtaken
import Gridcalc.Proofs.Sheet.Store

/-! # Edits of a settled sheet

An edit stores one text and then processes all that depends on the cell, in an order that is
fixed before the first of them is processed. What a formula reads can change while the order is
being followed, so a cell can be overtaken; the cells that are not are up to date in the end,
those that were not processed included.
-/

namespace Gridcalc.Sheet

open Relation (ReflTransGen TransGen)

variable {s t : Sheet} {k x d raw : String} {a : Address} {target : Target}
  {changed order : List String}

section Recalculation

theorem pass_recalculation (ht : t.Sound) (changed : List String) :
    Pass t (t.graph.recalculationOrder changed) := by
  refine ⟨ht, fun x hx => ?_⟩
  obtain ⟨k, -, hreach⟩ := (Graph.mem_recalculationOrder_iff ht.linked).mp hx
  obtain ⟨d, hd, -⟩ := TransGen.head'_iff.mp hreach
  exact ht.exists_formula?_of_reads hd

theorem sheet_recalculateDependents (ht : t.Sound) (changed : List String) :
    (t.recalculateDependents changed).sheet =
      t.refreshAll (t.graph.recalculationOrder changed) :=
  (pass_recalculation ht changed).sheet_replay

theorem keys_finish (ht : t.Sound) (notices : List Notice) :
    (t.finish k notices).keys = k :: (t.graph.recalculationOrder [k]).filter (· != k) := by
  rw [finish, recalculateDependents]
  simp only [(pass_recalculation ht [k]).keys_replay]

theorem not_mem_recalculationOrder_of_reaches (ht : t.Sound)
    (hx : x ∉ t.graph.recalculationOrder changed) (hd : ReflTransGen t.graph.Reads x d) :
    d ∉ t.graph.recalculationOrder changed := by
  rw [Graph.mem_recalculationOrder_iff ht.linked] at hx ⊢
  rintro ⟨k, hk, hdk⟩
  exact hx ⟨k, hk, TransGen.trans_right hd hdk⟩

end Recalculation

namespace Edited

variable (h : Edited s t k)

include h

/-- A path of the old links is one of the new links, at least as far as the edited cell. -/
theorem reaches_or_reaches (hd : ReflTransGen s.graph.Reads x d) :
    ReflTransGen t.graph.Reads x d ∨ ReflTransGen t.graph.Reads x k := by
  induction hd using ReflTransGen.head_induction_on with
  | refl => exact .inl .refl
  | @head y z hread _ ih =>
    by_cases hy : y = k
    · exact .inr (hy ▸ .refl)
    · have hstep : t.graph.Reads y z := by
        rwa [Graph.Reads, ← (h.elsewhere y hy).dependencies]
      exact ih.imp (ReflTransGen.head hstep) (ReflTransGen.head hstep)

theorem sameAt_of_reaches (hx : x ≠ k) (hapart : ¬ TransGen t.graph.Reads x k)
    (hd : ReflTransGen s.graph.Reads x d) : SameAt s t d := by
  apply h.elsewhere
  rintro rfl
  rcases h.reaches_or_reaches hd with hreach | hreach
  all_goals
    rcases ReflTransGen.cases_head_iff.mp hreach with heq | ⟨y, hread, hrest⟩
    · exact hx heq
    · exact hapart (.head' hread hrest)

theorem upToDate_apart (hs : s.Sound) (hx : x ≠ k) (hapart : ¬ TransGen t.graph.Reads x k)
    (hold : s.UpToDate x) : t.UpToDate x :=
  hs.upToDate_of_reached h.sound (fun _ => h.sameAt_of_reaches hx hapart) hold

theorem upToDate_base (hs : s.Settled) (hg : s.Grounded) {c : Cell}
    (hc : t.cells.find? x = some c) (hapart : ¬ TransGen t.graph.Reads x k) :
    t.UpToDate x := by
  by_cases hx : x = k
  · subst hx
    exact h.upToDate c hc fun hself => hapart (.single hself)
  · have hold := hs.upToDate x c ((h.elsewhere x hx).cell ▸ hc)
    exact h.upToDate_apart (hs.sound hg) hx hapart hold

theorem mem_recalculationOrder_iff :
    x ∈ t.graph.recalculationOrder [k] ↔ TransGen t.graph.Reads x k := by
  simp only [Graph.mem_recalculationOrder_iff h.sound.linked, List.mem_singleton, exists_eq_left]

theorem upToDate_follow (hx : x ∉ t.graph.recalculationOrder [k]) (hbase : t.UpToDate x) :
    (t.refreshAll (t.graph.recalculationOrder [k])).UpToDate x :=
  (pass_recalculation h.sound [k]).upToDate_of_apart
    (fun _ => not_mem_recalculationOrder_of_reaches h.sound hx) hbase

theorem upToDate_of_not_mem (hs : s.Settled) (hg : s.Grounded)
    (hx : x ∉ t.graph.recalculationOrder [k]) {c : Cell}
    (hc : (t.refreshAll (t.graph.recalculationOrder [k])).cells.find? x = some c) :
    (t.refreshAll (t.graph.recalculationOrder [k])).UpToDate x := by
  rw [← ((pass_recalculation h.sound [k]).sameAt_refreshAll hx).cell] at hc
  exact h.upToDate_follow hx (h.upToDate_base hs hg hc (mt h.mem_recalculationOrder_iff.mpr hx))

theorem settled_iff (hs : s.Settled) (hg : s.Grounded)
    (horder : t.graph.recalculationOrder [k] = order) :
    (t.refreshAll order).Settled ↔
      ∀ x ∈ order, Overtaken t (t.refreshAll order) order x → (t.refreshAll order).UpToDate x := by
  subst horder
  have hpass := pass_recalculation h.sound [k]
  have hnodup := Graph.nodup_recalculationOrder h.sound.linked [k]
  exact hpass.settled_refreshAll_iff hnodup fun x c hx hc => h.upToDate_of_not_mem hs hg hx hc

end Edited

inductive Change where
  | set (raw : String)
  | clear

namespace Change

def run (s : Sheet) (target : Target) : Change → Except AddressError Edit
  | set raw => s.setCell target raw
  | clear => s.clearCell target

/-- The sheet when the cell has been stored and the order of what follows is about to be fixed. -/
def base (s : Sheet) (a : Address) : Change → Sheet
  | set raw => (s.store raw a).sheet
  | clear => s.emptied a

theorem edited_base (change : Change) (hs : s.Sound) (ha : a.InGrid s.rows s.columns) :
    Edited s (change.base s a) a.key := by
  cases change with
  | set raw => exact edited_store raw hs ha
  | clear => exact edited_emptied hs ha

theorem exists_run_eq_finish (change : Change) (ha : s.resolve target = .ok a) :
    ∃ notices, change.run s target = .ok ((change.base s a).finish a.key notices) := by
  cases change with
  | set raw =>
    refine ⟨(s.store raw a).notices ++ [.updated a.toA1 (s.store raw a).cell.kind raw], ?_⟩
    rw [run, setCell, ha]
    rfl
  | clear =>
    refine ⟨(s.store "" a).notices ++ [.cleared a.toA1], ?_⟩
    rw [run, clearCell, ha]
    rfl

theorem exists_run (change : Change) (hs : s.Sound) (ha : s.resolve target = .ok a) :
    ∃ e, change.run s target = .ok e ∧
      e.sheet = (change.base s a).refreshAll
        ((change.base s a).graph.recalculationOrder [a.key]) := by
  have hbase := change.edited_base hs (inGrid_of_resolve ha)
  obtain ⟨notices, hrun⟩ := change.exists_run_eq_finish ha
  exact ⟨_, hrun, sheet_recalculateDependents hbase.sound [a.key]⟩

theorem run_of_error {fault : AddressError} (change : Change)
    (h : s.resolve target = .error fault) : change.run s target = .error fault := by
  cases change <;> simp [run, setCell, clearCell, h, Except.map]

def apply (s : Sheet) (target : Target) (change : Change) : Sheet :=
  match change.run s target with
  | .ok e => e.sheet
  | .error _ => s

theorem apply_of_run {change : Change} {e : Edit} (h : change.run s target = .ok e) :
    change.apply s target = e.sheet := by
  rw [apply, h]

theorem apply_of_error {change : Change} {fault : AddressError}
    (h : s.resolve target = .error fault) : change.apply s target = s := by
  rw [apply, change.run_of_error h]

theorem sound_apply (change : Change) (hs : s.Sound) : (change.apply s target).Sound := by
  cases ha : s.resolve target with
  | error fault => rwa [apply_of_error ha]
  | ok a =>
    obtain ⟨e, hrun, hsheet⟩ := change.exists_run hs ha
    have hbase := change.edited_base hs (inGrid_of_resolve ha)
    rw [apply, hrun]
    simp only [hsheet]
    exact (pass_recalculation hbase.sound [a.key]).sound_refreshAll

end Change

theorem sound_of_empty (hcells : s.cells = .empty) (hgraph : s.graph = ∅) : s.Sound := by
  have hnone (k : String) (c : Cell) : s.cells.find? k ≠ some c := by
    rw [hcells, CellTable.find?_empty]
    exact nofun
  refine ⟨⟨hgraph ▸ Graph.linked_empty, fun k c hc => absurd hc (hnone k c)⟩,
    fun k c hc => absurd hc (hnone k c), fun k hk => absurd ?_ hk⟩
  rw [hgraph]
  exact Graph.dependencies_eq_empty Std.TreeMap.getElem?_emptyc

/-- An empty sheet of ten rows and ten columns after texts were typed into cells. -/
def typed (texts : List (String × String)) : Sheet :=
  texts.foldl (fun s e => (Change.set e.2).apply s (.text e.1)) { rows := 10, columns := 10 }

theorem sound_typed (texts : List (String × String)) : (typed texts).Sound := by
  refine List.foldlRecOn texts _ (sound_of_empty rfl rfl) fun s hs e _ => ?_
  exact (Change.set e.2).sound_apply hs

/-- An edit in an order of dependencies leaves a settled sheet settled exactly if each cell that
was overtaken is up to date all the same; none is unless some processed cell has come to read
other cells. -/
theorem settled_edit_iff (hg : s.Grounded) (hs : s.Settled) (change : Change)
    (ha : s.resolve target = .ok a)
    (horder : (change.base s a).graph.topologicalOrder?
      ((change.base s a).graph.affectedByAny [a.key]).toList = some order) :
    ∃ e, change.run s target = .ok e ∧
      (e.sheet.Settled ↔
        ∀ k ∈ order, Overtaken (change.base s a) e.sheet order k → e.sheet.UpToDate k) ∧
      ∀ k ∈ order, Overtaken (change.base s a) e.sheet order k →
        ∃ d ∈ order, ReflTransGen e.sheet.graph.Reads k d ∧
          (change.base s a).graph.dependencies d ≠ e.sheet.graph.dependencies d := by
  have hsound := hs.sound hg
  obtain ⟨e, hrun, hsheet⟩ := change.exists_run hsound ha
  have hbase := change.edited_base hsound (inGrid_of_resolve ha)
  have hfixed : (change.base s a).graph.recalculationOrder [a.key] = order := by
    rw [Graph.recalculationOrder]
    simp only [horder, Option.getD_some]
  have hordered := Graph.ordered_of_topologicalOrder? hbase.sound.linked horder
  rw [hfixed] at hsheet
  refine ⟨e, hrun, ?_, fun k hk hover => exists_relinked_of_overtaken hordered hk hover⟩
  rw [hsheet]
  exact hbase.settled_iff hs hg hfixed

theorem settled_after_product :
    ∃ e, (Change.set "5").run (typed [("A1", "1"), ("B1", "=A1*2"), ("C1", "=B1+A1")])
      (.text "A1") = .ok e ∧ e.sheet.Settled := by
  have hsound := sound_typed [("A1", "1"), ("B1", "=A1*2"), ("C1", "=B1+A1")]
  generalize hs : typed [("A1", "1"), ("B1", "=A1*2"), ("C1", "=B1+A1")] = s at hsound ⊢
  have hfacts : s.Settled ∧ s.resolve (.text "A1") = .ok ⟨0, 0⟩ ∧
      ((Change.set "5").base s ⟨0, 0⟩).graph.topologicalOrder?
        (((Change.set "5").base s ⟨0, 0⟩).graph.affectedByAny ["r0c0"]).toList =
          some ["r0c1", "r0c2"] ∧
      ∀ d ∈ ["r0c1", "r0c2"],
        ((Change.set "5").base s ⟨0, 0⟩).graph.dependencies d =
          ((Change.set "5").apply s (.text "A1")).graph.dependencies d := by
    rw [← hs]
    decide +kernel
  obtain ⟨hsettled, htarget, horder, hstable⟩ := hfacts
  obtain ⟨e, hrun, hiff, hrelinked⟩ :=
    settled_edit_iff hsound.toGrounded hsettled (.set "5") htarget horder
  rw [Change.apply_of_run hrun] at hstable
  refine ⟨e, hrun, hiff.mpr fun k hk hover => ?_⟩
  obtain ⟨d, hd, -, hne⟩ := hrelinked k hk hover
  exact absurd (hstable d hd) hne

/-- Here `C1` comes after `B1`, which had stopped at the text in `A1` and did not read it. -/
theorem not_settled_after_new_read :
    ∃ s : Sheet, s.Grounded ∧ s.Settled ∧ s.resolve (.text "A1") = .ok ⟨0, 0⟩ ∧
      ((Change.set "5").base s ⟨0, 0⟩).graph.topologicalOrder?
        (((Change.set "5").base s ⟨0, 0⟩).graph.affectedByAny ["r0c0"]).toList =
          some ["r0c1", "r0c2"] ∧
      ¬ ((Change.set "5").apply s (.text "A1")).Settled := by
  refine ⟨typed [("A1", "x"), ("B1", "=A1+C1"), ("C1", "=A1")], (sound_typed _).toGrounded, ?_⟩
  decide +kernel

/-- One pass in an order of dependencies is enough if no processed cell comes to read other cells
in it. -/
theorem settled_of_stable_reads (hg : s.Grounded) (hs : s.Settled) (change : Change)
    (ha : s.resolve target = .ok a)
    (horder : (change.base s a).graph.topologicalOrder?
      ((change.base s a).graph.affectedByAny [a.key]).toList = some order)
    (hstable : ∀ k ∈ order, (change.apply s target).graph.dependencies k =
      (change.base s a).graph.dependencies k) :
    ∃ e, change.run s target = .ok e ∧ e.sheet.Settled := by
  have hsound := hs.sound hg
  obtain ⟨e, hrun, hsheet⟩ := change.exists_run hsound ha
  have hbase := change.edited_base hsound (inGrid_of_resolve ha)
  have hfixed := Graph.recalculationOrder_of_topologicalOrder? horder
  have hordered := Graph.ordered_of_topologicalOrder? hbase.sound.linked horder
  rw [hfixed] at hsheet
  rw [Change.apply_of_run hrun, hsheet] at hstable
  refine ⟨e, hrun, ?_⟩
  rw [hsheet, hbase.settled_iff hs hg hfixed]
  intro k hk hover
  -- An overtaken cell reaches one that came to read other cells.
  obtain ⟨d, hd, -, hne⟩ := exists_relinked_of_overtaken hordered hk hover
  exact absurd (hstable d hd).symm hne

/-- The cell that both formulas read is emptied. -/
theorem settled_after_clearing :
    ∃ e, Change.clear.run (typed [("C1", "=B1+A1"), ("A1", "3"), ("B1", "=A1*2")]) (.text "A1") =
      .ok e ∧ e.sheet.Settled := by
  have hsound := sound_typed [("C1", "=B1+A1"), ("A1", "3"), ("B1", "=A1*2")]
  generalize hs : typed [("C1", "=B1+A1"), ("A1", "3"), ("B1", "=A1*2")] = s at hsound ⊢
  have hfacts : s.Settled ∧ s.resolve (.text "A1") = .ok ⟨0, 0⟩ ∧
      (Change.clear.base s ⟨0, 0⟩).graph.topologicalOrder?
        ((Change.clear.base s ⟨0, 0⟩).graph.affectedByAny ["r0c0"]).toList =
          some ["r0c1", "r0c2"] ∧
      ∀ k ∈ ["r0c1", "r0c2"], (Change.clear.apply s (.text "A1")).graph.dependencies k =
        (Change.clear.base s ⟨0, 0⟩).graph.dependencies k := by
    rw [← hs]
    decide +kernel
  obtain ⟨hsettled, htarget, horder, hstable⟩ := hfacts
  exact settled_of_stable_reads hsound.toGrounded hsettled .clear htarget horder hstable

/-- When there is no order of dependencies, the cells are processed in the order of their keys. A
cell is up to date in the end if whatever it reads of them comes before it or shows the same as
before, as long as nothing comes to read other cells. -/
theorem upToDate_of_unordered (hg : s.Grounded) (hs : s.Settled)
    (ha : s.resolve target = .ok a)
    (horder : ((s.store raw a).sheet.graph.affectedByAny [a.key]).toList = order)
    (hnone : (s.store raw a).sheet.graph.topologicalOrder? order = none) :
    ∃ e, s.setCell target raw = .ok e ∧
      ((∀ k ∈ order, (s.store raw a).sheet.graph.dependencies k = e.sheet.graph.dependencies k) →
        ∀ k ∈ order,
          (∀ d ∈ order, e.sheet.graph.Reads k d →
            d < k ∨ (s.store raw a).sheet.shown d = e.sheet.shown d) →
          e.sheet.UpToDate k) := by
  have hsound := hs.sound hg
  obtain ⟨e, hrun, hsheet⟩ := (Change.set raw).exists_run hsound ha
  have hbase := (Change.set raw).edited_base hsound (inGrid_of_resolve ha)
  have hfixed : (s.store raw a).sheet.graph.recalculationOrder [a.key] = order := by
    rw [Graph.recalculationOrder, horder]
    simp only [hnone, Option.getD_none]
  have hsorted : order.Pairwise (· < ·) := horder ▸ KeySet.sorted _
  have hpass := pass_recalculation hbase.sound [a.key]
  have hnodup := Graph.nodup_recalculationOrder hbase.sound.linked [a.key]
  simp only [Change.base, hfixed] at hsheet hpass hnodup
  refine ⟨e, hrun, fun hstable k hk hearly => ?_⟩
  rw [hsheet] at hstable hearly ⊢
  refine hpass.upToDate_of_not_overtaken hnodup hk ?_
  rintro (⟨d, hlate, hread, hne⟩ | ⟨d, hlate, -, -, hne⟩)
  · rcases hearly d (mem_of_mem_late hlate) hread with hlt | hsame
    · exact not_lt_of_mem_late hsorted hk hlate hlt
    · exact hne hsame
  · exact hne (hstable d (mem_of_mem_late hlate))

/-- `D1` and `E1` read each other; `C1` reads `B1`, which comes before it. -/
theorem upToDate_beside_cycle :
    ∃ e, (typed [("A1", "1"), ("B1", "=A1"), ("C1", "=B1+A1"), ("D1", "=A1+E1"),
      ("E1", "=D1")]).setCell (.text "A1") "2" = .ok e ∧ e.sheet.graph.Reads "r0c2" "r0c1" ∧
        e.sheet.UpToDate "r0c2" := by
  let texts := [("A1", "1"), ("B1", "=A1"), ("C1", "=B1+A1"), ("D1", "=A1+E1"), ("E1", "=D1")]
  have hsound := sound_typed texts
  generalize hs : typed texts = s at hsound ⊢
  have hfacts : s.Settled ∧ s.resolve (.text "A1") = .ok ⟨0, 0⟩ ∧
      ((s.store "2" ⟨0, 0⟩).sheet.graph.affectedByAny ["r0c0"]).toList =
        ["r0c1", "r0c2", "r0c3", "r0c4"] ∧
      (s.store "2" ⟨0, 0⟩).sheet.graph.topologicalOrder? ["r0c1", "r0c2", "r0c3", "r0c4"] = none ∧
      (∀ k ∈ ["r0c1", "r0c2", "r0c3", "r0c4"],
        (s.store "2" ⟨0, 0⟩).sheet.graph.dependencies k =
          ((Change.set "2").apply s (.text "A1")).graph.dependencies k) ∧
      (∀ d ∈ ["r0c1", "r0c2", "r0c3", "r0c4"],
        ((Change.set "2").apply s (.text "A1")).graph.Reads "r0c2" d → d = "r0c1") ∧
      ((Change.set "2").apply s (.text "A1")).graph.Reads "r0c2" "r0c1" := by
    rw [← hs]
    decide +kernel
  obtain ⟨hsettled, htarget, horder, hnone, hstable, hreads, hread⟩ := hfacts
  obtain ⟨e, hrun, h⟩ :=
    upToDate_of_unordered hsound.toGrounded hsettled htarget horder hnone
  have hsheet : (Change.set "2").apply s (.text "A1") = e.sheet := Change.apply_of_run hrun
  rw [hsheet] at hstable hreads hread
  refine ⟨e, hrun, hread, h hstable "r0c2" (by decide) fun d hd hdep => .inl ?_⟩
  rw [hreads d hd hdep]
  decide

/-- Here `C1` comes before `D1`, which it reads; `E1` and `F1` read each other. -/
theorem not_upToDate_beside_cycle :
    ∃ s : Sheet, s.Grounded ∧ s.Settled ∧ s.resolve (.text "A1") = .ok ⟨0, 0⟩ ∧
      ((s.store "2" ⟨0, 0⟩).sheet.graph.affectedByAny ["r0c0"]).toList =
        ["r0c2", "r0c3", "r0c4", "r0c5"] ∧
      (s.store "2" ⟨0, 0⟩).sheet.graph.topologicalOrder? ["r0c2", "r0c3", "r0c4", "r0c5"] =
        none ∧
      (∀ k ∈ ["r0c2", "r0c3", "r0c4", "r0c5"],
        (s.store "2" ⟨0, 0⟩).sheet.graph.dependencies k =
          ((Change.set "2").apply s (.text "A1")).graph.dependencies k) ∧
      ((Change.set "2").apply s (.text "A1")).graph.hasCycle "r0c2" = false ∧
      (((Change.set "2").apply s (.text "A1")).again? "r0c2").map Processed.cell ≠
        ((Change.set "2").apply s (.text "A1")).cells.find? "r0c2" := by
  refine ⟨typed [("A1", "1"), ("D1", "=A1"), ("C1", "=D1"), ("E1", "=A1+F1"), ("F1", "=E1")],
    (sound_typed _).toGrounded, ?_⟩
  decide +kernel

end Gridcalc.Sheet
