import Gridcalc.Proofs.Graph.Existence
import Gridcalc.Proofs.Sheet.Touched

/-! # What an edit reports

An edit reports once that the cell was stored and, if anything depends on it, once that this was
computed anew. What is processed on the way reports failures of formulas only, so that it neither
hides these notices nor doubles them.
-/

namespace Gridcalc

def Notice.ofKinds (kinds : List NoticeKind) (notices : List Notice) : List Notice :=
  notices.filter fun n => decide (n.kind ∈ kinds)

def NoticeKind.failures : List NoticeKind := [parseError, evalError, cycleDetected]

theorem Notice.ofKinds_append (kinds : List NoticeKind) (notices notices' : List Notice) :
    ofKinds kinds (notices ++ notices') = ofKinds kinds notices ++ ofKinds kinds notices' :=
  List.filter_append ..

theorem Notice.ofKinds_cons (kinds : List NoticeKind) (n : Notice) (notices : List Notice) :
    ofKinds kinds (n :: notices) =
      if n.kind ∈ kinds then n :: ofKinds kinds notices else ofKinds kinds notices := by
  simp only [ofKinds, List.filter_cons, decide_eq_true_eq]

theorem Notice.ofKinds_failures {kinds : List NoticeKind} {notices : List Notice}
    (h : ∀ n ∈ notices, n.kind ∈ NoticeKind.failures)
    (hkinds : ∀ kind ∈ kinds, kind ∉ NoticeKind.failures) : ofKinds kinds notices = [] := by
  rw [ofKinds, List.filter_eq_nil_iff]
  intro n hn hkind
  exact hkinds n.kind (of_decide_eq_true hkind) (h n hn)

namespace Sheet

open Relation (TransGen)

variable {s base t : Sheet} {k x raw : String} {ks : List String} {a : Address} {target : Target}
  {n : Notice} {e : Edit}

section Failures

theorem kind_formulaNotices {cell formula : String} {v : Verdict} {cycle : Option (List String)}
    (hn : n ∈ formulaNotices cell formula v cycle) : n.kind ∈ NoticeKind.failures := by
  cases v <;> cases cycle <;>
    simp [formulaNotices] at hn <;> subst hn <;> simp [NoticeKind.failures, Notice.kind]

theorem kind_process (hn : n ∈ (s.process raw a).notices) : n.kind ∈ NoticeKind.failures := by
  cases hf : isFormulaText raw with
  | false =>
    by_cases hblank : Text.trim raw = ""
    · rw [process_of_blank hblank] at hn
      cases hn
    · simp [process, hblank, hf] at hn
  | true =>
    rw [process_of_formula hf] at hn
    exact kind_formulaNotices hn

theorem kind_replay (hn : n ∈ (s.replay ks).notices) : n.kind ∈ NoticeKind.failures := by
  induction ks generalizing s with
  | nil => cases hn
  | cons k ks ih =>
    rw [replay] at hn
    split at hn
    · split at hn
      · exact ih hn
      · rcases List.mem_append.mp hn with hn | hn
        · exact kind_process hn
        · exact ih hn
    · exact ih hn

end Failures

section Replay

def marked (s : Sheet) (keys : KeySet) : KeySet :=
  keys.filter fun k => (s.cells.find? k).any Cell.isCyclic

/-- No cell is processed twice, so what came of it is there in the end. -/
theorem Pass.find?_of_mem_updated (h : Pass s ks) (hnodup : ks.Nodup) {c : Cell}
    (hx : (x, c) ∈ (s.replay ks).updated) : (s.refreshAll ks).cells.find? x = some c := by
  induction ks generalizing s with
  | nil => cases hx
  | cons k ks ih =>
    obtain ⟨f, -, hrest⟩ := h.of_cons
    obtain ⟨p, hcell, hreplay⟩ := h.replay_cons
    obtain ⟨hk, hnodup⟩ := List.nodup_cons.mp hnodup
    rw [hreplay] at hx
    rcases List.mem_cons.mp hx with heq | hx
    · cases heq
      exact (hrest.sameAt_refreshAll hk).cell.symm.trans hcell
    · exact ih hrest hnodup hx

theorem Pass.cyclicKeys_updated (h : Pass s ks) (hnodup : ks.Nodup) :
    cyclicKeys (s.replay ks).updated = ((s.refreshAll ks).marked (.ofList ks)).toList := by
  have hkeys (x : String) : x ∈ ks ↔ ∃ c, (x, c) ∈ (s.replay ks).updated := by
    conv_lhs => rw [← h.keys_replay]
    simp
  refine congrArg KeySet.toList (KeySet.ext fun x => ?_)
  simp only [marked, KeySet.mem_ofList, KeySet.mem_filter, List.mem_map, List.mem_filter,
    Prod.exists, exists_and_right, exists_eq_right, hkeys]
  constructor
  · rintro ⟨c, hx, hcyclic⟩
    refine ⟨⟨c, hx⟩, ?_⟩
    rw [h.find?_of_mem_updated hnodup hx]
    exact hcyclic
  · rintro ⟨⟨c, hx⟩, hcyclic⟩
    rw [h.find?_of_mem_updated hnodup hx] at hcyclic
    exact ⟨c, hx, hcyclic⟩

end Replay

/-- The notices of an edit of the cell of `k` that led to `t`, of which `stored` is about the cell
itself; in between, when that had been stored but nothing had followed, the sheet was `base`. -/
structure Reports (base t : Sheet) (k : String) (stored : Notice) (notices : List Notice) :
    Prop where
  edited : Notice.ofKinds [.cellUpdated, .cellCleared] notices = [stored]
  completed : Notice.ofKinds [.recalcCompleted] notices =
    if base.graph.affected k = ∅ then []
    else [.recalculated [k] (base.graph.affected k).size
      (t.marked (base.graph.affected k)).toList]
  unordered : base.graph.CyclicAmong (base.graph.affected k).toList →
    Notice.ofKinds [.recalcCycleFallback] notices =
      [.unordered [k] (t.marked (base.graph.affected k)).toList]
  ordered : ¬ base.graph.CyclicAmong (base.graph.affected k).toList →
    Notice.ofKinds [.recalcCycleFallback] notices = []

namespace Sound

variable (hb : base.Sound)

include hb

theorem cyclicKeys_replay :
    cyclicKeys (base.replay (base.graph.recalculationOrder [k])).updated =
      ((base.recalculateDependents [k]).sheet.marked (base.graph.affected k)).toList := by
  have hset : KeySet.ofList (base.graph.recalculationOrder [k]) = base.graph.affected k :=
    KeySet.ext fun x =>
      KeySet.mem_ofList.trans (Graph.perm_recalculationOrder hb.linked k).mem_iff
  rw [(pass_recalculation hb [k]).cyclicKeys_updated
    (Graph.nodup_recalculationOrder hb.linked [k]), hset, sheet_recalculateDependents hb]

theorem length_updated :
    (base.replay (base.graph.recalculationOrder [k])).updated.length =
      (base.graph.affected k).size := by
  rw [← List.length_map (·.1), (pass_recalculation hb [k]).keys_replay,
    (Graph.perm_recalculationOrder hb.linked k).length_eq, KeySet.size]

theorem isEmpty_updated_iff :
    (base.replay (base.graph.recalculationOrder [k])).updated.isEmpty = true ↔
      base.graph.affected k = ∅ := by
  rw [List.isEmpty_iff_length_eq_zero, hb.length_updated, KeySet.size, List.length_eq_zero_iff,
    KeySet.toList_eq_nil_iff]

/-- The order is asked for an order again; it has one unless it is the listing of the keys that
was taken for want of one. -/
theorem fellBack_iff :
    (!(base.graph.recalculationOrder [k]).isEmpty &&
        (base.graph.topologicalOrder? (base.graph.recalculationOrder [k])).isNone) = true ↔
      base.graph.CyclicAmong (base.graph.affected k).toList := by
  rw [Bool.and_eq_true, Option.isNone_iff_eq_none, Graph.topologicalOrder?_eq_none_iff hb.linked,
    Graph.CyclicAmong.congr fun _ => (Graph.perm_recalculationOrder hb.linked k).mem_iff,
    and_iff_right_iff_imp]
  intro hcycle
  have hne := (Graph.perm_recalculationOrder hb.linked k).length_eq ▸
    List.length_pos_iff.mpr hcycle.ne_nil
  simpa using List.length_pos_iff.mp hne

theorem replayNotices_replay (fellBack : Bool) :
    replayNotices [k] fellBack (base.replay (base.graph.recalculationOrder [k])).updated =
      if base.graph.affected k = ∅ then []
      else
        .recalculated [k] (base.graph.affected k).size
            ((base.recalculateDependents [k]).sheet.marked (base.graph.affected k)).toList ::
          if fellBack then
            [.unordered [k]
              ((base.recalculateDependents [k]).sheet.marked (base.graph.affected k)).toList]
          else [] := by
  rw [replayNotices, hb.cyclicKeys_replay, hb.length_updated]
  simp only [hb.isEmpty_updated_iff]

/-- The failures of single formulas, before and after the notice of the cell itself, are told
apart from the rest by their kinds. -/
theorem reports_finish {stored : Notice} {failures : List Notice}
    (hstored : stored.kind = .cellUpdated ∨ stored.kind = .cellCleared)
    (hfailures : ∀ n ∈ failures, n.kind ∈ NoticeKind.failures) (k : String) :
    Reports base (base.finish k (failures ++ [stored])).sheet k stored
      (base.finish k (failures ++ [stored])).notices := by
  obtain ⟨fellBack, hfellBack, hnotices⟩ : ∃ fellBack : Bool,
      (fellBack = true ↔ base.graph.CyclicAmong (base.graph.affected k).toList) ∧
      (base.finish k (failures ++ [stored])).notices = failures ++ [stored] ++
        ((base.replay (base.graph.recalculationOrder [k])).notices ++
          replayNotices [k] fellBack
            (base.replay (base.graph.recalculationOrder [k])).updated) :=
    ⟨_, hb.fellBack_iff, rfl⟩
  have hsplit (kinds : List NoticeKind) (hkinds : ∀ kind ∈ kinds, kind ∉ NoticeKind.failures) :
      Notice.ofKinds kinds (base.finish k (failures ++ [stored])).notices =
        Notice.ofKinds kinds (stored :: replayNotices [k] fellBack
          (base.replay (base.graph.recalculationOrder [k])).updated) := by
    rw [hnotices, Notice.ofKinds_append, Notice.ofKinds_append, Notice.ofKinds_append,
      Notice.ofKinds_failures hfailures hkinds,
      Notice.ofKinds_failures (fun _ => kind_replay) hkinds, List.nil_append, List.nil_append,
      ← Notice.ofKinds_append, List.singleton_append]
  have hsheet : (base.finish k (failures ++ [stored])).sheet =
      (base.recalculateDependents [k]).sheet := rfl
  have hempty (h : base.graph.affected k = ∅) :
      ¬ base.graph.CyclicAmong (base.graph.affected k).toList := fun hcycle =>
    hcycle.ne_nil (KeySet.toList_eq_nil_iff.mpr h)
  rw [← hfellBack] at hempty
  rw [hb.replayNotices_replay, ← hsheet] at hsplit
  constructor
  case edited =>
    rw [hsplit _ (by decide), Notice.ofKinds_cons, if_pos (by simpa using hstored)]
    split
    · rfl
    · cases fellBack <;> rfl
  case completed =>
    rw [hsplit _ (by decide), Notice.ofKinds_cons, if_neg (by grind)]
    split
    · rfl
    · cases fellBack <;> rfl
  case unordered =>
    intro hcycle
    rw [hsplit _ (by decide), Notice.ofKinds_cons, if_neg (by grind),
      if_neg fun h => hempty h (hfellBack.mpr hcycle), if_pos (hfellBack.mpr hcycle)]
    rfl
  case ordered =>
    intro hcycle
    rw [hsplit _ (by decide), Notice.ofKinds_cons, if_neg (by grind),
      if_neg (mt hfellBack.mp hcycle)]
    split <;> rfl

end Sound

theorem cellAt_store : (s.store raw a).sheet.cellAt a = (s.process raw a).cell := by
  rw [cellAt, find?_store, if_pos rfl]
  split
  · rename_i hblank
    rw [process_of_blank hblank, Option.getD_none]
  · rw [Option.getD_some]

def Change.notice (s : Sheet) (a : Address) : Change → Notice
  | set raw => .updated a.toA1 (((set raw).base s a).cellAt a).kind raw
  | clear => .cleared a.toA1

theorem Change.kind_notice (change : Change) :
    (change.notice s a).kind = .cellUpdated ∨ (change.notice s a).kind = .cellCleared := by
  cases change with
  | set raw => exact .inl rfl
  | clear => exact .inr rfl

theorem Change.exists_run_eq_finish_notice (change : Change) (ha : s.resolve target = .ok a) :
    ∃ failures, (∀ n ∈ failures, n.kind ∈ NoticeKind.failures) ∧
      change.run s target =
        .ok ((change.base s a).finish a.key (failures ++ [change.notice s a])) := by
  cases change with
  | set raw =>
    refine ⟨(s.process raw a).notices, fun _ => kind_process, ?_⟩
    rw [run, setCell, ha, notice, base, cellAt_store]
    rfl
  | clear =>
    refine ⟨(s.process "" a).notices, fun _ => kind_process, ?_⟩
    rw [run, clearCell, ha]
    rfl

/-- Whatever was done to the sheet before, an edit reports the stored cell once, the replay once if
anything depends on the cell, and the fallback exactly if the links among what depends on the cell
close a cycle. -/
theorem edit_reports (hs : s.Reached) (change : Change) (hrun : change.run s target = .ok e) :
    ∃ a, s.resolve target = .ok a ∧
      Reports (change.base s a) e.sheet a.key (change.notice s a) e.notices := by
  have hsound := hs.regular.toSound
  cases ha : s.resolve target with
  | error fault =>
    rw [change.run_of_error ha] at hrun
    cases hrun
  | ok a =>
    obtain ⟨failures, hfailures, hfinish⟩ := change.exists_run_eq_finish_notice ha
    rw [hfinish] at hrun
    cases hrun
    have hbase := change.edited_base hsound (inGrid_of_resolve ha)
    exact ⟨a, rfl, hbase.sound.reports_finish change.kind_notice hfailures a.key⟩

/-- `D1` and `E1` read each other, and `D1` reads the edited cell, too; `B1` reads nothing else. -/
theorem reports_beside_cycle :
    ∃ e, (Change.set "2").run (typed [("A1", "1"), ("B1", "=A1"), ("D1", "=A1+E1"),
      ("E1", "=D1")]) (.text "A1") = .ok e ∧
      Notice.ofKinds [.recalcCompleted] e.notices =
        [.recalculated ["r0c0"] 3 ["r0c3", "r0c4"]] ∧
      Notice.ofKinds [.recalcCycleFallback] e.notices =
        [.unordered ["r0c0"] ["r0c3", "r0c4"]] := by
  have hreached := reached_typed [("A1", "1"), ("B1", "=A1"), ("D1", "=A1+E1"), ("E1", "=D1")]
  generalize hs : typed [("A1", "1"), ("B1", "=A1"), ("D1", "=A1+E1"), ("E1", "=D1")] = s
    at hreached ⊢
  have hfacts : s.resolve (.text "A1") = .ok ⟨0, 0⟩ ∧
      ((Change.set "2").base s ⟨0, 0⟩).graph.affected "r0c0" =
        KeySet.ofList ["r0c1", "r0c3", "r0c4"] ∧
      ((Change.set "2").apply s (.text "A1")).marked (KeySet.ofList ["r0c1", "r0c3", "r0c4"]) =
        KeySet.ofList ["r0c3", "r0c4"] ∧
      ((Change.set "2").base s ⟨0, 0⟩).graph.Reads "r0c3" "r0c4" ∧
      ((Change.set "2").base s ⟨0, 0⟩).graph.Reads "r0c4" "r0c3" := by
    rw [← hs]
    decide +kernel
  obtain ⟨htarget, haffected, hmarked, hthere, hback⟩ := hfacts
  obtain ⟨failures, -, hrun⟩ := (Change.set "2").exists_run_eq_finish_notice htarget
  obtain ⟨a, ha, hreports⟩ := edit_reports hreached (.set "2") hrun
  cases htarget.symm.trans ha
  have hkey : (⟨0, 0⟩ : Address).key = "r0c0" := by decide +kernel
  rw [hkey] at hreports hrun
  rw [Change.apply_of_run hrun] at hmarked
  refine ⟨_, hrun, ?_, ?_⟩
  · rw [hreports.completed, haffected, hmarked]
    decide +kernel
  · rw [hreports.unordered, haffected, hmarked]
    · decide +kernel
    · refine ⟨"r0c3", .tail (.single ⟨hthere, ?_, ?_⟩) ⟨hback, ?_, ?_⟩⟩
      all_goals
        rw [haffected]
        decide +kernel

end Sheet

end Gridcalc
