import Gridcalc.Proofs.Grid.Rectangle
import Gridcalc.Proofs.Sheet.Edit
import Gridcalc.Proofs.Sheet.Recalculate

/-! # Histories

Whatever is done to a sheet is done in rounds: one cell may be stored, and then some formula cells
are processed again, all those that depend on it among them. A round leaves alone what does not
reach the cells that it processes.
-/

namespace Gridcalc.Sheet

open Relation (ReflTransGen TransGen)

variable {s t u : Sheet} {k : String} {a source : Address} {raw : String}
  {order : List String}

/-- The cell that was stored, if any, the sheet then, and what was processed in which order. -/
structure Round where
  edited : Option String
  before : Sheet
  order : List String

def Round.after (r : Round) : Sheet := r.before.refreshAll r.order

def followUp (t : Sheet) (k : String) : Round := ⟨some k, t, t.graph.recalculationOrder [k]⟩

inductive Action where
  | edit (target : Target) (change : Change)
  | fill (source first last : Target)
  | recalculate (changed : List String)
  | recalculateAll
  | clear

def fillRounds (s : Sheet) (source : Address) : List (Address × String) → List Round
  | [] => []
  | (target, text) :: plan =>
    if target = source then s.fillRounds source plan
    else
      (s.store text target).sheet.followUp target.key ::
        (s.write target text).sheet.fillRounds source plan

namespace Action

def run (s : Sheet) : Action → Sheet
  | edit target change => change.apply s target
  | fill source first last =>
    match s.fill source first last with
    | .ok e => e.sheet
    | .error _ => s
  | recalculate changed => (s.recalculateDependents changed).sheet
  | recalculateAll => s.recalculateAll.1
  | clear => s.clear

def rounds (s : Sheet) : Action → List Round
  | edit target change =>
    match s.resolve target with
    | .ok a => [(change.base s a).followUp a.key]
    | .error _ => []
  | fill source first last =>
    match s.resolve source, s.resolve first, s.resolve last with
    | .ok a, .ok b, .ok c => s.fillRounds a (fillPlan ((s.cellAt a).raw?.getD "") a b c)
    | _, _, _ => []
  | recalculate changed => [⟨none, s, s.graph.recalculationOrder changed⟩]
  | recalculateAll => [⟨none, s, s.formulaKeys⟩, ⟨none, s.learned, s.secondOrder⟩]
  | clear => []

end Action

def runAll (s : Sheet) (actions : List Action) : Sheet := actions.foldl (fun s a => a.run s) s

def roundsAll (s : Sheet) : List Action → List Round
  | [] => []
  | action :: actions => action.rounds s ++ (action.run s).roundsAll actions

/-- The rounds lead from the one sheet to the other. -/
inductive Led : Sheet → List Round → Sheet → Prop
  | nil (s : Sheet) : Led s [] s
  | edit {s t u : Sheet} {k : String} {rounds : List Round} (h : Edited s t k)
      (hrest : Led (t.followUp k).after rounds u) : Led s (t.followUp k :: rounds) u
  | process {s u : Sheet} {order : List String} {rounds : List Round} (h : Pass s order)
      (hn : order.Nodup)
      (hapart : ∀ k, k ∉ order → ∀ d, ReflTransGen s.graph.Reads k d → d ∉ order)
      (hrest : Led (s.refreshAll order) rounds u) : Led s (⟨none, s, order⟩ :: rounds) u
  | clear {s u : Sheet} {rounds : List Round} (hrest : Led s.clear rounds u) : Led s rounds u

namespace Led

variable {rounds rounds' : List Round}

theorem append (h : Led s rounds t) (h' : Led t rounds' u) : Led s (rounds ++ rounds') u := by
  induction h with
  | nil s => exact h'
  | edit h _ ih => exact .edit h (ih h')
  | process h hn hapart _ ih => exact .process h hn hapart (ih h')
  | clear _ ih => exact .clear (ih h')

theorem sound (h : Led s rounds t) (hs : s.Sound) : t.Sound := by
  induction h with
  | nil s => exact hs
  | edit h _ ih => exact ih (pass_recalculation h.sound _).sound_refreshAll
  | process h _ _ _ ih => exact ih h.sound_refreshAll
  | clear _ ih => exact ih (sound_of_empty rfl rfl)

end Led

theorem sheet_write (raw : String) (hs : s.Sound) (ha : a.InGrid s.rows s.columns) :
    (s.write a raw).sheet = ((s.store raw a).sheet.followUp a.key).after :=
  sheet_recalculateDependents (sound_store raw hs ha) [a.key]

theorem sound_write (raw : String) (hs : s.Sound) (ha : a.InGrid s.rows s.columns) :
    (s.write a raw).sheet.Sound := by
  rw [sheet_write raw hs ha]
  exact (pass_recalculation (sound_store raw hs ha) [a.key]).sound_refreshAll

theorem size_replay (s : Sheet) (ks : List String) :
    (s.replay ks).sheet.rows = s.rows ∧ (s.replay ks).sheet.columns = s.columns := by
  induction ks generalizing s with
  | nil => exact ⟨rfl, rfl⟩
  | cons k ks ih =>
    rw [replay]
    split
    · split
      · exact ih s
      · exact ih _
    · exact ih s

theorem size_write (s : Sheet) (a : Address) (raw : String) :
    (s.write a raw).sheet.rows = s.rows ∧ (s.write a raw).sheet.columns = s.columns := by
  obtain ⟨hrows, hcolumns⟩ := size_replay (s.store raw a).sheet
    ((s.store raw a).sheet.graph.recalculationOrder [a.key])
  exact ⟨hrows.trans rows_store, hcolumns.trans columns_store⟩

theorem led_carryOut (hs : s.Sound) {plan : List (Address × String)}
    (hplan : ∀ e ∈ plan, e.1.InGrid s.rows s.columns) :
    Led s (s.fillRounds source plan) (s.carryOut source plan).sheet := by
  induction plan generalizing s with
  | nil => exact .nil s
  | cons e plan ih =>
    obtain ⟨target, text⟩ := e
    have hrest : ∀ e ∈ plan, e.1.InGrid s.rows s.columns := fun e he =>
      hplan e (List.mem_cons_of_mem _ he)
    rw [fillRounds, carryOut]
    split
    · exact ih hs hrest
    · have htarget : target.InGrid s.rows s.columns := hplan _ List.mem_cons_self
      have hwrite := sheet_write text hs htarget
      refine .edit (edited_store text hs htarget) (hwrite ▸ ih (sound_write text hs htarget) ?_)
      rwa [(size_write s target text).1, (size_write s target text).2]

theorem inGrid_of_mem_fillPlan {text : String} {first last : Address} {rows columns : Int}
    (hsource : source.InGrid rows columns) (hfirst : first.InGrid rows columns)
    (hlast : last.InGrid rows columns) {e : Address × String}
    (he : e ∈ fillPlan text source first last) : e.1.InGrid rows columns := by
  obtain ⟨target, htarget, rfl⟩ := List.mem_map.mp he
  rw [fillTargets] at htarget
  split at htarget
  · obtain ⟨row, hrow, rfl⟩ := List.mem_map.mp htarget
    rw [Address.mem_span_iff] at hrow
    exact ⟨hsource.1, hsource.2.1, Int.le_trans hfirst.2.2.1 hrow.1,
      Int.lt_of_le_of_lt hrow.2 hlast.2.2.2⟩
  · split at htarget
    · obtain ⟨column, hcolumn, rfl⟩ := List.mem_map.mp htarget
      rw [Address.mem_span_iff] at hcolumn
      exact ⟨Int.le_trans hfirst.1 hcolumn.1, Int.lt_of_le_of_lt hcolumn.2 hlast.2.1,
        hsource.2.2⟩
    · cases htarget

theorem Sound.eq_of_reaches (hs : s.Sound) (hk : k ∉ s.formulaKeys) {d : String}
    (h : ReflTransGen s.graph.Reads k d) : d = k := by
  rcases ReflTransGen.cases_head_iff.mp h with rfl | ⟨y, hread, -⟩
  · rfl
  · exact absurd (hs.mem_formulaKeys_iff.mpr (hs.exists_formula?_of_reads hread)) hk

theorem led_fill (hs : s.Sound) (source first last : Target) :
    Led s ((Action.fill source first last).rounds s) ((Action.fill source first last).run s) := by
  rw [Action.rounds, Action.run, fill]
  cases ha : s.resolve source with
  | error _ => exact .nil s
  | ok a =>
    cases hb : s.resolve first with
    | error _ => exact .nil s
    | ok b =>
      cases hc : s.resolve last with
      | error _ => exact .nil s
      | ok c =>
        exact led_carryOut hs fun e he => inGrid_of_mem_fillPlan (inGrid_of_resolve ha)
          (inGrid_of_resolve hb) (inGrid_of_resolve hc) he

theorem Action.led (action : Action) (hs : s.Sound) :
    Led s (action.rounds s) (action.run s) := by
  cases action with
  | edit target change =>
    rw [rounds, run]
    cases ha : s.resolve target with
    | error fault =>
      rw [Change.apply_of_error ha]
      exact .nil s
    | ok a =>
      obtain ⟨e, hrun, hsheet⟩ := change.exists_run hs ha
      rw [Change.apply_of_run hrun, hsheet]
      exact .edit (change.edited_base hs (inGrid_of_resolve ha)) (.nil _)
  | fill source first last => exact led_fill hs source first last
  | recalculate changed =>
    rw [rounds, run, sheet_recalculateDependents hs]
    exact .process (pass_recalculation hs changed)
      (Graph.nodup_recalculationOrder hs.linked changed)
      (fun k hk d => not_mem_recalculationOrder_of_reaches hs hk) (.nil _)
  | recalculateAll =>
    have hkeys (k : String) : k ∈ s.learned.formulaKeys ↔ k ∈ s.secondOrder := by
      rw [hs.mem_secondOrder_iff, hs.mem_formulaKeys_iff, hs.sound_learned.mem_formulaKeys_iff,
        hs.learned_eq, hs.pass_formulaKeys.formula?_refreshAll]
    rw [rounds, run, hs.recalculateAll_eq]
    refine .process hs.pass_formulaKeys (nodup_formulaKeys s) (fun k hk d hd => ?_)
      (hs.learned_eq ▸ .process hs.pass_secondOrder hs.nodup_secondOrder (fun k hk d hd => ?_)
        (.nil _))
    · rwa [hs.eq_of_reaches hk hd]
    · rwa [hs.sound_learned.eq_of_reaches (mt (hkeys k).mp hk) hd]
  | clear => exact .clear (.nil _)

/-- Whatever is done is done in rounds. -/
theorem led_runAll (actions : List Action) (hs : s.Sound) :
    Led s (s.roundsAll actions) (s.runAll actions) := by
  induction actions generalizing s with
  | nil => exact .nil s
  | cons action actions ih =>
    have hfirst := action.led hs
    exact hfirst.append (ih (hfirst.sound hs))

end Gridcalc.Sheet
