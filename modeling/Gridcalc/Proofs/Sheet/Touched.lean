import Gridcalc.Proofs.Sheet.Reached

/-! # What an edit touches

The keys that an edit gives are the edited one and those of all that depended on it when it had
been stored. Nothing else on the sheet changes; and since what is not listed reaches nothing that
is, it stays up to date, whatever the replay of the listed cells came across.
-/

namespace Gridcalc.Sheet

open Relation (ReflTransGen TransGen)

variable {s t : Sheet} {k x : String} {a : Address} {target : Target} {e : Edit}

/-- An edit of the cell of `k` has led from `s` to `t` and given these keys; in between, when the
cell had been stored but nothing had followed, the sheet was `base`. -/
structure Touches (s base t : Sheet) (k : String) (keys : List String) : Prop where
  first : keys.head? = some k
  nodup : keys.Nodup
  listed : ∀ x, x ∈ keys ↔ x = k ∨ TransGen base.graph.Reads x k
  formulas : ∀ x ∈ keys, x ≠ k → ∃ f, base.formula? x = some f
  texts : ∀ x, x ≠ k → (s.cells.find? x).bind Cell.raw? = (t.cells.find? x).bind Cell.raw?
  unlisted : ∀ x, x ∉ keys → SameAt s t x
  upToDate : ∀ x, x ∉ keys → s.UpToDate x → t.UpToDate x

theorem Edited.touches (h : Edited s t k) (hs : s.Sound) (notices : List Notice) :
    Touches s t (t.finish k notices).sheet k (t.finish k notices).keys := by
  have hpass := pass_recalculation h.sound [k]
  have hsheet : (t.finish k notices).sheet = t.refreshAll (t.graph.recalculationOrder [k]) :=
    sheet_recalculateDependents h.sound [k]
  have hlisted (x : String) : x ∈ (t.finish k notices).keys ↔
      x = k ∨ x ∈ t.graph.recalculationOrder [k] := by
    rw [keys_finish h.sound, List.mem_cons, List.mem_filter, bne_iff_ne]
    constructor
    · exact Or.imp_right And.left
    · rintro (hx | hx)
      · exact .inl hx
      · by_cases hxk : x = k
        · exact .inl hxk
        · exact .inr ⟨hx, hxk⟩
  rw [hsheet]
  constructor
  case first => rw [keys_finish h.sound, List.head?_cons]
  case nodup =>
    have hnodup := Graph.nodup_recalculationOrder h.sound.linked [k]
    rw [keys_finish h.sound]
    exact List.nodup_cons.mpr ⟨by simp, hnodup.filter _⟩
  case listed =>
    intro x
    rw [hlisted, h.mem_recalculationOrder_iff]
  case formulas =>
    intro x hx hxk
    exact hpass.formulas x (((hlisted x).mp hx).resolve_left hxk)
  case texts =>
    intro x hxk
    rw [hpass.raw?_refreshAll, (h.elsewhere x hxk).cell]
  case unlisted =>
    intro x hx
    obtain ⟨hxk, hnot⟩ := not_or.mp (mt (hlisted x).mpr hx)
    exact (h.elsewhere x hxk).trans (hpass.sameAt_refreshAll hnot)
  case upToDate =>
    intro x hx hold
    obtain ⟨hxk, hnot⟩ := not_or.mp (mt (hlisted x).mpr hx)
    -- It has no path to the edited cell: neither storing nor the replay changes what it reads.
    have hapart : ¬ TransGen t.graph.Reads x k := mt h.mem_recalculationOrder_iff.mpr hnot
    exact h.upToDate_follow hnot (h.upToDate_apart hs hxk hapart hold)

theorem reached_typed (texts : List (String × String)) : (typed texts).Reached :=
  List.foldlRecOn texts _ (.blank 10 10) fun _ hs e _ => hs.act (.edit (.text e.1) (.set e.2))

/-- An edit touches what depends on the edited cell, all of it, and nothing else. -/
theorem edit_touches (hs : s.Reached) (change : Change) (hrun : change.run s target = .ok e) :
    ∃ a, s.resolve target = .ok a ∧
      Touches s (change.base s a) e.sheet a.key e.keys := by
  have hsound := hs.regular.toSound
  cases ha : s.resolve target with
  | error fault =>
    rw [change.run_of_error ha] at hrun
    cases hrun
  | ok a =>
    obtain ⟨notices, hfinish⟩ := change.exists_run_eq_finish ha
    rw [hfinish] at hrun
    cases hrun
    have hbase := change.edited_base hsound (inGrid_of_resolve ha)
    exact ⟨a, rfl, hbase.touches hsound notices⟩

/-- `B1` and `C1` come to read each other while they are replayed; `F1` only reads `E1`. -/
theorem untouched_beside_new_cycle :
    ∃ e, (Change.set "5").run (typed [("A1", "x"), ("B1", "=A1+C1"), ("C1", "=A1+B1"),
      ("E1", "7"), ("F1", "=E1")]) (.text "A1") = .ok e ∧ e.keys = ["r0c0", "r0c1", "r0c2"] ∧
      e.sheet.UpToDate "r0c5" := by
  have hreached := reached_typed [("A1", "x"), ("B1", "=A1+C1"), ("C1", "=A1+B1"), ("E1", "7"),
    ("F1", "=E1")]
  generalize hs : typed [("A1", "x"), ("B1", "=A1+C1"), ("C1", "=A1+B1"), ("E1", "7"),
    ("F1", "=E1")] = s at hreached ⊢
  have hfacts : s.resolve (.text "A1") = .ok ⟨0, 0⟩ ∧ s.UpToDate "r0c5" ∧
      ((Change.set "5").run s (.text "A1")).toOption.map Edit.keys =
        some ["r0c0", "r0c1", "r0c2"] := by
    rw [← hs]
    decide +kernel
  obtain ⟨htarget, hupToDate, hkeys⟩ := hfacts
  obtain ⟨notices, hrun⟩ := (Change.set "5").exists_run_eq_finish htarget
  obtain ⟨a, -, htouches⟩ := edit_touches hreached (.set "5") hrun
  rw [hrun] at hkeys
  have hkeys' := Option.some.inj hkeys
  refine ⟨_, hrun, hkeys', htouches.upToDate "r0c5" ?_ hupToDate⟩
  rw [hkeys']
  decide

end Gridcalc.Sheet
