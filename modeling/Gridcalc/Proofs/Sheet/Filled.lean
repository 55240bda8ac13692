import Gridcalc.Proofs.Formula.Copied
import Gridcalc.Proofs.Sheet.Touched

/-! # Filled stretches

A fill writes one target after the other, and after each of them all that depends on it follows,
the source and other targets included. None of this replaces a text: in the end every target holds
the copy that was made for it, and every other cell the text that it held before.
-/

namespace Gridcalc

namespace Address

/-- The stretch lies in the column of the source, or else in its row, and does not run back. -/
def Aligned (source first last : Address) : Prop :=
  (first.column = source.column ∧ last.column = source.column ∧ first.row ≤ last.row) ∨
    (first.row = source.row ∧ last.row = source.row ∧ first.column ≤ last.column)

def Between (first last x : Address) : Prop :=
  (first.row ≤ x.row ∧ x.row ≤ last.row) ∧ first.column ≤ x.column ∧ x.column ≤ last.column

/-- A cell that a fill of the stretch writes. -/
def IsTarget (source first last x : Address) : Prop :=
  Aligned source first last ∧ Between first last x ∧ x ≠ source

instance (source first last : Address) : Decidable (Aligned source first last) :=
  inferInstanceAs (Decidable (_ ∨ _))

instance (first last x : Address) : Decidable (Between first last x) :=
  inferInstanceAs (Decidable (_ ∧ _))

instance (source first last x : Address) : Decidable (IsTarget source first last x) :=
  inferInstanceAs (Decidable (_ ∧ _))

theorem nodup_span (first last : Int) : (span first last).Nodup :=
  (pairwise_span first last).imp Int.ne_of_lt

end Address

open Address (Aligned Between IsTarget span mem_span_iff nodup_span)

section Targets

variable {source first last x : Address}

theorem mem_fillTargets_iff :
    x ∈ fillTargets source first last ↔ Aligned source first last ∧ Between first last x := by
  obtain ⟨row, column⟩ := x
  rw [fillTargets, Aligned, Between]
  split
  · simp only [List.mem_map, mem_span_iff, Address.mk.injEq]
    constructor
    · rintro ⟨i, hi, rfl, rfl⟩
      omega
    · rintro ⟨-, hrow, hcolumn⟩
      exact ⟨row, hrow, rfl, by omega⟩
  · split
    · simp only [List.mem_map, mem_span_iff, Address.mk.injEq]
      constructor
      · rintro ⟨i, hi, rfl, rfl⟩
        omega
      · rintro ⟨-, hrow, hcolumn⟩
        exact ⟨column, hcolumn, by omega, rfl⟩
    · simp only [List.not_mem_nil, false_iff]
      omega

theorem nodup_fillTargets (source first last : Address) :
    (fillTargets source first last).Nodup := by
  rw [fillTargets]
  split
  · exact (nodup_span _ _).map fun i j hij => congrArg Address.row hij
  · split
    · exact (nodup_span _ _).map fun i j hij => congrArg Address.column hij
    · exact List.nodup_nil

theorem fillTargets_of_not_aligned (h : ¬ Aligned source first last) :
    fillTargets source first last = [] :=
  List.eq_nil_iff_forall_not_mem.mpr fun _ hx => h (mem_fillTargets_iff.mp hx).1

theorem mem_fillPlan (text : String) (h : IsTarget source first last x) :
    (x, fillText text source x) ∈ fillPlan text source first last :=
  List.mem_map_of_mem (mem_fillTargets_iff.mpr ⟨h.1, h.2.1⟩)

theorem isTarget_of_mem_fillPlan {text : String} {e : Address × String}
    (he : e ∈ fillPlan text source first last) (hne : e.1 ≠ source) :
    IsTarget source first last e.1 := by
  obtain ⟨x, hx, rfl⟩ := List.mem_map.mp he
  obtain ⟨haligned, hbetween⟩ := mem_fillTargets_iff.mp hx
  exact ⟨haligned, hbetween, hne⟩

theorem nodup_fillPlan (text : String) (source first last : Address) :
    ((fillPlan text source first last).map Prod.fst).Nodup := by
  rw [fillPlan, List.map_map]
  simpa [Function.comp_def] using nodup_fillTargets source first last

theorem trim_fillText {text : String} (h : Text.trim text = text) (source x : Address) :
    Text.trim (fillText text source x) = fillText text source x := by
  rw [fillText]
  split
  · exact Formula.trim_shiftText h
  · exact h

end Targets

namespace Sheet

variable {s t : Sheet} {k text : String} {a b c x : Address} {source first last : Target}

def raw? (s : Sheet) (k : String) : Option String := (s.cells.find? k).bind Cell.raw?

/-- A text as a cell holds it; no cell holds a blank one. -/
def held? (text : String) : Option String := if Text.trim text = "" then none else some text

theorem raw?_cellAt : (s.cellAt a).raw? = s.raw? a.key := by
  rw [cellAt, raw?]
  cases s.cells.find? a.key <;> rfl

theorem Sound.trim_raw (hs : s.Sound) (k : String) :
    Text.trim ((s.raw? k).getD "") = (s.raw? k).getD "" := by
  rw [raw?]
  cases hc : s.cells.find? k with
  | none => rfl
  | some c =>
    obtain ⟨raw, hraw, htrim, -⟩ := hs.typed k c hc
    simpa [hraw] using htrim

/-- Whatever follows the write computes cells anew from the texts that they hold. -/
theorem raw?_write (text : String) (hs : s.Sound) (ha : a.InGrid s.rows s.columns) :
    (s.write a text).sheet.raw? k = if k = a.key then held? (Text.trim text) else s.raw? k := by
  have hpass := pass_recalculation (sound_store text hs ha) [a.key]
  rw [sheet_write text hs ha, raw?, followUp, Round.after, hpass.raw?_refreshAll, find?_store, held?,
    Text.trim_trim]
  split
  · split
    · rfl
    · rename_i hne
      exact raw?_process hne
  · rfl

section Plan

variable {origin : Address} {plan : List (Address × String)}

theorem inGrid_write (text : String)
    (hplan : ∀ e ∈ plan, e.1.InGrid s.rows s.columns) :
    ∀ e ∈ plan, e.1.InGrid (s.write a text).sheet.rows (s.write a text).sheet.columns := by
  rwa [(size_write s a text).1, (size_write s a text).2]

theorem raw?_carryOut_of_apart (hs : s.Sound)
    (hplan : ∀ e ∈ plan, e.1.InGrid s.rows s.columns)
    (hapart : ∀ e ∈ plan, e.1 ≠ origin → e.1.key ≠ k) :
    (s.carryOut origin plan).sheet.raw? k = s.raw? k := by
  induction plan generalizing s with
  | nil => rfl
  | cons e plan ih =>
    obtain ⟨target, text⟩ := e
    obtain ⟨hgrid, hgrids⟩ := List.forall_mem_cons.mp hplan
    obtain ⟨hfirst, hrest⟩ := List.forall_mem_cons.mp hapart
    rw [carryOut]
    split
    · exact ih hs hgrids hrest
    · rename_i hne
      have hlater := ih (sound_write text hs hgrid) (inGrid_write text hgrids) hrest
      exact hlater.trans ((raw?_write text hs hgrid).trans (if_neg (hfirst hne).symm))

/-- No target is written twice, and what follows a later one leaves the text of this one. -/
theorem raw?_carryOut_of_mem (hs : s.Sound)
    (hplan : ∀ e ∈ plan, e.1.InGrid s.rows s.columns) (hnodup : (plan.map Prod.fst).Nodup)
    (hmem : (x, text) ∈ plan) (hx : x ≠ origin) :
    (s.carryOut origin plan).sheet.raw? x.key = held? (Text.trim text) := by
  induction plan generalizing s with
  | nil => cases hmem
  | cons e plan ih =>
    obtain ⟨target, text'⟩ := e
    obtain ⟨hgrid, hgrids⟩ := List.forall_mem_cons.mp hplan
    obtain ⟨hnew, hrest⟩ := List.nodup_cons.mp hnodup
    rw [carryOut]
    rcases List.mem_cons.mp hmem with heq | hmem
    · cases heq
      rw [if_neg hx]
      have hapart : ∀ e ∈ plan, e.1 ≠ origin → e.1.key ≠ x.key := by
        rintro e he - hkey
        refine hnew (List.mem_map.mpr ⟨e, he, ?_⟩)
        obtain ⟨hcolumn, -, hrow, -⟩ := hgrids e he
        exact Address.key_injective_of_nonneg hrow hcolumn hgrid.2.2.1 hgrid.1 hkey
      have hlater := raw?_carryOut_of_apart (sound_write text hs hgrid)
        (inGrid_write text hgrids) hapart
      exact hlater.trans ((raw?_write text hs hgrid).trans (if_pos rfl))
    · split
      · exact ih hs hgrids hrest hmem
      · exact ih (sound_write text' hs hgrid) (inGrid_write text' hgrids) hrest hmem

end Plan

/-- From `s` to `t`, a source that holds `raw` was copied to the stretch between `first` and
`last`, and no other text was replaced. -/
structure Filled (s t : Sheet) (raw : String) (source first last : Address) : Prop where
  copied : ∀ x, IsTarget source first last x → t.raw? x.key = held?
    (if isFormulaText raw then
      Formula.shiftText raw (x.row - source.row) (x.column - source.column)
    else raw)
  kept : t.raw? source.key = s.raw? source.key
  elsewhere : ∀ k, (∀ x, IsTarget source first last x → x.key ≠ k) → t.raw? k = s.raw? k
  idle : ¬ Aligned source first last → t = s

theorem filled_carryOut {raw : String} (hs : s.Sound) (htrim : Text.trim raw = raw)
    (ha : a.InGrid s.rows s.columns) (hb : b.InGrid s.rows s.columns)
    (hc : c.InGrid s.rows s.columns) :
    Filled s (s.carryOut a (fillPlan raw a b c)).sheet raw a b c := by
  have hplan : ∀ e ∈ fillPlan raw a b c, e.1.InGrid s.rows s.columns :=
    fun e he => inGrid_of_mem_fillPlan ha hb hc he
  have helsewhere : ∀ k, (∀ x, IsTarget a b c x → x.key ≠ k) →
      (s.carryOut a (fillPlan raw a b c)).sheet.raw? k = s.raw? k := by
    intro k hk
    exact raw?_carryOut_of_apart hs hplan fun e he hne => hk e.1 (isTarget_of_mem_fillPlan he hne)
  constructor
  case copied =>
    intro x hx
    rw [raw?_carryOut_of_mem hs hplan (nodup_fillPlan raw a b c) (mem_fillPlan raw hx) hx.2.2,
      trim_fillText htrim, fillText]
  case kept =>
    refine helsewhere a.key fun x hx hkey => ?_
    obtain ⟨hcolumn, -, hrow, -⟩ := hplan _ (mem_fillPlan raw hx)
    exact hx.2.2 (Address.key_injective_of_nonneg hrow hcolumn ha.2.2.1 ha.1 hkey)
  case elsewhere => exact helsewhere
  case idle =>
    intro hnot
    rw [fillPlan, fillTargets_of_not_aligned hnot]
    rfl

/-- A fill copies the source to the targets and to nothing else, whichever of them read each
other. -/
theorem fill_copies (hs : s.Reached) (ha : s.resolve source = .ok a)
    (hb : s.resolve first = .ok b) (hc : s.resolve last = .ok c) :
    ∃ e, s.fill source first last = .ok e ∧
      Filled s e.sheet ((s.raw? a.key).getD "") a b c := by
  have hsound := hs.regular.toSound
  have hfilled := filled_carryOut hsound (hsound.trim_raw a.key) (inGrid_of_resolve ha)
    (inGrid_of_resolve hb) (inGrid_of_resolve hc)
  rw [← raw?_cellAt] at hfilled ⊢
  rw [fill, ha, hb, hc]
  exact ⟨_, rfl, hfilled⟩

/-- The copy in `A1` would read a cell above the grid, so it is the text as it stands: it reads
itself, and the other two read it. -/
theorem fill_copies_through_cycle :
    ∃ e, (typed [("A2", "=A1"), ("A1", "5"), ("C1", "=A3")]).fill (.text "A2") (.text "A1")
        (.text "A3") = .ok e ∧
      e.sheet.raw? "r0c0" = some "=A1" ∧ e.sheet.raw? "r1c0" = some "=A1" ∧
      e.sheet.raw? "r2c0" = some "=A2" ∧ e.sheet.raw? "r0c2" = some "=A3" := by
  have hreached := reached_typed [("A2", "=A1"), ("A1", "5"), ("C1", "=A3")]
  generalize hs : typed [("A2", "=A1"), ("A1", "5"), ("C1", "=A3")] = s at hreached ⊢
  have hfacts : s.resolve (.text "A2") = .ok ⟨1, 0⟩ ∧ s.resolve (.text "A1") = .ok ⟨0, 0⟩ ∧
      s.resolve (.text "A3") = .ok ⟨2, 0⟩ ∧ s.raw? (Address.key ⟨1, 0⟩) = some "=A1" ∧
      s.raw? "r0c2" = some "=A3" := by
    rw [← hs]
    decide +kernel
  obtain ⟨hsource, hfirst, hlast, hraw, hreader⟩ := hfacts
  obtain ⟨e, hrun, hfilled⟩ := fill_copies hreached hsource hfirst hlast
  rw [hraw] at hfilled
  have hcopy (row : Int) (hx : IsTarget ⟨1, 0⟩ ⟨0, 0⟩ ⟨2, 0⟩ ⟨row, 0⟩) :
      e.sheet.raw? (Address.key ⟨row, 0⟩) = held? (Formula.shiftText "=A1" (row - 1) 0) :=
    (hfilled.copied ⟨row, 0⟩ hx).trans (congrArg held? (if_pos (by decide)))
  refine ⟨e, hrun, ?_, ?_, ?_, ?_⟩
  · exact (hcopy 0 (by decide)).trans (by decide +kernel)
  · exact hfilled.kept.trans hraw
  · exact (hcopy 2 (by decide)).trans (by decide +kernel)
  · have hkeys : ∀ x ∈ fillTargets ⟨1, 0⟩ ⟨0, 0⟩ ⟨2, 0⟩, x.key ≠ "r0c2" := by decide +kernel
    exact (hfilled.elsewhere "r0c2" fun x hx =>
      hkeys x (mem_fillTargets_iff.mpr ⟨hx.1, hx.2.1⟩)).trans hreader

end Sheet

end Gridcalc
