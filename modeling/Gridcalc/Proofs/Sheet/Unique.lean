import Gridcalc.Proofs.Sheet.Edit

/-! # A settled sheet is settled in one way

Two settled sheets with the same texts have the same cells and the same links. A formula that
they evaluate differently reads, on both, a cell that they show differently, and so the
difference could be followed along common links without end. The links would close a cycle on
both sheets; but what reaches a cycle shows the same on both.
-/

namespace Gridcalc.Sheet

open Relation (ReflTransGen TransGen)

variable {s t : Sheet} {k y f : String}

theorem datum_formulaCell_of_cycle {v : Verdict} {cycle : Option (List String)}
    (h : cycle.isSome = true) : (formulaCell f v cycle).datum = .null := by
  cases v <;> cases cycle <;> first | rfl | cases h

/-- Two settled sheets on which each cell has the same text. -/
structure SameTexts (s t : Sheet) : Prop where
  left : s.Sound
  leftSettled : s.Settled
  right : t.Sound
  rightSettled : t.Settled
  raw : ∀ k, (s.cells.find? k).bind Cell.raw? = (t.cells.find? k).bind Cell.raw?

namespace SameTexts

def Common (s t : Sheet) (a b : String) : Prop := s.graph.Reads a b ∧ t.graph.Reads a b

/-- A formula that the sheets evaluate differently. -/
def Disputed (s t : Sheet) (k : String) : Prop :=
  ∃ f, s.formula? k = some f ∧ s.evaluation f ≠ t.evaluation f

variable (h : SameTexts s t)

include h

theorem symm : SameTexts t s :=
  ⟨h.right, h.rightSettled, h.left, h.leftSettled, fun k => (h.raw k).symm⟩

theorem formula?_of_formula? (hf : s.formula? k = some f) : t.formula? k = some f := by
  obtain ⟨c, hc, hraw, htrim, -, htext⟩ := h.left.formula?_eq_some_iff.mp hf
  have hraw' : (t.cells.find? k).bind Cell.raw? = some f := by
    rw [← h.raw, hc, Option.bind_some, hraw]
  obtain ⟨c', hc', hf'⟩ := Option.bind_eq_some_iff.mp hraw'
  obtain ⟨raw, hraw'', -, -, hkind⟩ := h.right.typed k c' hc'
  rw [hf', Option.some.injEq] at hraw''
  subst hraw''
  exact h.right.formula?_eq_some_iff.mpr ⟨c', hc', hf', htrim, hkind.trans htext, htext⟩

theorem cell_left (hf : s.formula? k = some f) :
    s.cells.find? k = some (formulaCell f (s.evaluation f).verdict (s.graph.findCycle k)) ∧
      s.graph.dependencies k = s.inputs f := by
  obtain ⟨c, hc, -⟩ := h.left.formula?_eq_some_iff.mp hf
  exact (h.left.upToDate_iff_of_formula hf).mp (h.leftSettled.upToDate k c hc)

theorem cell_right (hf : s.formula? k = some f) :
    t.cells.find? k = some (formulaCell f (t.evaluation f).verdict (t.graph.findCycle k)) ∧
      t.graph.dependencies k = t.inputs f :=
  h.symm.cell_left (h.formula?_of_formula? hf)

theorem sameAt_of_plain (hk : s.formula? k = none) : SameAt s t k := by
  have hk' : t.formula? k = none := by
    by_contra hne
    obtain ⟨f, hf⟩ := Option.ne_none_iff_exists'.mp hne
    rw [h.symm.formula?_of_formula? hf] at hk
    cases hk
  have hunread {u : Sheet} (hu : u.Sound) (hnone : u.formula? k = none) :
      u.graph.dependencies k = ∅ := by
    by_contra hne
    obtain ⟨c, hc, hf⟩ := hu.sourced k hne
    obtain ⟨f, hf⟩ := hu.exists_formula? hc hf
    rw [hnone] at hf
    cases hf
  have hplain {u : Sheet} (hu : u.Sound) (hsettled : u.Settled) (hnone : u.formula? k = none) :
      u.cells.find? k = ((u.cells.find? k).bind Cell.raw?).map plainCell := by
    cases hc : u.cells.find? k with
    | none => rfl
    | some c =>
      cases hkind : c.isFormula with
      | true =>
        obtain ⟨f, hf⟩ := hu.exists_formula? hc hkind
        rw [hnone] at hf
        cases hf
      | false =>
        obtain ⟨raw, hraw, hcell⟩ :=
          (hu.upToDate_iff_of_plain hc hkind).mp (hsettled.upToDate k c hc)
        rw [Option.bind_some, hraw, Option.map_some, hcell]
  constructor
  · rw [hplain h.left h.leftSettled hk, hplain h.right h.rightSettled hk', h.raw]
  · rw [hunread h.left hk, hunread h.right hk']

theorem dependencies_of_not_disputed (hk : ¬ Disputed s t k) :
    s.graph.dependencies k = t.graph.dependencies k := by
  cases hf : s.formula? k with
  | none => exact (h.sameAt_of_plain hf).dependencies
  | some f =>
    have heval : s.evaluation f = t.evaluation f := by
      by_contra hne
      exact hk ⟨f, hf, hne⟩
    rw [(h.cell_left hf).2, (h.cell_right hf).2, inputs, heval, inputs]

theorem exists_disputed_of_cyclic (hk : ¬ (s.graph.Cyclic k ↔ t.graph.Cyclic k)) :
    ∃ x, Disputed s t x ∧ ReflTransGen (Common s t) k x := by
  by_contra hnone
  have hsame (x : String) (hx : ReflTransGen (Common s t) k x) :
      s.graph.dependencies x = t.graph.dependencies x :=
    h.dependencies_of_not_disputed fun hdisputed => hnone ⟨x, hdisputed, hx⟩
  have hcommon (x : String) (hx : ReflTransGen s.graph.Reads k x) :
      ReflTransGen (Common s t) k x := by
    induction hx with
    | refl => exact .refl
    | tail _ hread ih =>
      refine ih.tail ⟨hread, ?_⟩
      rwa [Graph.Reads, ← hsame _ ih]
  exact hk (Graph.cyclic_iff_of_dependencies_eq fun x hx => hsame x (hcommon x hx))

theorem exists_disputed_of_shown_ne (hy : s.shown y ≠ t.shown y) :
    ∃ x, Disputed s t x ∧ ReflTransGen (Common s t) y x := by
  cases hf : s.formula? y with
  | none => exact absurd (h.sameAt_of_plain hf).shown hy
  | some f =>
    by_cases heval : s.evaluation f = t.evaluation f
    · refine h.exists_disputed_of_cyclic fun hcycle => hy ?_
      rw [← Graph.hasCycle_iff, ← Graph.hasCycle_iff] at hcycle
      rw [shown, shown, (h.cell_left hf).1, (h.cell_right hf).1, heval,
        formulaCell_congr (Bool.eq_iff_iff.mpr hcycle)]
    · exact ⟨y, ⟨f, hf, heval⟩, .refl⟩

theorem exists_disputed_of_disputed (hk : Disputed s t k) :
    ∃ x, Disputed s t x ∧ TransGen (Common s t) k x := by
  obtain ⟨f, hf, hne⟩ := hk
  obtain ⟨y, hs, ht, hshown⟩ := exists_input_of_evaluation_ne hne
  obtain ⟨x, hx, hreach⟩ := h.exists_disputed_of_shown_ne hshown
  have hread : Common s t k y := by
    constructor
    · rw [Graph.Reads, (h.cell_left hf).2]
      exact hs
    · rw [Graph.Reads, (h.cell_right hf).2]
      exact ht
  exact ⟨x, hx, TransGen.head' hread hreach⟩

theorem cyclic_of_disputed (hk : Disputed s t k) : s.graph.Cyclic k ∧ t.graph.Cyclic k := by
  have hkeys (x : String) (hx : Disputed s t x) : x ∈ s.formulaKeys := by
    obtain ⟨f, hf, -⟩ := hx
    exact h.left.mem_formulaKeys_iff.mpr ⟨f, hf⟩
  obtain ⟨c, hreach, hcycle⟩ := Graph.exists_cycle_of_going_on hkeys
    (fun x hx => h.exists_disputed_of_disputed hx) hk
  constructor
  · exact ⟨c, ReflTransGen.mono (fun _ _ => And.left) _ _ hreach,
      TransGen.mono (fun _ _ => And.left) _ _ hcycle⟩
  · exact ⟨c, ReflTransGen.mono (fun _ _ => And.right) _ _ hreach,
      TransGen.mono (fun _ _ => And.right) _ _ hcycle⟩

theorem shown_eq (y : String) : s.shown y = t.shown y := by
  by_contra hne
  obtain ⟨x, hx, hreach⟩ := h.exists_disputed_of_shown_ne hne
  obtain ⟨hs, ht⟩ := h.cyclic_of_disputed hx
  have hs' := hs.of_reaches (ReflTransGen.mono (fun _ _ => And.left) _ _ hreach)
  have ht' := ht.of_reaches (ReflTransGen.mono (fun _ _ => And.right) _ _ hreach)
  cases hf : s.formula? y with
  | none => exact hne (h.sameAt_of_plain hf).shown
  | some f =>
    rw [← Graph.hasCycle_iff] at hs' ht'
    rw [shown, shown, (h.cell_left hf).1, (h.cell_right hf).1] at hne
    refine hne ?_
    simp only [Option.map_some, Option.getD_some]
    rw [datum_formulaCell_of_cycle hs', datum_formulaCell_of_cycle ht']

/-- The texts settle the cells and the links. -/
theorem sameAt (k : String) : SameAt s t k := by
  have heval (f : String) : s.evaluation f = t.evaluation f :=
    evaluation_congr fun y _ => h.shown_eq y
  have hlinks (x : String) : s.graph.dependencies x = t.graph.dependencies x :=
    h.dependencies_of_not_disputed fun ⟨f, _, hne⟩ => hne (heval f)
  refine ⟨?_, hlinks k⟩
  cases hf : s.formula? k with
  | none => exact (h.sameAt_of_plain hf).cell
  | some f =>
    have hcycle := Graph.cyclic_iff_of_dependencies_eq (k := k) fun x _ => hlinks x
    rw [← Graph.hasCycle_iff, ← Graph.hasCycle_iff] at hcycle
    rw [(h.cell_left hf).1, (h.cell_right hf).1, heval,
      formulaCell_congr (Bool.eq_iff_iff.mpr hcycle)]

end SameTexts

/-- There is at most one settled sheet with given texts, whatever cycles and errors they make. -/
theorem settled_determined (hs : s.Grounded) (hs' : s.Settled) (ht : t.Grounded) (ht' : t.Settled)
    (hraw : ∀ k, (s.cells.find? k).bind Cell.raw? = (t.cells.find? k).bind Cell.raw?) :
    (∀ k, s.cells.find? k = t.cells.find? k) ∧
      ∀ k, s.graph.dependencies k = t.graph.dependencies k := by
  have h : SameTexts s t := ⟨hs'.sound hs, hs', ht'.sound ht, ht', hraw⟩
  exact ⟨fun k => (h.sameAt k).cell, fun k => (h.sameAt k).dependencies⟩

theorem raw?_eq_of_listed (hkeys : s.cells.slots.keys = t.cells.slots.keys)
    (h : ∀ k ∈ s.cells.slots.keys,
      (s.cells.find? k).bind Cell.raw? = (t.cells.find? k).bind Cell.raw?) (k : String) :
    (s.cells.find? k).bind Cell.raw? = (t.cells.find? k).bind Cell.raw? := by
  have hnone {u : Sheet} (hk : k ∉ u.cells.slots.keys) : u.cells.find? k = none := by
    by_contra hne
    exact hk (CellTable.mem_keys_iff.mpr (Option.ne_none_iff_exists'.mp hne))
  by_cases hk : k ∈ s.cells.slots.keys
  · exact h k hk
  · rw [hnone hk, hnone (hkeys ▸ hk)]

/-- `A1` and `B1` read each other, and `D1` divides by zero. -/
theorem settled_in_either_order :
    ∃ s t : Sheet,
      s = typed [("A1", "=B1"), ("B1", "=A1+C1"), ("C1", "2"), ("D1", "=C1/0")] ∧
      t = typed [("D1", "=C1/0"), ("C1", "2"), ("B1", "=A1+C1"), ("A1", "=B1")] ∧
      s.Settled ∧ t.Settled ∧ (∀ k, s.cells.find? k = t.cells.find? k) ∧
      ∀ k, s.graph.dependencies k = t.graph.dependencies k := by
  refine ⟨_, _, rfl, rfl, ?_⟩
  have hsound := sound_typed [("A1", "=B1"), ("B1", "=A1+C1"), ("C1", "2"), ("D1", "=C1/0")]
  have hsound' := sound_typed [("D1", "=C1/0"), ("C1", "2"), ("B1", "=A1+C1"), ("A1", "=B1")]
  generalize hs : typed [("A1", "=B1"), ("B1", "=A1+C1"), ("C1", "2"), ("D1", "=C1/0")] = s
    at hsound ⊢
  generalize ht : typed [("D1", "=C1/0"), ("C1", "2"), ("B1", "=A1+C1"), ("A1", "=B1")] = t
    at hsound' ⊢
  have hfacts : s.Settled ∧ t.Settled ∧ s.cells.slots.keys = t.cells.slots.keys ∧
      ∀ k ∈ s.cells.slots.keys,
        (s.cells.find? k).bind Cell.raw? = (t.cells.find? k).bind Cell.raw? := by
    rw [← hs, ← ht]
    decide +kernel
  obtain ⟨hsettled, hsettled', hkeys, hraw⟩ := hfacts
  exact ⟨hsettled, hsettled', settled_determined hsound.toGrounded hsettled hsound'.toGrounded
    hsettled' (raw?_eq_of_listed hkeys hraw)⟩

end Gridcalc.Sheet
