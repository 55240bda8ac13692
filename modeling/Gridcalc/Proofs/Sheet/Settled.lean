import Gridcalc.Proofs.Sheet.Process

/-! # Settled sheets

A cell is up to date if processing its text again would change neither the cell nor what it is
known to read; a sheet is settled if all its cells are and nothing but a formula reads. Whether a
cell is up to date depends on what its inputs show and on the cycles that can be reached from it.
-/

namespace Gridcalc.Sheet

open Relation (ReflTransGen)

variable {s t u : Sheet} {k f : String} {c : Cell} {a : Address}

/-- A sheet with a graph of its own: the two directions of the links agree, and the cells are
those of the grid. -/
structure Grounded (s : Sheet) : Prop where
  linked : s.graph.Linked
  placed : ∀ k c, s.cells.find? k = some c → ∃ a : Address, a.InGrid s.rows s.columns ∧ a.key = k

/-- What holds whatever is edited: every cell holds its text as it is kept, and only formulas
read. -/
structure Sound (s : Sheet) : Prop extends s.Grounded where
  typed : ∀ k c, s.cells.find? k = some c → c.Typed
  sourced : ∀ k, s.graph.dependencies k ≠ ∅ → ∃ c, s.cells.find? k = some c ∧ c.isFormula = true

def again? (s : Sheet) (k : String) : Option Processed :=
  (s.cells.find? k).bind fun c => c.raw?.bind fun raw => (Address.ofKey? k).map (s.process raw)

def UpToDate (s : Sheet) (k : String) : Prop :=
  ∃ p ∈ s.again? k, s.cells.find? k = some p.cell ∧
    p.graph.dependencies k = s.graph.dependencies k

instance (s : Sheet) (k : String) : Decidable (s.UpToDate k) :=
  inferInstanceAs (Decidable (∃ p ∈ s.again? k, _ ∧ _))

structure Settled (s : Sheet) : Prop where
  upToDate : ∀ k c, s.cells.find? k = some c → s.UpToDate k
  sourced : ∀ k, s.graph.dependencies k ≠ ∅ → ∃ c, s.cells.find? k = some c ∧ c.isFormula = true

theorem settled_iff_listed :
    ((∀ k ∈ s.cells.slots.keys, s.UpToDate k) ∧
      ∀ k ∈ s.graph.keys, s.graph.dependencies k ≠ ∅ →
        (s.cells.find? k).any Cell.isFormula = true) ↔ s.Settled := by
  have hformula (k : String) : (s.cells.find? k).any Cell.isFormula = true ↔
      ∃ c, s.cells.find? k = some c ∧ c.isFormula = true := Option.any_eq_true _ _
  constructor
  · rintro ⟨hcells, hgraph⟩
    refine ⟨fun k c hc => hcells k (CellTable.mem_keys_iff.mpr ⟨c, hc⟩),
      fun k hk => (hformula k).mp (hgraph k ?_ hk)⟩
    rw [Graph.mem_keys_iff, Graph.contains, Option.isSome_iff_ne_none]
    intro hnone
    exact hk (Graph.dependencies_eq_empty hnone)
  · rintro ⟨hcells, hgraph⟩
    refine ⟨fun k hk => ?_, fun k _ hk => (hformula k).mpr (hgraph k hk)⟩
    obtain ⟨c, hc⟩ := CellTable.mem_keys_iff.mp hk
    exact hcells k c hc

instance (s : Sheet) : Decidable s.Settled := decidable_of_iff _ settled_iff_listed

def formula? (s : Sheet) (k : String) : Option String :=
  (s.cells.find? k).bind fun c => if c.isFormula then c.raw? else none

structure SameAt (s t : Sheet) (k : String) : Prop where
  cell : s.cells.find? k = t.cells.find? k
  dependencies : s.graph.dependencies k = t.graph.dependencies k

namespace SameAt

theorem refl (s : Sheet) (k : String) : SameAt s s k := ⟨rfl, rfl⟩

theorem trans (h : SameAt s t k) (h' : SameAt t u k) : SameAt s u k :=
  ⟨h.cell.trans h'.cell, h.dependencies.trans h'.dependencies⟩

theorem shown (h : SameAt s t k) : s.shown k = t.shown k := by
  rw [Sheet.shown, h.cell, Sheet.shown]

theorem formula? (h : SameAt s t k) : s.formula? k = t.formula? k := by
  rw [Sheet.formula?, h.cell, Sheet.formula?]

end SameAt

theorem Grounded.ofKey? (hs : s.Grounded) (hc : s.cells.find? k = some c) :
    ∃ a : Address, Address.ofKey? k = some a ∧ a.InGrid s.rows s.columns ∧ a.key = k := by
  obtain ⟨a, hgrid, rfl⟩ := hs.placed k c hc
  exact ⟨a, Address.ofKey?_key_of_inGrid hgrid, hgrid, rfl⟩

theorem typed_of_upToDate (hc : s.cells.find? k = some c) (h : s.UpToDate k) : c.Typed := by
  obtain ⟨p, hp, hcell, -⟩ := h
  rw [again?, hc, Option.mem_def, Option.bind_some, Option.bind_eq_some_iff] at hp
  obtain ⟨raw, hraw, hp⟩ := hp
  obtain ⟨a, -, rfl⟩ := Option.map_eq_some_iff.mp hp
  rw [hc, Option.some.injEq] at hcell
  by_cases hblank : Text.trim raw = ""
  · rw [process_of_blank hblank] at hcell
    rw [hcell] at hraw
    exact absurd hraw (by simp [Cell.raw?])
  · rw [hcell]
    exact typed_process hblank

theorem Settled.sound (hs : s.Settled) (hg : s.Grounded) : s.Sound where
  toGrounded := hg
  typed k c hc := typed_of_upToDate hc (hs.upToDate k c hc)
  sourced := hs.sourced

theorem formula?_of_formulaCell {v : Verdict} {cycle : Option (List String)}
    (hc : s.cells.find? k = some (formulaCell f v cycle)) : s.formula? k = some f := by
  rw [formula?, hc, Option.bind_some, if_pos isFormula_formulaCell, raw?_formulaCell]

namespace Sound

theorem formula?_eq_some_iff (hs : s.Sound) :
    s.formula? k = some f ↔
      ∃ c, s.cells.find? k = some c ∧ c.raw? = some f ∧ Text.trim f = f ∧ c.isFormula = true ∧
        isFormulaText f = true := by
  rw [formula?, Option.bind_eq_some_iff]
  constructor
  · rintro ⟨c, hc, hf⟩
    obtain ⟨raw, hraw, htrim, -, hkind⟩ := hs.typed k c hc
    split at hf
    · rename_i hformula
      rw [hf, Option.some.injEq] at hraw
      subst hraw
      exact ⟨c, hc, hf, htrim, hformula, hkind ▸ hformula⟩
    · cases hf
  · rintro ⟨c, hc, hf, -, hformula, -⟩
    exact ⟨c, hc, by rw [if_pos hformula, hf]⟩

theorem exists_formula? (hs : s.Sound) (hc : s.cells.find? k = some c)
    (hf : c.isFormula = true) : ∃ f, s.formula? k = some f := by
  obtain ⟨raw, hraw, htrim, -, hkind⟩ := hs.typed k c hc
  exact ⟨raw, hs.formula?_eq_some_iff.mpr ⟨c, hc, hraw, htrim, hf, hkind ▸ hf⟩⟩

theorem mem_formulaKeys_iff (hs : s.Sound) : k ∈ s.formulaKeys ↔ ∃ f, s.formula? k = some f := by
  rw [Sheet.mem_formulaKeys_iff]
  constructor
  · rintro ⟨c, hc, hf⟩
    exact hs.exists_formula? hc hf
  · rintro ⟨f, hf⟩
    obtain ⟨c, hc, -, -, hkind, -⟩ := hs.formula?_eq_some_iff.mp hf
    exact ⟨c, hc, hkind⟩

theorem exists_formula?_of_reads (hs : s.Sound) {d : String} (h : s.graph.Reads k d) :
    ∃ f, s.formula? k = some f := by
  have hne : s.graph.dependencies k ≠ ∅ := by
    intro hempty
    rw [Graph.Reads, hempty] at h
    exact KeySet.not_mem_empty d h
  obtain ⟨c, hc, hf⟩ := hs.sourced k hne
  exact hs.exists_formula? hc hf

theorem again?_of_formula (hs : s.Sound) (hf : s.formula? k = some f) :
    ∃ a : Address, a.key = k ∧ s.again? k = some (s.processFormula f a) := by
  obtain ⟨c, hc, hraw, htrim, -, htext⟩ := hs.formula?_eq_some_iff.mp hf
  obtain ⟨a, hkey, -, rfl⟩ := hs.ofKey? hc
  refine ⟨a, rfl, ?_⟩
  rw [again?, hc, Option.bind_some, hraw, Option.bind_some, hkey, Option.map_some,
    process_of_formula htext, htrim]

theorem upToDate_iff_of_plain (hs : s.Sound) (hc : s.cells.find? k = some c)
    (hf : c.isFormula = false) :
    s.UpToDate k ↔ ∃ raw, c.raw? = some raw ∧ c = plainCell raw := by
  obtain ⟨raw, hraw, htrim, hne, hkind⟩ := hs.typed k c hc
  obtain ⟨a, hkey, -, -⟩ := hs.ofKey? hc
  have hplain : isFormulaText raw = false := hkind ▸ hf
  have hagain : s.again? k = some (s.process raw a) := by
    rw [again?, hc, Option.bind_some, hraw, Option.bind_some, hkey, Option.map_some]
  have hcell : (s.process raw a).cell = plainCell raw := by
    rw [cell_process_of_plain (htrim.symm ▸ hne) hplain, htrim]
  constructor
  · rintro ⟨p, hp, hsame, -⟩
    rw [hagain, Option.mem_some] at hp
    rw [hc, ← hp, hcell, Option.some.injEq] at hsame
    exact ⟨raw, hraw, hsame⟩
  · rintro ⟨raw', hraw', hsame⟩
    have hraws : raw' = raw := Option.some.inj (hraw'.symm.trans hraw)
    refine ⟨_, hagain, ?_, ?_⟩
    · rw [hc, hcell, hsame, hraws]
    · rw [graph_process_of_plain hplain]

/-- A formula cell is up to date if it is what its evaluation and the cycles reached from it make
of it, and what it reads is recorded. -/
theorem upToDate_iff_of_formula (hs : s.Sound) (hf : s.formula? k = some f) :
    s.UpToDate k ↔
      s.cells.find? k = some
          (formulaCell f (s.evaluation f).verdict (s.graph.findCycle k)) ∧
        s.graph.dependencies k = s.inputs f := by
  obtain ⟨a, rfl, hagain⟩ := hs.again?_of_formula hf
  have hreads : (s.processFormula f a).graph.dependencies a.key = s.inputs f := by
    rw [dependencies_processFormula, if_pos rfl]
  -- recording what is recorded already changes no link, so it changes no cycle
  have hcycle (h : s.graph.dependencies a.key = s.inputs f) :
      ((s.processFormula f a).graph.findCycle a.key).isSome =
        (s.graph.findCycle a.key).isSome := by
    have hlinks (x : String) (_ : ReflTransGen (s.processFormula f a).graph.Reads a.key x) :
        (s.processFormula f a).graph.dependencies x = s.graph.dependencies x := by
      rw [dependencies_processFormula]
      split
      · rename_i hx
        rw [hx, h]
      · rfl
    have hiff := Graph.cyclic_iff_of_dependencies_eq hlinks
    rw [← Graph.hasCycle_iff, ← Graph.hasCycle_iff] at hiff
    exact Bool.eq_iff_iff.mpr hiff
  constructor
  · rintro ⟨p, hp, hcell, hdeps⟩
    rw [hagain, Option.mem_some] at hp
    subst hp
    rw [hreads] at hdeps
    rw [cell_processFormula] at hcell
    exact ⟨hcell.trans (congrArg some (formulaCell_congr (hcycle hdeps.symm))), hdeps.symm⟩
  · rintro ⟨hcell, hdeps⟩
    refine ⟨_, hagain, ?_, hreads.trans hdeps.symm⟩
    rw [cell_processFormula, hcell, formulaCell_congr (hcycle hdeps)]

/-- A formula cell that was made on another sheet is up to date if its inputs show what they
showed there, and the cycle that it was told of is there. -/
theorem upToDate_of_evaluation (ht : t.Sound) (hf : t.formula? k = some f)
    {cycle : Option (List String)}
    (hcell : t.cells.find? k = some (formulaCell f (s.evaluation f).verdict cycle))
    (hdeps : t.graph.dependencies k = s.inputs f)
    (hshown : ∀ d, t.graph.Reads k d → s.shown d = t.shown d)
    (hcycle : cycle.isSome = true ↔ t.graph.Cyclic k) : t.UpToDate k := by
  have heval : s.evaluation f = t.evaluation f :=
    evaluation_congr fun d hd => hshown d (by rwa [Graph.Reads, hdeps])
  rw [← Graph.hasCycle_iff] at hcycle
  refine (ht.upToDate_iff_of_formula hf).mpr ⟨?_, ?_⟩
  · rw [hcell, heval, formulaCell_congr (Bool.eq_iff_iff.mpr hcycle)]
  · rw [hdeps, inputs, heval, inputs]

theorem upToDate_of_reached (hs : s.Sound) (ht : t.Sound)
    (h : ∀ d, ReflTransGen s.graph.Reads k d → SameAt s t d) (hk : s.UpToDate k) :
    t.UpToDate k := by
  have hself := h k .refl
  obtain ⟨p, -, hc, -⟩ := id hk
  cases hf : p.cell.isFormula with
  | true =>
    obtain ⟨f, hf⟩ := hs.exists_formula? hc hf
    obtain ⟨hcell, hdeps⟩ := (hs.upToDate_iff_of_formula hf).mp hk
    have hcycle := Graph.cyclic_iff_of_dependencies_eq fun d hd => (h d hd).dependencies
    refine upToDate_of_evaluation ht (hself.formula? ▸ hf) (hself.cell ▸ hcell)
      (hself.dependencies ▸ hdeps) (fun d hd => ?_) ((Graph.hasCycle_iff _ _).trans hcycle)
    rw [Graph.Reads, ← hself.dependencies] at hd
    exact (h d (.single hd)).shown
  | false =>
    obtain ⟨raw, hraw, hplain⟩ := (hs.upToDate_iff_of_plain hc hf).mp hk
    exact (ht.upToDate_iff_of_plain (hself.cell ▸ hc) hf).mpr ⟨raw, hraw, hplain⟩

end Sound

section Marks

/-- If the cell is a formula that parses, it shows a cycle exactly if one can be reached from it. -/
def WellMarked (s : Sheet) (k : String) : Prop :=
  ∀ f, s.formula? k = some f → (Formula.parse f).isOk = true →
    ((s.cells.find? k).bind Cell.fault? = some .cycle ↔ s.graph.hasCycle k = true)

theorem isMalformed_evaluation (h : (Formula.parse f).isOk = true) :
    (s.evaluation f).verdict.isMalformed = false := by
  rw [evaluation, Formula.compute]
  cases hparse : Formula.parse f with
  | error e =>
    rw [hparse] at h
    cases h
  | ok formula =>
    simp only [Formula.result, Verdict.ofOutcome]
    split <;> rfl

theorem wellMarked_of_evaluation {cycle : Option (List String)}
    (hcell : t.cells.find? k = some (formulaCell f (s.evaluation f).verdict cycle))
    (hcycle : cycle.isSome = true ↔ t.graph.Cyclic k) : t.WellMarked k := by
  intro f' hf' hparse
  have hsame : f = f' := Option.some.inj ((formula?_of_formulaCell hcell).symm.trans hf')
  rw [hcell, Option.bind_some, fault?_formulaCell (isMalformed_evaluation (hsame ▸ hparse)),
    hcycle, Graph.hasCycle_iff]

theorem WellMarked.of_reached (h : ∀ d, ReflTransGen s.graph.Reads k d → SameAt s t d)
    (hk : s.WellMarked k) : t.WellMarked k := by
  intro f hf hparse
  have hself := h k .refl
  rw [← hself.formula?] at hf
  rw [← hself.cell, hk f hf hparse, Graph.hasCycle_iff, Graph.hasCycle_iff]
  exact Graph.cyclic_iff_of_dependencies_eq fun d hd => (h d hd).dependencies

end Marks

section Made

/-- The cell is what processing its text made of it at some time, and what that read is recorded. -/
structure Made (s : Sheet) (k : String) : Prop where
  plain : ∀ c, s.cells.find? k = some c → c.isFormula = false →
    ∃ raw, c.raw? = some raw ∧ c = plainCell raw
  formula : ∀ f, s.formula? k = some f →
    ∃ (u : Sheet) (cycle : Option (List String)),
      s.cells.find? k = some (formulaCell f (u.evaluation f).verdict cycle) ∧
        s.graph.dependencies k = u.inputs f

theorem Made.of_sameAt (h : SameAt s t k) (hk : s.Made k) : t.Made k where
  plain c hc := hk.plain c (h.cell.trans hc)
  formula f hf := by
    obtain ⟨u, cycle, hcell, hdeps⟩ := hk.formula f (h.formula?.trans hf)
    exact ⟨u, cycle, h.cell.symm.trans hcell, h.dependencies.symm.trans hdeps⟩

theorem made_of_evaluation {cycle : Option (List String)}
    (hcell : t.cells.find? k = some (formulaCell f (s.evaluation f).verdict cycle))
    (hdeps : t.graph.dependencies k = s.inputs f) : t.Made k where
  plain c hc hplain := by
    rw [hcell, Option.some.injEq] at hc
    rw [← hc, isFormula_formulaCell] at hplain
    cases hplain
  formula f' hf' := by
    have hsame : f = f' := Option.some.inj ((formula?_of_formulaCell hcell).symm.trans hf')
    exact hsame ▸ ⟨s, cycle, hcell, hdeps⟩

theorem made_of_none (hc : s.cells.find? k = none) : s.Made k where
  plain c hc' := by
    rw [hc] at hc'
    cases hc'
  formula f hf := by
    rw [formula?, hc] at hf
    cases hf

end Made

end Gridcalc.Sheet
