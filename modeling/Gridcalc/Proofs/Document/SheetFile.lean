import Gridcalc.Proofs.Number.Styles
import Gridcalc.Proofs.Sheet.Entered
import Gridcalc.Proofs.Sheet.Shown

/-! # Numbers in sheet files

A number of a sheet file is handed over as a text and comes back as a number cell when that text is
the one that the grid shows for it. The others stay behind as texts.
-/

namespace Gridcalc

open Number (shape patternValue)

variable {v : Float} {negative : Bool} {bits : Nat} {a : Address} {name : String}
  {entries before after : List (Datum × Datum)} {cells : List (String × String)}

namespace SheetFile

def nameOf (key : Datum) : String := Text.upper key.display

def entriesOf (content : Datum) : Except SheetFileError (List (Datum × Datum)) := do
  let fields ← mappingOr .notAMapping content
  mappingOr .cellsNotAMapping ((Datum.find? "cells" fields).getD .null)

theorem cells_of_ofDatum {settings : Settings} {content : Datum} {f : SheetFile}
    (h : ofDatum settings content = .ok f) (hentries : entriesOf content = .ok entries) :
    f.cells = cellTexts entries := by
  obtain ⟨fields, hfields, h⟩ := exists_of_bind_eq_ok h
  obtain ⟨cells, hcells, h⟩ := exists_of_bind_eq_ok h
  obtain ⟨rows, -, h⟩ := exists_of_bind_eq_ok h
  obtain ⟨columns, -, h⟩ := exists_of_bind_eq_ok h
  cases h
  rw [entriesOf, hfields] at hentries
  change mappingOr .cellsNotAMapping ((Datum.find? "cells" fields).getD .null) = _ at hentries
  rw [hcells] at hentries
  rw [Except.ok.inj hentries]

theorem map_fst_setText (name text : String) (cells : List (String × String)) :
    (setText name text cells).map (·.1) =
      if name ∈ cells.map (·.1) then cells.map (·.1) else cells.map (·.1) ++ [name] := by
  induction cells with
  | nil => rfl
  | cons c cells ih =>
    rw [setText]
    split
    · rename_i heq
      simp [heq]
    · rename_i hne
      rw [List.map_cons, List.map_cons, ih]
      simp only [List.mem_cons, Ne.symm hne, false_or]
      split <;> rfl

theorem mem_setText_self (name text : String) (cells : List (String × String)) :
    (name, text) ∈ setText name text cells := by
  fun_induction setText name text cells <;> simp_all

theorem mem_setText_of_ne {c : String × String} {name text : String} (hne : c.1 ≠ name)
    (h : c ∈ cells) : c ∈ setText name text cells := by
  induction cells with
  | nil => cases h
  | cons d cells ih =>
    rw [setText]
    rcases List.mem_cons.mp h with rfl | h
    · rw [if_neg hne]
      exact List.mem_cons_self
    · split
      · exact List.mem_cons_of_mem _ h
      · exact List.mem_cons_of_mem _ (ih h)

theorem cellTexts_concat (entries : List (Datum × Datum)) (e : Datum × Datum) :
    cellTexts (entries ++ [e]) = setText (nameOf e.1) (typedText e.2) (cellTexts entries) := by
  rw [cellTexts, List.foldl_append]
  rfl

theorem nodup_cellTexts (entries : List (Datum × Datum)) :
    ((cellTexts entries).map (·.1)).Nodup := by
  induction entries using List.reverseRecOn with
  | nil => exact List.nodup_nil
  | append_singleton entries e ih =>
    rw [cellTexts_concat, map_fst_setText]
    split
    · exact ih
    · rename_i hnew
      rw [← List.concat_eq_append]
      exact ih.concat hnew

theorem exists_nameOf_of_mem {c : String × String} (h : c ∈ cellTexts entries) :
    ∃ e ∈ entries, c.1 = nameOf e.1 := by
  have hname : ∀ x ∈ (cellTexts entries).map (·.1), ∃ e ∈ entries, x = nameOf e.1 := by
    clear h
    induction entries using List.reverseRecOn with
    | nil => simp [cellTexts]
    | append_singleton entries e ih =>
      intro x hx
      rw [cellTexts_concat, map_fst_setText] at hx
      have hcases : x ∈ (cellTexts entries).map (·.1) ∨ x = nameOf e.1 := by
        split at hx
        · exact .inl hx
        · simpa using hx
      rcases hcases with hold | rfl
      · obtain ⟨e', he', hname⟩ := ih x hold
        exact ⟨e', List.mem_append_left _ he', hname⟩
      · exact ⟨e, by simp, rfl⟩
  exact hname c.1 (List.mem_map_of_mem h)

theorem mem_cellTexts {e : Datum × Datum} (h : ∀ e' ∈ after, nameOf e'.1 ≠ nameOf e.1)
    (before : List (Datum × Datum)) :
    (nameOf e.1, typedText e.2) ∈ cellTexts (before ++ e :: after) := by
  induction after using List.reverseRecOn with
  | nil =>
    rw [cellTexts_concat]
    exact mem_setText_self _ _ _
  | append_singleton after e' ih =>
    rw [← List.cons_append, ← List.append_assoc, cellTexts_concat]
    refine mem_setText_of_ne (h e' (by simp)).symm (ih fun d hd => h d ?_)
    exact List.mem_append_left _ hd

theorem exists_split_cellTexts (before : List (Datum × Datum)) {e : Datum × Datum}
    (h : ∀ e' ∈ after, nameOf e'.1 ≠ nameOf e.1) :
    ∃ pre post, cellTexts (before ++ e :: after) = pre ++ (nameOf e.1, typedText e.2) :: post ∧
      ∀ c ∈ pre ++ post, ∃ e' ∈ before ++ after, c.1 = nameOf e'.1 ∧ nameOf e'.1 ≠ nameOf e.1 := by
  obtain ⟨pre, post, hsplit⟩ := List.append_of_mem (mem_cellTexts h before)
  refine ⟨pre, post, hsplit, fun c hc => ?_⟩
  have hnames := nodup_cellTexts (before ++ e :: after)
  rw [hsplit, List.map_append, List.map_cons, List.nodup_middle, List.nodup_cons,
    ← List.map_append] at hnames
  have hother : c.1 ≠ nameOf e.1 := by
    intro heq
    rw [← heq] at hnames
    exact hnames.1 (List.mem_map_of_mem (f := fun c => c.1) hc)
  have hmem : c ∈ cellTexts (before ++ e :: after) := by
    rw [hsplit]
    exact List.mem_append.mpr ((List.mem_append.mp hc).imp_right (List.mem_cons_of_mem _))
  obtain ⟨e', he', hname⟩ := exists_nameOf_of_mem hmem
  refine ⟨e', ?_, hname, hname ▸ hother⟩
  rcases List.mem_append.mp he' with he' | he'
  · exact List.mem_append_left _ he'
  · rcases List.mem_cons.mp he' with rfl | he'
    · exact absurd hname hother
    · exact List.mem_append_right _ he'

def grid (f : SheetFile) : Sheet := { rows := f.rows, columns := f.columns }

variable {f : SheetFile}

theorem readSpec_toDatum (f : SheetFile) :
    Sheet.readSpec f.toDatum =
      .ok (f.rows, f.columns, f.cells.map fun c => (.text c.1, .text c.2)) := by
  obtain ⟨rows, columns, cells⟩ := f
  cases cells with
  | nil => rfl
  | cons c cells => rfl

theorem locate_text {c : String × String} {b : Address} (h : f.grid.resolve (.text c.1) = .ok b) :
    Sheet.locate f.rows f.columns (.text c.1, .text c.2) = some (b, c.2) := by
  rw [grid] at h
  simp only [Sheet.locate, h]
  rfl

/-- Texts that name other cells of the grid than the one do not touch it. -/
theorem apart_map {a : Address} (ha : a.InGrid f.rows f.columns)
    (hlocated : ∀ c ∈ cells, ∃ b, f.grid.resolve (.text c.1) = .ok b)
    (halone : ∀ c ∈ cells, f.grid.resolve (.text c.1) ≠ .ok a) :
    Sheet.Apart f.rows f.columns a.key (cells.map fun c => (.text c.1, .text c.2)) := by
  intro e he p hp hkey
  obtain ⟨c, hc, rfl⟩ := List.mem_map.mp he
  obtain ⟨b, hb⟩ := hlocated c hc
  rw [locate_text hb] at hp
  cases hp
  have hgrid : b.InGrid f.rows f.columns := Sheet.inGrid_of_resolve hb
  have hsame := Address.key_injective_of_nonneg hgrid.2.2.1 hgrid.1 ha.2.2.1 ha.1 hkey
  exact halone c hc (hsame ▸ hb)

theorem exists_ofSpec_toDatum {text : String} {pre post : List (String × String)}
    (hcells : f.cells = pre ++ (name, text) :: post)
    (hlocated : ∀ c ∈ f.cells, ∃ b, f.grid.resolve (.text c.1) = .ok b)
    (ha : f.grid.resolve (.text name) = .ok a)
    (halone : ∀ c ∈ pre ++ post, f.grid.resolve (.text c.1) ≠ .ok a)
    (hf : isFormulaText text = false) :
    ∃ s notices, Sheet.ofSpec f.toDatum = .ok (s, notices) ∧
      ∀ u : Sheet, s.cellAt a = (u.process text a).cell := by
  have hgrid : a.InGrid f.rows f.columns := Sheet.inGrid_of_resolve ha
  have hspec := readSpec_toDatum f
  have hall : ∀ e ∈ f.cells.map fun c => ((.text c.1, .text c.2) : Datum × Datum),
      ∃ p, Sheet.locate f.rows f.columns e = some p := by
    intro e he
    obtain ⟨c, hc, rfl⟩ := List.mem_map.mp he
    obtain ⟨b, hb⟩ := hlocated c hc
    exact ⟨_, locate_text hb⟩
  rw [hcells] at hlocated
  rw [hcells, List.map_append, List.map_cons] at hspec hall
  obtain ⟨hbefore, hafter⟩ := List.forall_mem_append.mp halone
  obtain ⟨hlocatedBefore, hlocatedRest⟩ := List.forall_mem_append.mp hlocated
  obtain ⟨-, hlocatedAfter⟩ := List.forall_mem_cons.mp hlocatedRest
  exact Sheet.exists_ofSpec_entry hspec hall (locate_text (c := (name, text)) ha) hf
    (apart_map hgrid hlocatedBefore hbefore) (apart_map hgrid hlocatedAfter hafter)

/-- A finite number is never handed over as a formula, and the cell made of its text holds it
exactly if the grid shows it as that text. -/
theorem process_typedText (h : shape v = .finite negative bits) (u : Sheet) (a : Address) :
    isFormulaText (typedText (.float v)) = false ∧
      (displayNumber v = typedText (.float v) → ∃ w,
        (u.process (typedText (.float v)) a).cell = .number (typedText (.float v)) w ∧
          (w == v) = true) ∧
      (displayNumber v ≠ typedText (.float v) →
        (u.process (typedText (.float v)) a).cell = .text (typedText (.float v))) := by
  -- The zero with a sign is handed over without it and comes back as the other zero, its equal.
  by_cases hzero : v = -0.0
  · subst hzero
    have htext : typedText (.float (-0.0)) = "0" := by decide +kernel
    have hshown : displayNumber (-0.0) = "0" := by decide +kernel
    have hsome : Text.trim "0" ≠ "" := by decide
    have hcell := Sheet.cell_process_of_plain (s := u) (a := a) hsome (by decide)
    rw [htext, hshown]
    refine ⟨by decide, fun _ => ⟨0.0, ?_, by decide +kernel⟩, fun hne => absurd rfl hne⟩
    rw [hcell]
    decide +kernel
  · obtain ⟨cs, d, hd, hread, htext⟩ := Number.exists_typedText h hzero
    have hcell := Sheet.cell_process_signed (s := u) (a := a) hd negative
    rw [hread, ← htext] at hcell
    refine ⟨htext ▸ Sheet.isFormulaText_signed hd negative, fun hsame => ?_, fun hne => ?_⟩
    · rw [if_pos hsame] at hcell
      exact ⟨v, hcell, Number.beq_self_of_shape h⟩
    · rw [if_neg hne] at hcell
      exact hcell

/-- A finite number that a sheet file gives for a cell of the grid comes back as a number cell with
an equal value when it is below `10 ^ (-9)`, or at least `10 ^ (-4)` and below `10 ^ 21`. The others
come back as texts. The last entry of a name has to be the number, and the entries of other names
have to name other cells of the grid. -/
theorem loaded_number_iff {settings : Settings} {content key : Datum} {f : SheetFile}
    (hfile : ofDatum settings content = .ok f)
    (hentries : entriesOf content = .ok (before ++ (key, .float v) :: after))
    (hlocated : ∀ e ∈ before ++ (key, .float v) :: after,
      ∃ b, f.grid.resolve (.text (nameOf e.1)) = .ok b)
    (ha : f.grid.resolve (.text (nameOf key)) = .ok a)
    (hlast : ∀ e ∈ after, nameOf e.1 ≠ nameOf key)
    (halone : ∀ e ∈ before ++ after, nameOf e.1 ≠ nameOf key →
      f.grid.resolve (.text (nameOf e.1)) ≠ .ok a)
    (hfinite : shape v = .finite negative bits) :
    ∃ s notices, Sheet.ofSpec f.toDatum = .ok (s, notices) ∧
      ((∃ raw w, s.cellAt a = .number raw w ∧ (w == v) = true) ↔
        patternValue bits < 10 ^ (-9 : Int) ∨
          10 ^ (-4 : Int) ≤ patternValue bits ∧ patternValue bits < 10 ^ (21 : Int)) ∧
      ((∃ raw w, s.cellAt a = .number raw w ∧ (w == v) = true) ∨
        s.cellAt a = .text (typedText (.float v))) := by
  have hcells := cells_of_ofDatum hfile hentries
  have hresolved : ∀ c ∈ f.cells, ∃ b, f.grid.resolve (.text c.1) = .ok b := by
    intro c hc
    obtain ⟨e, he, hname⟩ := exists_nameOf_of_mem (hcells ▸ hc)
    rw [hname]
    exact hlocated e he
  obtain ⟨pre, post, hsplit, hother⟩ :=
    exists_split_cellTexts before (e := (key, Datum.float v)) hlast
  rw [hsplit] at hcells
  have hapart : ∀ c ∈ pre ++ post, f.grid.resolve (.text c.1) ≠ .ok a := by
    intro c hc
    obtain ⟨e, he, hname, hne⟩ := hother c hc
    rw [hname]
    exact halone e he hne
  obtain ⟨s, notices, hload, hcell⟩ := exists_ofSpec_toDatum hcells hresolved ha hapart
    (process_typedText hfinite f.grid a).1
  obtain ⟨-, hsame, hne⟩ := process_typedText hfinite f.grid a
  rw [← hcell f.grid] at hsame hne
  refine ⟨s, notices, hload, ?_, ?_⟩
  · rw [← Number.displayNumber_eq_typedText_iff hfinite]
    constructor
    · rintro ⟨raw, w, hnumber, -⟩
      by_contra htext
      rw [hne htext] at hnumber
      cases hnumber
    · intro htext
      obtain ⟨w, hw, heq⟩ := hsame htext
      exact ⟨_, w, hw, heq⟩
  · by_cases htext : displayNumber v = typedText (.float v)
    · obtain ⟨w, hw, heq⟩ := hsame htext
      exact .inl ⟨_, w, hw, heq⟩
    · exact .inr (hne htext)

/-- A formula that reads the number stands before it. -/
theorem loaded_number_half :
    ∃ s notices,
      Sheet.ofSpec (toDatum ⟨100, 26, [("B1", "=A1"), ("A1", "2.5")]⟩) = .ok (s, notices) ∧
        ∃ raw w, s.cellAt ⟨0, 0⟩ = .number raw w ∧ (w == 2.5) = true := by
  have hfile : ofDatum [] (.mapping [(.text "cells", .mapping [(.text "B1", .text "=A1"),
      (.text "a1", .float 2.5)])]) = .ok ⟨100, 26, [("B1", "=A1"), ("A1", "2.5")]⟩ := by
    decide +kernel
  have hentries : entriesOf (.mapping [(.text "cells", .mapping [(.text "B1", .text "=A1"),
      (.text "a1", .float 2.5)])]) =
      .ok ([(.text "B1", .text "=A1")] ++ (.text "a1", .float 2.5) :: []) := rfl
  have hnames : nameOf (.text "B1") = "B1" ∧ nameOf (.text "a1") = "A1" := by decide +kernel
  have hB1 : (grid ⟨100, 26, [("B1", "=A1"), ("A1", "2.5")]⟩).resolve (.text "B1") =
      .ok ⟨0, 1⟩ := by decide +kernel
  have hA1 : (grid ⟨100, 26, [("B1", "=A1"), ("A1", "2.5")]⟩).resolve (.text "A1") =
      .ok ⟨0, 0⟩ := by decide +kernel
  have hshape : shape 2.5 = .finite false 0x4004000000000000 := by decide +kernel
  have hvalue : patternValue 0x4004000000000000 = 5 / 2 := by
    have hparts : Number.significand 0x4004000000000000 = 5 * 2 ^ 50 ∧
        Number.exponent 0x4004000000000000 = -51 := by decide +kernel
    rw [patternValue, hparts.1, hparts.2]
    norm_num
  obtain ⟨s, notices, hload, hcell, -⟩ := loaded_number_iff (a := ⟨0, 0⟩) hfile hentries
    (by simp [hnames, hB1, hA1]) (by rw [hnames.2, hA1]) (by simp)
    (by simp [hnames, hB1]) hshape
  refine ⟨s, notices, hload, hcell.mpr (.inr ?_)⟩
  rw [hvalue]
  norm_num

/-- One ten-millionth is handed over with an exponent of two digits, which the grid never writes. -/
theorem loaded_as_text :
    ∃ f s notices,
      ofDatum [] (.mapping [(.text "cells", .mapping [(.text "A1", .float 1e-7)])]) = .ok f ∧
        Sheet.ofSpec f.toDatum = .ok (s, notices) ∧ s.cellAt ⟨0, 0⟩ = .text "1e-07" := by
  have hfile : ofDatum [] (.mapping [(.text "cells", .mapping [(.text "A1", .float 1e-7)])]) =
      .ok ⟨100, 26, [("A1", "1e-07")]⟩ := by decide +kernel
  have hA1 : (grid ⟨100, 26, [("A1", "1e-07")]⟩).resolve (.text "A1") = .ok ⟨0, 0⟩ := by
    decide +kernel
  have hcells : (⟨100, 26, [("A1", "1e-07")]⟩ : SheetFile).cells =
      [] ++ ("A1", "1e-07") :: [] := rfl
  obtain ⟨s, notices, hload, hcell⟩ :=
    exists_ofSpec_toDatum hcells (by simp [hA1]) hA1 (by simp) (by decide)
  refine ⟨_, s, notices, hfile, hload, ?_⟩
  rw [hcell { rows := 100, columns := 26 },
    Sheet.cell_process_of_plain (by decide) (by decide)]
  decide +kernel

end SheetFile
end Gridcalc
