import Gridcalc.Proofs.Formula.Mentions
import Gridcalc.Proofs.Grid.Notation

/-! # What a range reads

A range reads the cells of its rectangle, row by row and each of them once, and leaves out the
empty ones. The rectangle settles what it comes to: any two opposite corners, written in any way,
give the same list.
-/

namespace Gridcalc

open Address (rectangle Precedes Opposite)

namespace Lookup

/-- Each reference is answered, with nothing, a text or a double. -/
def Plain (lookup : Lookup) : Prop :=
  ∀ ref, lookup ref = .ok .null ∨ (∃ s, lookup ref = .ok (.text s)) ∨
    ∃ v, lookup ref = .ok (.float v)

def present? (lookup : Lookup) (ref : String) : Option Datum :=
  match lookup ref with
  | .ok .null => none
  | .ok d => some d
  | .error _ => none

theorem Plain.cases {lookup : Lookup} (h : lookup.Plain) (ref : String) :
    (lookup ref = .ok .null ∧ lookup.present? ref = none) ∨
      ∃ d, lookup ref = .ok d ∧ lookup.present? ref = some d ∧ d ≠ .null ∧ d.widened = .ok d := by
  rw [present?]
  rcases h ref with hnull | ⟨s, htext⟩ | ⟨v, hdouble⟩
  · rw [hnull]
    exact .inl ⟨rfl, rfl⟩
  · rw [htext]
    exact .inr ⟨_, rfl, rfl, nofun, rfl⟩
  · rw [hdouble]
    exact .inr ⟨_, rfl, rfl, nofun, rfl⟩

end Lookup

theorem Run.outcome_bind_of_ok {α β : Type} {r : Run α} {f : α → Run β} {a : α}
    (h : r.outcome = .ok a) : (r >>= f).outcome = (f a).outcome := by
  change (r.bind f).outcome = _
  rw [Run.bind, h]

namespace Formula

open Run (outcome_bind_of_ok)

variable {lookup : Lookup} {first last : String} {a b : Address} {as : List Address}

theorem outcome_fetch (ref : String) : (fetch lookup ref).outcome = lookup ref := rfl

theorem outcome_readCells_of_null (h : lookup a.toA1 = .ok .null) :
    (readCells lookup (a :: as)).outcome = (readCells lookup as).outcome := by
  rw [readCells]
  exact outcome_bind_of_ok ((outcome_fetch a.toA1).trans h)

theorem outcome_readCells_of_present {d : Datum} {ds : List Datum} (h : lookup a.toA1 = .ok d)
    (hne : d ≠ .null) (hwidened : d.widened = .ok d)
    (hrest : (readCells lookup as).outcome = .ok ds) :
    (readCells lookup (a :: as)).outcome = .ok (d :: ds) := by
  have hd : (Run.ofExcept d.widened).outcome = .ok d := hwidened
  rw [readCells]
  apply (outcome_bind_of_ok ((outcome_fetch a.toA1).trans h)).trans
  cases d with
  | null => exact absurd rfl hne
  | _ => exact (outcome_bind_of_ok hd).trans (outcome_bind_of_ok hrest)

theorem outcome_readCells (h : lookup.Plain) (as : List Address) :
    (readCells lookup as).outcome = .ok (as.filterMap fun a => lookup.present? a.toA1) := by
  induction as with
  | nil => rfl
  | cons a as ih =>
    rw [List.filterMap_cons]
    rcases h.cases a.toA1 with ⟨hnull, hpresent⟩ | ⟨d, hd, hpresent, hne, hwidened⟩
    · rw [outcome_readCells_of_null hnull, hpresent, ih]
    · rw [outcome_readCells_of_present hd hne hwidened ih, hpresent]

theorem outcome_readRange (h : lookup.Plain) (ha : namedCell? first = some a)
    (hb : namedCell? last = some b) :
    (readRange lookup first last).outcome =
      .ok (.list ((rectangle a b).filterMap fun c => lookup.present? c.toA1)) := by
  rw [namedCell?] at ha hb
  rw [readRange]
  refine (outcome_bind_of_ok rfl).trans ((outcome_bind_of_ok rfl).trans ?_)
  rw [ha, hb]
  exact outcome_bind_of_ok (outcome_readCells h _)

/-- The cells of the rectangle that the ends span are read once each, in the order of reading,
and what they hold is listed in that order. Opposite corners of the same rectangle list the same. -/
theorem evaluate_range (hplain : lookup.Plain) (ha : namedCell? first = some a)
    (hb : namedCell? last = some b) :
    let run := (Formula.range first last).evaluate lookup
    ∃ cells : List Address,
      (∀ c, c ∈ cells ↔
        (min a.row b.row ≤ c.row ∧ c.row ≤ max a.row b.row) ∧
          min a.column b.column ≤ c.column ∧ c.column ≤ max a.column b.column) ∧
      cells.Pairwise Precedes ∧
      (∀ c ∈ cells, namedCell? c.toA1 = some c) ∧
      run.consulted = first :: last :: cells.map Address.toA1 ∧
      run.outcome = .ok (.list (cells.filterMap fun c => lookup.present? c.toA1)) ∧
      ∀ first' last' p q, namedCell? first' = some p → namedCell? last' = some q →
        Opposite a b p q →
          ((Formula.range first' last').evaluate lookup).outcome = run.outcome := by
  intro run
  have houtcome : run.outcome = _ := outcome_readRange hplain ha hb
  have hconsulted : run.consulted = (Formula.range first last).mentions :=
    (along_readRange lookup first last).whole _ houtcome
  refine ⟨rectangle a b, fun c => Address.mem_rectangle_iff, Address.pairwise_rectangle a b,
    fun c hc => ?_, ?_, houtcome, fun first' last' p q hp hq hopposite => ?_⟩
  · exact Address.namedCell?_of_mem_rectangle (Address.proper_of_namedCell? ha)
      (Address.proper_of_namedCell? hb) hc
  · rw [hconsulted, mentions_range, ha, hb, spanned]
  · rw [houtcome, ← Address.rectangle_of_opposite hopposite]
    exact outcome_readRange hplain hp hq

/-- Of the four cells one holds a number, one a text, and two are empty. -/
theorem evaluate_range_of_other_corners :
    let lookup : Lookup := fun ref =>
      .ok (if ref = "B1" then .text "x" else if ref = "A2" then .float 1 else .null)
    lookup.Plain ∧ namedCell? "b$2" = some ⟨1, 1⟩ ∧ namedCell? "A1" = some ⟨0, 0⟩ ∧
      ((Formula.range "b$2" "A1").evaluate lookup).consulted =
        ["b$2", "A1", "A1", "B1", "A2", "B2"] ∧
      ((Formula.range "a02" "$B$1").evaluate lookup).outcome =
        ((Formula.range "b$2" "A1").evaluate lookup).outcome := by
  intro lookup
  have hplain : lookup.Plain := by
    intro ref
    by_cases hB1 : ref = "B1"
    · exact .inr (.inl ⟨"x", by simp [lookup, hB1]⟩)
    · by_cases hA2 : ref = "A2"
      · exact .inr (.inr ⟨1, by simp [lookup, hA2]⟩)
      · exact .inl (by simp [lookup, hB1, hA2])
  have hfirst : namedCell? "b$2" = some ⟨1, 1⟩ := by decide +kernel
  have hlast : namedCell? "A1" = some ⟨0, 0⟩ := by decide +kernel
  obtain ⟨cells, -, -, -, -, -, hcorners⟩ := evaluate_range hplain hfirst hlast
  refine ⟨hplain, hfirst, hlast, by decide +kernel, ?_⟩
  refine hcorners "a02" "$B$1" ⟨1, 0⟩ ⟨0, 1⟩ (by decide +kernel) (by decide +kernel) ?_
  rw [Address.Opposite]
  decide

end Formula

end Gridcalc
