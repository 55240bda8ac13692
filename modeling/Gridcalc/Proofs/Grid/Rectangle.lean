import Gridcalc.Proofs.Grid.Spelling

/-! # Rectangles

Where the cells of a rectangle lie, which texts name them, and what becomes of them when both
corners move alike.
-/

namespace Gridcalc

def namedCell? (text : String) : Option Address := Address.ofA1? (stripMarkers text)

namespace Address

def translate (rows columns : Int) (a : Address) : Address := ⟨a.row + rows, a.column + columns⟩

theorem mem_span_iff {first last i : Int} : i ∈ span first last ↔ first ≤ i ∧ i ≤ last := by
  rw [span, List.mem_map]
  constructor
  · rintro ⟨n, hn, rfl⟩
    rw [List.mem_range] at hn
    omega
  · rintro ⟨hfirst, hlast⟩
    exact ⟨(i - first).toNat, List.mem_range.mpr (by omega), by omega⟩

theorem pairwise_span (first last : Int) : (span first last).Pairwise (· < ·) := by
  refine List.Pairwise.map _ (fun i j hij => ?_) List.pairwise_lt_range
  omega

theorem span_add (first last d : Int) :
    span (first + d) (last + d) = (span first last).map (· + d) := by
  rw [span, span, List.map_map, show last + d + 1 - (first + d) = last + 1 - first by omega]
  refine List.map_congr_left fun i _ => ?_
  simp only [Function.comp_apply]
  omega

theorem mem_rectangle_iff {a b c : Address} :
    c ∈ rectangle a b ↔
      (min a.row b.row ≤ c.row ∧ c.row ≤ max a.row b.row) ∧
        min a.column b.column ≤ c.column ∧ c.column ≤ max a.column b.column := by
  obtain ⟨row, column⟩ := c
  simp only [rectangle, List.mem_flatMap, List.mem_map, mem_span_iff, Address.mk.injEq]
  constructor
  · rintro ⟨i, hi, j, hj, rfl, rfl⟩
    exact ⟨hi, hj⟩
  · rintro ⟨hrow, hcolumn⟩
    exact ⟨row, hrow, column, hcolumn, rfl, rfl⟩

/-- The order of reading: row by row, and each row from left to right. -/
def Precedes (a b : Address) : Prop := a.row < b.row ∨ a.row = b.row ∧ a.column < b.column

theorem pairwise_rectangle (a b : Address) : (rectangle a b).Pairwise Precedes := by
  rw [rectangle, List.pairwise_flatMap]
  constructor
  · intro row _
    exact (pairwise_span _ _).map _ fun i j hij => .inr ⟨rfl, hij⟩
  · refine (pairwise_span _ _).imp fun {row row'} hrow => ?_
    intro c hc d hd
    obtain ⟨i, -, rfl⟩ := List.mem_map.mp hc
    obtain ⟨j, -, rfl⟩ := List.mem_map.mp hd
    exact .inl hrow

/-- Each of the sides of the rectangle with the corners `a` and `b` meets one of `p` and `q`. -/
def Opposite (a b p q : Address) : Prop :=
  (p.row = a.row ∧ q.row = b.row ∨ p.row = b.row ∧ q.row = a.row) ∧
    (p.column = a.column ∧ q.column = b.column ∨ p.column = b.column ∧ q.column = a.column)

theorem rectangle_of_opposite {a b p q : Address} (h : Opposite a b p q) :
    rectangle p q = rectangle a b := by
  obtain ⟨hrow, hcolumn⟩ := h
  have htop : min p.row q.row = min a.row b.row := by omega
  have hbottom : max p.row q.row = max a.row b.row := by omega
  have hleft : min p.column q.column = min a.column b.column := by omega
  have hright : max p.column q.column = max a.column b.column := by omega
  rw [rectangle, rectangle, htop, hbottom, hleft, hright]

theorem rectangle_translate (rows columns : Int) (a b : Address) :
    rectangle (a.translate rows columns) (b.translate rows columns) =
      (rectangle a b).map (translate rows columns) := by
  have hmin : ∀ i j d : Int, min (i + d) (j + d) = min i j + d := by omega
  have hmax : ∀ i j d : Int, max (i + d) (j + d) = max i j + d := by omega
  simp only [rectangle, translate, hmin, hmax, span_add, List.map_flatMap, List.flatMap_map,
    List.map_map]
  rfl

/-- Where the copy finds what the original finds at a cell. -/
def moved (pinned : Bool) (rows columns : Int) (a : Address) : Address :=
  if pinned then a else a.translate rows columns

theorem rectangle_moved (pinned : Bool) (rows columns : Int) (a b : Address) :
    rectangle (a.moved pinned rows columns) (b.moved pinned rows columns) =
      (rectangle a b).map (moved pinned rows columns) := by
  cases pinned with
  | true => exact (List.map_id _).symm
  | false => exact rectangle_translate rows columns a b

theorem nonneg_of_mem_rectangle {a b c : Address} (ha : 0 ≤ a.row ∧ 0 ≤ a.column)
    (hb : 0 ≤ b.row ∧ 0 ≤ b.column) (hc : c ∈ rectangle a b) : 0 ≤ c.row ∧ 0 ≤ c.column := by
  obtain ⟨hrow, hcolumn⟩ := mem_rectangle_iff.mp hc
  constructor
  · exact Int.le_trans (Int.le_min.mpr ⟨ha.1, hb.1⟩) hrow.1
  · exact Int.le_trans (Int.le_min.mpr ⟨ha.2, hb.2⟩) hcolumn.1

theorem toA1_eq_toText (a : Address) : a.toA1 = (Reference.mk a.column a.row false false).toText := by
  simp [toA1, Reference.toText, Reference.marker]

theorem namedCell?_toA1 {a : Address} (hrow : 0 ≤ a.row) (hcolumn : 0 ≤ a.column) :
    namedCell? a.toA1 = some a := by
  let r : Reference := ⟨a.column, a.row, false, false⟩
  obtain ⟨s, hs, -⟩ := Reference.exists_spelling (r := r) hrow hcolumn
  have hspelled : Reference.Spelled r.toText := ⟨s, hs⟩
  rw [namedCell?, toA1_eq_toText, hspelled.ofA1?_stripMarkers,
    Reference.ofText?_toText (r := r) hrow hcolumn]
  rfl

theorem namedCell?_of_mem_rectangle {a b c : Address} (ha : 0 ≤ a.row ∧ 0 ≤ a.column)
    (hb : 0 ≤ b.row ∧ 0 ≤ b.column) (hc : c ∈ rectangle a b) : namedCell? c.toA1 = some c := by
  obtain ⟨hrow, hcolumn⟩ := nonneg_of_mem_rectangle ha hb hc
  exact namedCell?_toA1 hrow hcolumn

end Address

end Gridcalc
