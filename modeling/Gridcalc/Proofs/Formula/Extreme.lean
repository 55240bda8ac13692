import Gridcalc.Formula.Aggregate
import Gridcalc.Proofs.Number.Compare

/-! # The least and the greatest argument

Both functions go through their arguments once and keep the best so far. What is no number is
neither better than the best nor worse, so it is passed over when it comes later, and kept to the
end when it comes first. The order of the arguments shows in nothing but this.
-/

namespace Gridcalc.Aggregate

open Number (place lt_iff_place_lt beq_iff_place_eq notNumber)

/-- The same number, or neither of them one. -/
def SameNumber (v w : Float) : Prop := (v == w) = true ∨ v.isNaN = true ∧ w.isNaN = true

instance (v w : Float) : Decidable (SameNumber v w) :=
  inferInstanceAs (Decidable (_ ∨ _))

def StartsUnordered (vs : List Float) : Prop := vs.head?.any Float.isNaN = true

instance (vs : List Float) : Decidable (StartsUnordered vs) :=
  inferInstanceAs (Decidable (_ = true))

variable {β : Type} [LinearOrder β] {rank : Float → β} {v w : Float} {vs ws : List Float}

/-- One of the numbers in the list, and no number in the list ranks before it. -/
structure LeastNumber (rank : Float → β) (vs : List Float) (v : Float) : Prop where
  mem : v ∈ vs
  ordered : v.isNaN = false
  le : ∀ w ∈ vs, w.isNaN = false → rank v ≤ rank w

theorem LeastNumber.rank_eq_of_perm (hv : LeastNumber rank vs v) (hw : LeastNumber rank ws w)
    (hperm : vs.Perm ws) : rank v = rank w :=
  le_antisymm (hv.le w (hperm.mem_iff.mpr hw.mem) hw.ordered)
    (hw.le v (hperm.mem_iff.mp hv.mem) hv.ordered)

/-- A list that starts with a number has the least of its numbers as its value. What is no number
and stands first is the value itself. -/
structure TakesLeast (rank : Float → β) (f : List Float → Float) : Prop where
  kept : ∀ v vs, v.isNaN = true → f (v :: vs) = v
  least : ∀ v vs, v.isNaN = false → LeastNumber rank (v :: vs) (f (v :: vs))

section Best

variable {better : Float → Float → Prop} [DecidableRel better]
  (hbetter : ∀ v w, better v w ↔ v.isNaN = false ∧ w.isNaN = false ∧ rank v < rank w)

include hbetter

theorem foldl_best_of_isNaN (hv : v.isNaN = true) (vs : List Float) :
    vs.foldl (fun best w => if better w best then w else best) v = v := by
  induction vs with
  | nil => rfl
  | cons w vs ih =>
    have hnot : ¬better w v := by
      rw [hbetter, hv]
      rintro ⟨-, ⟨⟩, -⟩
    rw [List.foldl_cons, if_neg hnot, ih]

theorem leastNumber_foldl_best (hv : v.isNaN = false) (vs : List Float) :
    LeastNumber rank (v :: vs)
      (vs.foldl (fun best w => if better w best then w else best) v) := by
  -- By induction on the arguments to come, whatever is the best so far.
  induction vs generalizing v with
  | nil => exact ⟨List.mem_singleton_self v, hv, by simp⟩
  | cons w vs ih =>
    rw [List.foldl_cons]
    split
    · rename_i hwv
      obtain ⟨hw, -, hlt⟩ := (hbetter w v).mp hwv
      have hbest := ih hw
      refine ⟨List.mem_cons_of_mem v hbest.mem, hbest.ordered, fun x hx hordered => ?_⟩
      rcases List.mem_cons.mp hx with rfl | hx
      · exact (hbest.le w List.mem_cons_self hw).trans hlt.le
      · exact hbest.le x hx hordered
    · rename_i hwv
      have hbest := ih hv
      refine ⟨?_, hbest.ordered, fun x hx hordered => ?_⟩
      · rcases List.mem_cons.mp hbest.mem with heq | hmem
        · exact List.mem_cons.mpr (.inl heq)
        · exact List.mem_cons_of_mem v (List.mem_cons_of_mem w hmem)
      · rcases List.mem_cons.mp hx with rfl | hx
        · exact hbest.le x List.mem_cons_self hordered
        · rcases List.mem_cons.mp hx with rfl | hx
          · have hle : rank v ≤ rank x := not_lt.mp fun hlt =>
              hwv ((hbetter x v).mpr ⟨hordered, hv, hlt⟩)
            exact (hbest.le v List.mem_cons_self hv).trans hle
          · exact hbest.le x (List.mem_cons_of_mem v hx) hordered

end Best

theorem takesLeast_minimum : TakesLeast place minimum where
  kept _ vs hv := foldl_best_of_isNaN (fun _ _ => lt_iff_place_lt) hv vs
  least _ vs hv := leastNumber_foldl_best (fun _ _ => lt_iff_place_lt) hv vs

/-- From the other end of the order, the greater number is the better one. -/
theorem lt_iff_toDual_place_lt (v w : Float) :
    w < v ↔ v.isNaN = false ∧ w.isNaN = false ∧
      OrderDual.toDual (place v) < OrderDual.toDual (place w) :=
  lt_iff_place_lt.trans and_left_comm

theorem takesLeast_maximum : TakesLeast (fun v => OrderDual.toDual (place v)) maximum where
  kept _ vs hv := foldl_best_of_isNaN lt_iff_toDual_place_lt hv vs
  least _ vs hv := leastNumber_foldl_best lt_iff_toDual_place_lt hv vs

theorem SameNumber.refl (v : Float) : SameNumber v v := by
  cases hv : v.isNaN with
  | true => exact .inr ⟨hv, hv⟩
  | false => exact .inl (beq_iff_place_eq.mpr ⟨hv, hv, rfl⟩)

theorem SameNumber.isNaN_eq (h : SameNumber v w) : v.isNaN = w.isNaN := by
  rcases h with heq | ⟨hv, hw⟩
  · obtain ⟨hv, hw, -⟩ := beq_iff_place_eq.mp heq
    rw [hv, hw]
  · rw [hv, hw]

theorem TakesLeast.isNaN_eq {f : List Float → Float} (hf : TakesLeast rank f) (v : Float)
    (vs : List Float) : (f (v :: vs)).isNaN = v.isNaN := by
  cases hv : v.isNaN with
  | true => rw [hf.kept v vs hv, hv]
  | false => exact (hf.least v vs hv).ordered

theorem TakesLeast.sameNumber_iff {f : List Float → Float} (hf : TakesLeast rank f)
    (hrank : ∀ v w, rank v = rank w → place v = place w) (hperm : vs.Perm ws) :
    SameNumber (f vs) (f ws) ↔ (StartsUnordered vs ↔ StartsUnordered ws) := by
  cases vs with
  | nil =>
    obtain rfl := hperm.nil_eq
    exact iff_of_true (.refl _) Iff.rfl
  | cons v vs =>
    cases ws with
    | nil => exact absurd hperm.eq_nil (List.cons_ne_nil v vs)
    | cons w ws =>
      change _ ↔ (v.isNaN = true ↔ w.isNaN = true)
      rw [← Bool.eq_iff_iff]
      constructor
      · intro hsame
        rw [← hf.isNaN_eq v vs, hsame.isNaN_eq, hf.isNaN_eq]
      · intro heq
        cases hv : v.isNaN with
        | true => exact .inr ⟨(hf.isNaN_eq v vs).trans hv, (hf.isNaN_eq w ws).trans (heq ▸ hv)⟩
        | false =>
          have hleast := hf.least v vs hv
          have hleast' := hf.least w ws (heq ▸ hv)
          exact .inl (beq_iff_place_eq.mpr ⟨hleast.ordered, hleast'.ordered,
            hrank _ _ (hleast.rank_eq_of_perm hleast' hperm)⟩)

/-- The least and the greatest argument are the same in another order if and only if both orders
start with a number or neither of them does. -/
theorem sameNumber_of_perm_iff {name : String} (hname : name = "MIN" ∨ name = "MAX")
    (hperm : vs.Perm ws) :
    ∃ f, aggregate? name = some f ∧
      (SameNumber (f vs) (f ws) ↔ (StartsUnordered vs ↔ StartsUnordered ws)) := by
  rcases hname with rfl | rfl
  · exact ⟨minimum, rfl, takesLeast_minimum.sameNumber_iff (fun _ _ => id) hperm⟩
  · exact ⟨maximum, rfl,
      takesLeast_maximum.sameNumber_iff (fun _ _ => OrderDual.toDual_inj.mp) hperm⟩

theorem sameNumber_of_perm_behind :
    [2, notNumber, 1].Perm [1, 2, notNumber] ∧
      ∃ f, aggregate? "MIN" = some f ∧ SameNumber (f [2, notNumber, 1]) (f [1, 2, notNumber]) := by
  have hperm : [2, notNumber, 1].Perm [1, 2, notNumber] :=
    @List.perm_append_comm Float [2, notNumber] [1]
  obtain ⟨f, hf, hiff⟩ := sameNumber_of_perm_iff (.inl rfl) hperm
  exact ⟨hperm, f, hf, hiff.mpr (by decide +kernel)⟩

/-- What is no number decides when it comes first, and only then. -/
theorem not_sameNumber_of_perm_first :
    [1, notNumber].Perm [notNumber, 1] ∧
      ∀ name ∈ ["MIN", "MAX"], ∃ f, aggregate? name = some f ∧
        ¬SameNumber (f [1, notNumber]) (f [notNumber, 1]) := by
  refine ⟨List.Perm.swap _ _ [], List.forall_mem_cons.mpr ⟨?_, List.forall_mem_singleton.mpr ?_⟩⟩
  · exact ⟨minimum, rfl, by decide +kernel⟩
  · exact ⟨maximum, rfl, by decide +kernel⟩

end Gridcalc.Aggregate
