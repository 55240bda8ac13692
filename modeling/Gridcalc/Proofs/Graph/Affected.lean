import Gridcalc.Graph.Order
import Gridcalc.Proofs.Graph.Links
import Mathlib.Data.List.TakeWhile
import Mathlib.Logic.Relation

/-! # What depends on a key

The search along the dependents finds what depends on a key, directly or not. It follows only
nodes that are known, and whoever reads something is known.
-/

namespace Gridcalc.Graph

open Relation

/-- A walk over unvisited nodes that begins at one of the keys. -/
inductive Walk (next : Node → List String) (fresh : Fresh) (ks : List String) : String → Prop
  | start {k : String} (hk : k ∈ ks) (known : k ∈ fresh) : Walk next fresh ks k
  | step {x y : String} {n : Node} (walk : Walk next fresh ks x) (hx : fresh[x]? = some n)
      (hy : y ∈ next n) (known : y ∈ fresh) : Walk next fresh ks y

variable {g : Graph} {next : Node → List String} {fresh : Fresh} {ks : List String}
  {a k x y : String} {n : Node}

theorem Walk.mem_fresh (h : Walk next fresh ks x) : x ∈ fresh := by
  cases h with
  | start _ known => exact known
  | step _ _ _ known => exact known

theorem not_walk_nil : ¬ Walk next fresh [] x := by
  intro h
  induction h with
  | start hk _ => exact absurd hk List.not_mem_nil
  | step _ _ _ _ ih => exact ih

theorem Walk.of_erase (hn : fresh[a]? = some n)
    (h : Walk next (fresh.erase a) (next n ++ ks) x) : Walk next fresh (a :: ks) x := by
  have hmem : a ∈ fresh := mem_iff_exists_getElem?.mpr ⟨n, hn⟩
  induction h with
  | start hk known =>
    have known := Std.TreeMap.mem_of_mem_erase known
    rcases List.mem_append.mp hk with hk | hk
    · exact .step (.start List.mem_cons_self hmem) hn hk known
    · exact .start (List.mem_cons_of_mem a hk) known
  | step _ hx hy known ih =>
    rw [getElem?_erase_eq_ite] at hx
    split at hx
    · cases hx
    · exact .step ih hx hy (Std.TreeMap.mem_of_mem_erase known)

theorem Walk.erase (hn : fresh[a]? = some n) (h : Walk next fresh (a :: ks) x) (hne : x ≠ a) :
    Walk next (fresh.erase a) (next n ++ ks) x := by
  have left {y : String} (hy : y ∈ fresh) (hya : y ≠ a) : y ∈ fresh.erase a :=
    mem_erase_iff.mpr ⟨hya, hy⟩
  induction h with
  | start hk known =>
    exact .start (List.mem_append_right _ (List.mem_of_ne_of_mem hne hk)) (left known hne)
  | @step x n' y walk hx hy known ih =>
    by_cases hxa : x = a
    · subst hxa
      rw [hn] at hx
      cases hx
      exact .start (List.mem_append_left _ hy) (left known hne)
    · refine .step (ih hxa) ?_ hy (left known hne)
      rw [getElem?_erase_eq_ite, if_neg hxa]
      exact hx

theorem walk_dropWhile :
    Walk next fresh (ks.dropWhile (!fresh.contains ·)) x ↔ Walk next fresh ks x := by
  have hks := List.takeWhile_append_dropWhile (p := (!fresh.contains ·)) (l := ks)
  constructor
  · intro h
    induction h with
    | start hk known =>
      refine .start ?_ known
      rw [← hks]
      exact List.mem_append_right _ hk
    | step _ hx hy known ih => exact .step ih hx hy known
  · intro h
    induction h with
    | start hk known =>
      refine .start ?_ known
      rw [← hks] at hk
      rcases List.mem_append.mp hk with hk | hk
      · have hout := List.mem_takeWhile_imp hk
        rw [Bool.not_eq_true', ← Bool.not_eq_true, Std.TreeMap.contains_iff_mem] at hout
        exact absurd known hout
      · exact hk
    | step _ hx hy known ih => exact .step ih hx hy known

theorem mem_reach_iff : x ∈ reach next fresh ks ↔ Walk next fresh ks x := by
  induction fresh, ks using reach.induct next with
  | case1 fresh ks hdrop =>
    rw [← walk_dropWhile, hdrop, reach, hdrop]
    exact iff_of_false List.not_mem_nil not_walk_nil
  | case2 fresh ks k rest hdrop n hn _ ih =>
    have hk : k ∈ fresh := mem_iff_exists_getElem?.mpr ⟨n, hn⟩
    have hreach : reach next fresh ks = k :: reach next (fresh.erase k) (next n ++ rest) := by
      rw [reach, hdrop]
      simp only
      split
      · rename_i m hm
        rw [hn] at hm
        cases hm
        rfl
      · rename_i hm
        rw [hn] at hm
        cases hm
    rw [← walk_dropWhile, hdrop, hreach, List.mem_cons, ih]
    constructor
    · rintro (rfl | h)
      · exact .start List.mem_cons_self hk
      · exact h.of_erase hn
    · intro h
      by_cases hx : x = k
      · exact .inl hx
      · exact .inr (h.erase hn hx)
  | case3 fresh ks k rest hdrop hn =>
    -- the first key that is kept is there
    have hk := List.head?_dropWhile_not (!fresh.contains ·) ks
    rw [hdrop] at hk
    have hcontains : fresh.contains k = false := by
      rw [Std.TreeMap.contains_eq_isSome_getElem?, hn]
      rfl
    simp [hcontains] at hk

theorem mem_affected_iff (hg : g.Linked) : x ∈ g.affected k ↔ TransGen g.Reads x k := by
  have known {a b : String} (h : g.Reads a b) : a ∈ g.nodes := by
    obtain ⟨n, hn⟩ := exists_node?_of_reads h
    exact mem_iff_exists_getElem?.mpr ⟨n, hn⟩
  have read (a b : String) : a ∈ (g.dependents b).toList ↔ g.Reads a b := (hg a b).symm
  rw [affected, KeySet.mem_ofList, mem_reach_iff]
  constructor
  · intro h
    induction h with
    | start hk _ => exact .single ((read _ _).mp hk)
    | @step y z n _ hn hz _ ih =>
      have hread : g.Reads z y := by
        rw [← read, dependents, node?, hn]
        exact hz
      exact .head hread ih
  · intro h
    induction h using TransGen.head_induction_on with
    | single hak => exact .start ((read _ _).mpr hak) (known hak)
    | @head a b hab _ ih =>
      obtain ⟨n, hn⟩ := mem_iff_exists_getElem?.mp ih.mem_fresh
      refine .step ih hn ?_ (known hab)
      have ha := (read a b).mpr hab
      rwa [dependents, node?, hn] at ha

theorem mem_affectedByAny_iff (hg : g.Linked) {changed : List String} :
    x ∈ g.affectedByAny changed ↔ ∃ k ∈ changed, TransGen g.Reads x k := by
  rw [affectedByAny, KeySet.mem_ofList, List.mem_flatMap]
  constructor
  · rintro ⟨k, hk, hx⟩
    exact ⟨k, hk, (mem_affected_iff hg).mp hx⟩
  · rintro ⟨k, hk, hx⟩
    exact ⟨k, hk, (mem_affected_iff hg).mpr hx⟩

end Gridcalc.Graph
