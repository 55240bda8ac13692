import Std.Data.TreeSet

/-! # Key sets

Finite sets of storage keys, kept in the order of the keys, so that two sets with the same
members are equal and a listing needs no sorting.
-/

namespace Gridcalc

structure KeySet where
  toList : List String
  sorted : toList.Pairwise (· < ·)
deriving DecidableEq

namespace KeySet

instance : Membership String KeySet := ⟨fun s k => k ∈ s.toList⟩

theorem mem_def {k : String} {s : KeySet} : k ∈ s ↔ k ∈ s.toList := Iff.rfl

instance (k : String) (s : KeySet) : Decidable (k ∈ s) := inferInstanceAs (Decidable (k ∈ s.toList))

def empty : KeySet := ⟨[], .nil⟩

instance : EmptyCollection KeySet := ⟨empty⟩

instance : Inhabited KeySet := ⟨∅⟩

def insertSorted (k : String) : List String → List String
  | [] => [k]
  | x :: xs =>
    if k < x then k :: x :: xs
    else if k = x then x :: xs
    else x :: insertSorted k xs

@[simp] theorem mem_insertSorted {k y : String} {xs : List String} :
    y ∈ insertSorted k xs ↔ y = k ∨ y ∈ xs := by
  induction xs with
  | nil => simp [insertSorted]
  | cons x xs ih =>
    rw [insertSorted]
    split
    · simp
    split
    · simp_all
    · simp [ih, or_left_comm]

theorem pairwise_insertSorted {k : String} {xs : List String} (h : xs.Pairwise (· < ·)) :
    (insertSorted k xs).Pairwise (· < ·) := by
  induction xs with
  | nil => simp [insertSorted]
  | cons x xs ih =>
    have hx := List.pairwise_cons.1 h
    rw [insertSorted]
    split
    · rename_i hk
      refine List.pairwise_cons.2 ⟨fun y hy => ?_, h⟩
      rcases List.mem_cons.1 hy with rfl | hy
      · exact hk
      · exact String.lt_trans hk (hx.1 y hy)
    split
    · exact h
    · rename_i hlt hne
      refine List.pairwise_cons.2 ⟨fun y hy => ?_, ih hx.2⟩
      rcases mem_insertSorted.1 hy with rfl | hy
      · exact Std.lt_of_le_of_ne (Std.not_lt.1 hlt) (Ne.symm hne)
      · exact hx.1 y hy

def insert (k : String) (s : KeySet) : KeySet := ⟨insertSorted k s.toList, pairwise_insertSorted s.sorted⟩

def filter (p : String → Bool) (s : KeySet) : KeySet := ⟨s.toList.filter p, s.sorted.filter p⟩

def erase (k : String) (s : KeySet) : KeySet := s.filter (· != k)

def ofList (ks : List String) : KeySet where
  toList := (Std.TreeSet.ofList ks).toList
  sorted := (Std.TreeSet.ordered_toList (t := Std.TreeSet.ofList ks)).imp fun h =>
    compareOfLessAndEq_eq_lt.1 h

def size (s : KeySet) : Nat := s.toList.length

@[simp] theorem not_mem_empty (k : String) : k ∉ (∅ : KeySet) := List.not_mem_nil

@[simp] theorem mem_insert {k y : String} {s : KeySet} : y ∈ s.insert k ↔ y = k ∨ y ∈ s :=
  mem_insertSorted

@[simp] theorem mem_filter {k : String} {p : String → Bool} {s : KeySet} :
    k ∈ s.filter p ↔ k ∈ s ∧ p k = true := List.mem_filter

@[simp] theorem mem_erase {k y : String} {s : KeySet} : y ∈ s.erase k ↔ y ∈ s ∧ y ≠ k := by
  simp [erase]

@[simp] theorem mem_ofList {k : String} {ks : List String} : k ∈ ofList ks ↔ k ∈ ks := by
  simp [mem_def, ofList, Std.TreeSet.mem_toList, Std.TreeSet.mem_ofList]

theorem nodup (s : KeySet) : s.toList.Nodup :=
  List.Pairwise.imp (fun {a b} (h : a < b) (e : a = b) => String.lt_irrefl b (e ▸ h)) s.sorted

private theorem eq_of_pairwise_of_mem_iff {xs ys : List String} (hx : xs.Pairwise (· < ·))
    (hy : ys.Pairwise (· < ·)) (h : ∀ k, k ∈ xs ↔ k ∈ ys) : xs = ys := by
  induction xs generalizing ys with
  | nil =>
    cases ys with
    | nil => rfl
    | cons y ys => exact absurd ((h y).2 List.mem_cons_self) List.not_mem_nil
  | cons x xs ih =>
    cases ys with
    | nil => exact absurd ((h x).1 List.mem_cons_self) List.not_mem_nil
    | cons y ys =>
      have hx' := List.pairwise_cons.1 hx
      have hy' := List.pairwise_cons.1 hy
      have hxy : x = y := by
        rcases List.mem_cons.1 ((h x).1 List.mem_cons_self) with e | hxs
        · exact e
        rcases List.mem_cons.1 ((h y).2 List.mem_cons_self) with e | hys
        · exact e.symm
        exact absurd (String.lt_trans (hx'.1 y hys) (hy'.1 x hxs)) (String.lt_irrefl x)
      subst hxy
      refine congrArg (x :: ·) (ih hx'.2 hy'.2 fun k => ⟨fun hk => ?_, fun hk => ?_⟩)
      · rcases List.mem_cons.1 ((h k).1 (List.mem_cons_of_mem x hk)) with e | hk'
        · exact absurd (e ▸ hx'.1 k hk) (String.lt_irrefl _)
        · exact hk'
      · rcases List.mem_cons.1 ((h k).2 (List.mem_cons_of_mem x hk)) with e | hk'
        · exact absurd (e ▸ hy'.1 k hk) (String.lt_irrefl _)
        · exact hk'

theorem ext {s t : KeySet} (h : ∀ k, k ∈ s ↔ k ∈ t) : s = t := by
  cases s; cases t
  exact KeySet.mk.injEq .. ▸ eq_of_pairwise_of_mem_iff ‹_› ‹_› h

theorem toList_eq_nil_iff {s : KeySet} : s.toList = [] ↔ s = ∅ :=
  ⟨fun h => ext fun k => by simp [mem_def, h, EmptyCollection.emptyCollection, empty],
    fun h => h ▸ rfl⟩

end KeySet

end Gridcalc
