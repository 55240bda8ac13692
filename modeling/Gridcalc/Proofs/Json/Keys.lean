import Mathlib
import Gridcalc.Json.Basic

/-! # Keys

An object has one member a key. Sorting the members changes their order and nothing else: what is
found under a key is the same, sorted in its turn.
-/

namespace Gridcalc.Json

mutual
/-- No object in the value has two members with one key. -/
def DistinctKeys : Json → Prop
  | .list items => ItemsDistinct items
  | .object members => (members.map Prod.fst).Nodup ∧ MembersDistinct members
  | _ => True

def ItemsDistinct : List Json → Prop
  | [] => True
  | j :: js => DistinctKeys j ∧ ItemsDistinct js

def MembersDistinct : List (String × Json) → Prop
  | [] => True
  | (_, v) :: ms => DistinctKeys v ∧ MembersDistinct ms
end

variable {key : String} {value : Json} {members ms : List (String × Json)}

theorem membersDistinct_iff : MembersDistinct members ↔ ∀ m ∈ members, DistinctKeys m.2 := by
  induction members with
  | nil => simp [MembersDistinct]
  | cons m ms ih => simp [MembersDistinct, ih]

theorem setMember_of_not_mem (h : key ∉ members.map Prod.fst) :
    setMember key value members = members ++ [(key, value)] := by
  induction members with
  | nil => rfl
  | cons m ms ih =>
    rw [List.map_cons, List.mem_cons, not_or] at h
    rw [setMember, if_neg (Ne.symm h.1), ih h.2]
    rfl

theorem setMember_of_nodup (h : ((members ++ (key, value) :: ms).map Prod.fst).Nodup) :
    setMember key value members = members ++ [(key, value)] := by
  rw [List.map_append, List.map_cons] at h
  exact setMember_of_not_mem fun hmem => (List.nodup_append.mp h).2.2 key hmem key List.mem_cons_self rfl

theorem insertSorted_perm (m : String × Json) (ms : List (String × Json)) :
    (insertSorted m ms).Perm (m :: ms) := by
  induction ms with
  | nil => exact .refl _
  | cons n ms ih =>
    rw [insertSorted]
    split
    · exact .refl _
    · exact (ih.cons n).trans (.swap m n ms)

theorem sortedMembers_perm (members : List (String × Json)) :
    (sortedMembers members).Perm (members.map fun m => (m.1, m.2.sorted)) := by
  induction members with
  | nil => exact .refl _
  | cons m ms ih =>
    rw [sortedMembers, List.map_cons]
    exact (insertSorted_perm _ _).trans (ih.cons _)

theorem keys_sortedMembers_perm (members : List (String × Json)) :
    ((sortedMembers members).map Prod.fst).Perm (members.map Prod.fst) := by
  have h := (sortedMembers_perm members).map Prod.fst
  rwa [List.map_map] at h

mutual
theorem distinctKeys_sorted : ∀ {j : Json}, DistinctKeys j → DistinctKeys j.sorted
  | .list items, h => by
    rw [sorted, DistinctKeys]
    rw [DistinctKeys] at h
    exact itemsDistinct_sortedItems h
  | .object members, h => by
    rw [sorted, DistinctKeys]
    rw [DistinctKeys] at h
    exact ⟨(keys_sortedMembers_perm members).nodup_iff.mpr h.1, membersDistinct_sortedMembers h.2⟩
  | .null, _ => trivial
  | .bool _, _ => trivial
  | .int _, _ => trivial
  | .float _, _ => trivial
  | .text _, _ => trivial

theorem itemsDistinct_sortedItems : ∀ {js : List Json}, ItemsDistinct js →
    ItemsDistinct (sortedItems js)
  | [], _ => trivial
  | _ :: _, h => ⟨distinctKeys_sorted h.1, itemsDistinct_sortedItems h.2⟩

theorem membersDistinct_sortedMembers : ∀ {ms : List (String × Json)}, MembersDistinct ms →
    MembersDistinct (sortedMembers ms)
  | [], _ => trivial
  | (k, v) :: ms, h => by
    rw [sortedMembers, membersDistinct_iff]
    intro m hm
    rcases List.mem_cons.mp ((insertSorted_perm _ _).mem_iff.mp hm) with rfl | hm
    · exact distinctKeys_sorted h.1
    · exact membersDistinct_iff.mp (membersDistinct_sortedMembers h.2) m hm
end

theorem member?_eq_some_iff (h : (members.map Prod.fst).Nodup) :
    member? key members = some value ↔ (key, value) ∈ members := by
  induction members with
  | nil => simp [member?]
  | cons m ms ih =>
    obtain ⟨k, v⟩ := m
    rw [List.map_cons, List.nodup_cons] at h
    have hrest : member? key ((k, v) :: ms) = if k = key then some v else member? key ms := by
      rw [member?, member?, List.find?_cons]
      by_cases hk : k = key
      · simp [hk]
      · rw [if_neg hk, show (k == key) = false from beq_eq_false_iff_ne.mpr hk]
    rw [hrest]
    split
    · rename_i hk
      subst hk
      rw [Option.some.injEq, List.mem_cons, Prod.mk.injEq]
      constructor
      · rintro rfl
        exact .inl ⟨rfl, rfl⟩
      · rintro (⟨-, rfl⟩ | hmem)
        · rfl
        · exact absurd (List.mem_map_of_mem hmem) h.1
    · rename_i hk
      rw [ih h.2, List.mem_cons, Prod.mk.injEq]
      exact ⟨.inr, fun hmem => hmem.resolve_left fun heq => hk heq.1.symm⟩

theorem member?_sortedMembers (h : (members.map Prod.fst).Nodup) (key : String) :
    member? key (sortedMembers members) = (member? key members).map sorted := by
  have hsorted := (keys_sortedMembers_perm members).nodup_iff.mpr h
  ext value
  rw [member?_eq_some_iff hsorted, (sortedMembers_perm members).mem_iff, List.mem_map,
    Option.map_eq_some_iff]
  constructor
  · rintro ⟨⟨k, v⟩, hmem, heq⟩
    obtain ⟨rfl, rfl⟩ := Prod.mk.inj heq
    exact ⟨v, (member?_eq_some_iff h).mpr hmem, rfl⟩
  · rintro ⟨v, hv, rfl⟩
    exact ⟨(key, v), (member?_eq_some_iff h).mp hv, rfl⟩

end Gridcalc.Json
