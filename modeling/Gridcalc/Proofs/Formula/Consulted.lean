import Gridcalc.Formula.Evaluate

/-! # What a result depends on

Two evaluations of one formula that differ have both consulted a reference on which their
lookups differ. So the recorded references settle the result: nothing that was read is missing
from the record.
-/

namespace Gridcalc

namespace Text

theorem contains_insert (seen : Std.TreeSet String) (s t : String) :
    (seen.insert s).contains t = (t == s || seen.contains t) := by
  have hsame : (compare s t == .eq) = (t == s) := by
    rw [Bool.eq_iff_iff, beq_iff_eq, beq_iff_eq, Std.LawfulEqOrd.compare_eq_iff_eq, eq_comm]
  rw [Std.TreeSet.contains_insert, hsame]

theorem firstsFrom_eq (seen : Std.TreeSet String) (ss : List String) :
    firstsFrom seen ss = (ss.filter fun s => !seen.contains s).eraseDups := by
  induction ss generalizing seen with
  | nil => rfl
  | cons s ss ih =>
    rw [firstsFrom]
    split
    · rename_i hs
      rw [ih, List.filter_cons_of_neg (by simp [hs])]
    · rename_i hs
      rw [ih, List.filter_cons_of_pos (by simp [hs]), List.eraseDups_cons, List.filter_filter]
      simp only [contains_insert, Bool.not_or]

theorem firsts_eq_eraseDups (ss : List String) : firsts ss = ss.eraseDups := by
  rw [firsts, firstsFrom_eq, List.filter_eq_self.mpr fun s _ => by simp]

@[simp] theorem mem_firsts_iff {s : String} {ss : List String} : s ∈ firsts ss ↔ s ∈ ss := by
  rw [firsts_eq_eraseDups, List.mem_eraseDups]

end Text

namespace Run

variable {α β : Type} {l l' : Lookup}

/-- Two runs are the same, or each consulted a reference on which the lookups differ. -/
def Parts (l l' : Lookup) (r r' : Run α) : Prop :=
  r = r' ∨ ∃ ref, ref ∈ r.consulted ∧ ref ∈ r'.consulted ∧ l ref ≠ l' ref

theorem Parts.same (r : Run α) : Parts l l' r r := .inl rfl

theorem consulted_bind_subset (r : Run α) (f : α → Run β) {ref : String}
    (h : ref ∈ r.consulted) : ref ∈ (r >>= f).consulted := by
  change ref ∈ (r.bind f).consulted
  rw [bind]
  split
  · exact h
  · exact List.mem_append_left _ h

/-- What follows a run is parted only by what it reads itself. -/
theorem Parts.bind {r r' : Run α} {f f' : α → Run β} (h : Parts l l' r r')
    (hf : ∀ a, Parts l l' (f a) (f' a)) : Parts l l' (r >>= f) (r' >>= f') := by
  rcases h with rfl | ⟨ref, hr, hr', hne⟩
  · change Parts l l' (r.bind f) (r.bind f')
    rw [Run.bind, Run.bind]
    cases r.outcome with
    | error e => exact .inl rfl
    | ok a =>
      rcases hf a with heq | ⟨ref, hr, hr', hne⟩
      · left
        simp only [heq]
      · exact .inr ⟨ref, List.mem_append_right _ hr, List.mem_append_right _ hr', hne⟩
  · exact .inr ⟨ref, consulted_bind_subset r f hr, consulted_bind_subset r' f' hr', hne⟩

end Run

namespace Formula

open Run

variable (l l' : Lookup)

theorem parts_fetch (ref : String) : Parts l l' (fetch l ref) (fetch l' ref) := by
  by_cases h : l ref = l' ref
  · rw [fetch, fetch, h]
    exact .same _
  · refine .inr ⟨ref, ?_, ?_, h⟩ <;> exact consulted_bind_subset _ _ List.mem_cons_self

theorem parts_readCell (ref : String) : Parts l l' (readCell l ref) (readCell l' ref) :=
  (parts_fetch l l' ref).bind fun _ => .same _

theorem parts_readCells (as : List Address) : Parts l l' (readCells l as) (readCells l' as) := by
  induction as with
  | nil => exact .same _
  | cons a as ih =>
    rw [readCells, readCells]
    refine (parts_fetch l l' a.toA1).bind fun d => ?_
    cases d with
    | null => exact ih
    | _ => exact (Parts.same _).bind fun _ => ih.bind fun _ => .same _

theorem parts_readRange (first last : String) :
    Parts l l' (readRange l first last) (readRange l' first last) := by
  rw [readRange, readRange]
  refine (Parts.same _).bind fun _ => (Parts.same _).bind fun _ => ?_
  cases Address.ofA1? (stripMarkers first) with
  | none => exact .same _
  | some a =>
    cases Address.ofA1? (stripMarkers last) with
    | none => exact .same _
    | some b => exact (parts_readCells l l' _).bind fun _ => .same _

mutual
theorem parts_evaluate : ∀ f : Formula, Parts l l' (f.evaluate l) (f.evaluate l')
  | .number _ => .same _
  | .text _ => .same _
  | .cell ref => parts_readCell l l' ref
  | .range first last => parts_readRange l l' first last
  | .binary _ left right => by
    rw [evaluate, evaluate]
    exact (parts_evaluate left).bind fun _ => (Parts.same _).bind fun _ =>
      (parts_evaluate right).bind fun _ => .same _
  | .unary _ operand => by
    rw [evaluate, evaluate]
    exact (parts_evaluate operand).bind fun _ => .same _
  | .call _ arguments => by
    rw [evaluate, evaluate]
    exact (parts_collect arguments).bind fun _ => .same _

theorem parts_collect : ∀ fs : List Formula, Parts l l' (collect l fs) (collect l' fs)
  | [] => .same _
  | f :: fs => by
    rw [collect, collect]
    exact (parts_evaluate f).bind fun _ => (Parts.same _).bind fun _ =>
      (parts_collect fs).bind fun _ => .same _
end

/-- Evaluations of one formula that differ have both used a reference on which the lookups
differ. -/
theorem result_eq_or_exists (f : Formula) :
    f.result l = f.result l' ∨
      ∃ ref ∈ (f.result l).references, ref ∈ (f.result l').references ∧ l ref ≠ l' ref := by
  simp only [result, Text.mem_firsts_iff]
  rcases parts_evaluate l l' f with heq | ⟨ref, hr, hr', hne⟩
  · exact .inl (by rw [heq])
  · exact .inr ⟨ref, hr, hr', hne⟩

/-- A lookup that answers alike on the references used, failures included, leaves the whole
evaluation as it is: the verdict and the references in their order. -/
theorem result_eq_of_agree {l l' : Lookup} {f : Formula}
    (h : ∀ ref ∈ (f.result l).references, l' ref = l ref) : f.result l' = f.result l := by
  rcases result_eq_or_exists l l' f with heq | ⟨ref, hused, _, hne⟩
  · exact heq.symm
  · exact absurd (h ref hused).symm hne

/-- The lookup fails at `A1`, so `B1` is not read and may hold anything. -/
theorem result_beyond_failure :
    ∃ l l' : Lookup, l "B1" = .ok (.int 1) ∧ l' "B1" = .ok .null ∧
      (Formula.binary "+" (.cell "A1") (.cell "B1")).result l' =
        (Formula.binary "+" (.cell "A1") (.cell "B1")).result l := by
  refine ⟨fun ref => if ref = "B1" then .ok (.int 1) else .error (.lookupRefused "#N/A"),
    fun ref => if ref = "B1" then .ok .null else .error (.lookupRefused "#N/A"), rfl, rfl,
    result_eq_of_agree ?_⟩
  have hused : ((Formula.binary "+" (.cell "A1") (.cell "B1")).result fun ref =>
      if ref = "B1" then .ok (.int 1) else .error (.lookupRefused "#N/A")).references = ["A1"] := by
    decide +kernel
  rw [hused]
  intro ref href
  rw [List.mem_singleton.mp href]
  rfl

theorem compute_eq_or_exists (s : String) :
    compute l s = compute l' s ∨
      ∃ ref ∈ (compute l s).references, ref ∈ (compute l' s).references ∧ l ref ≠ l' ref := by
  rw [compute, compute]
  cases parse s with
  | error e => exact .inl rfl
  | ok f => exact result_eq_or_exists l l' f

theorem compute_congr {s : String} (h : ∀ ref ∈ (compute l s).references, l ref = l' ref) :
    compute l s = compute l' s := by
  rcases compute_eq_or_exists l l' s with heq | ⟨ref, hr, _, hne⟩
  · exact heq
  · exact absurd (h ref hr) hne

end Formula

end Gridcalc
