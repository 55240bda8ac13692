import Mathlib.Tactic.NormNum
import Gridcalc.Grid.Address
import Gridcalc.Proofs.Text.Digit

/-! # Column letters

The letters written for a column are capitals and name that column again. Whatever letters a
text has, the column that they name is not left of the grid.
-/

namespace Gridcalc

namespace Column

theorem lettersFrom_succ (n : Nat) : lettersFrom (n + 1) = lettersFrom (n / 26) ++ [letter n] := by
  rw [lettersFrom]
  simp

def capitals : List Char := (List.range 26).map letter

theorem letter_mem_capitals (n : Nat) : letter n ∈ capitals :=
  List.mem_map.mpr ⟨n % 26, List.mem_range.mpr (Nat.mod_lt n (by decide)), by simp [letter]⟩

theorem mem_capitals_of_mem_lettersFrom {n : Nat} {c : Char} (h : c ∈ lettersFrom n) :
    c ∈ capitals := by
  induction n using Nat.strongRecOn with
  | ind n ih =>
    cases n with
    | zero => simp [lettersFrom] at h
    | succ n =>
      rw [lettersFrom_succ, List.mem_append, List.mem_singleton] at h
      rcases h with h | rfl
      · exact ih (n / 26) (by omega) h
      · exact letter_mem_capitals n

theorem lettersFrom_ne_nil {n : Nat} (h : 0 < n) : lettersFrom n ≠ [] := by
  obtain ⟨m, rfl⟩ := Nat.exists_eq_succ_of_ne_zero (Nat.ne_of_gt h)
  simp [lettersFrom_succ]

theorem weight_letter (n : Nat) : weight (letter n) = n % 26 + 1 := by
  have hall : ∀ k : Fin 26, weight (Char.ofNat (65 + k)) = k + 1 := by decide
  exact_mod_cast hall ⟨n % 26, Nat.mod_lt n (by decide)⟩

theorem foldl_lettersFrom (n : Nat) :
    (lettersFrom n).foldl (fun i c => i * 26 + weight c) 0 = (n : Int) := by
  induction n using Nat.strongRecOn with
  | ind n ih =>
    cases n with
    | zero => simp [lettersFrom]
    | succ n =>
      rw [lettersFrom_succ, List.foldl_append, ih (n / 26) (by omega), List.foldl_cons,
        List.foldl_nil, weight_letter]
      omega

theorem upperChars_eq_self {cs : List Char} (h : ∀ c ∈ cs, c ∈ capitals) :
    Text.upperChars cs = cs := by
  have hall : ∀ c ∈ capitals, Text.upperChar c = [c] := by decide
  induction cs with
  | nil => rfl
  | cons c cs ih =>
    rw [Text.upperChars, List.flatMap_cons, hall c (h c List.mem_cons_self)]
    exact congrArg (c :: ·) (ih fun d hd => h d (List.mem_cons_of_mem c hd))

theorem index_lettersFrom (n : Nat) : index (String.ofList (lettersFrom n)) = (n : Int) - 1 := by
  rw [index, String.toList_ofList, upperChars_eq_self fun _ => mem_capitals_of_mem_lettersFrom,
    foldl_lettersFrom]

theorem exists_letter_of_mem_capitals {c : Char} (h : c ∈ capitals) :
    ∃ n < 26, letter n = c ∧ weight c = n + 1 := by
  obtain ⟨n, hn, rfl⟩ := List.mem_map.mp h
  rw [List.mem_range] at hn
  refine ⟨n, hn, rfl, ?_⟩
  rw [weight_letter]
  omega

theorem lettersFrom_foldl {cs : List Char} (h : ∀ c ∈ cs, c ∈ capitals) :
    ∃ n : Nat, cs.foldl (fun i c => i * 26 + weight c) 0 = (n : Int) ∧ lettersFrom n = cs := by
  induction cs using List.reverseRecOn with
  | nil => exact ⟨0, rfl, by rw [lettersFrom, if_pos rfl]⟩
  | append_singleton cs c ih =>
    obtain ⟨n, hfold, hletters⟩ := ih fun d hd => h d (List.mem_append_left _ hd)
    obtain ⟨k, hk, rfl, hweight⟩ := exists_letter_of_mem_capitals (h c (by simp))
    refine ⟨n * 26 + k + 1, ?_, ?_⟩
    · rw [List.foldl_append, hfold, List.foldl_cons, List.foldl_nil, hweight]
      push_cast
      ring
    · have hquot : (n * 26 + k) / 26 = n := by omega
      have hlast : letter (n * 26 + k) = letter k := by
        rw [letter, letter, show (n * 26 + k) % 26 = k % 26 by omega]
      rw [lettersFrom_succ, hquot, hletters, hlast]

/-- The column letters one by one: both cases, and the four characters that a comparison without
case takes for one of them. -/
def allLetters : List Char :=
  capitals ++ capitals.map Char.toLower ++ ['\u0130', '\u0131', '\u017f', '\u212a']

theorem mem_allLetters {c : Char} (h : Address.isColumnLetter c = true) : c ∈ allLetters := by
  have hrange : ∀ first, (∀ k : Fin 26, Char.ofNat (first + k) ∈ allLetters) →
      first ≤ c.toNat → c.toNat < first + 26 → c ∈ allLetters := by
    intro first hall hle hlt
    have hc := hall ⟨c.toNat - first, by omega⟩
    rwa [show first + (c.toNat - first) = c.toNat by omega, Char.ofNat_toNat] at hc
  simp only [Address.isColumnLetter, Bool.or_eq_true, Bool.and_eq_true, decide_eq_true_eq,
    beq_iff_eq, Char.le_def, UInt32.le_iff_toNat_le] at h
  rcases h with ((((⟨h₁, h₂⟩ | ⟨h₁, h₂⟩) | rfl) | rfl) | rfl) | rfl
  · exact hrange 97 (by decide) h₁ (Nat.lt_succ_of_le h₂)
  · exact hrange 65 (by decide) h₁ (Nat.lt_succ_of_le h₂)
  · decide
  · decide
  · decide
  · decide

theorem foldl_weight_pos {cs : List Char} {i : Int} (hi : 0 < i)
    (h : ∀ c ∈ cs, 0 < weight c) : 0 < cs.foldl (fun i c => i * 26 + weight c) i := by
  induction cs generalizing i with
  | nil => exact hi
  | cons c cs ih =>
    have hc := h c List.mem_cons_self
    have hpos : 0 < i * 26 + weight c := by omega
    exact ih hpos fun d hd => h d (List.mem_cons_of_mem c hd)

theorem index_nonneg {cs : List Char} (hne : cs ≠ [])
    (h : ∀ c ∈ cs, Address.isColumnLetter c = true) : 0 ≤ index (String.ofList cs) := by
  have hall : ∀ c ∈ allLetters, Text.upperChar c ≠ [] ∧ ∀ u ∈ Text.upperChar c, 0 < weight u := by
    decide
  have hupper : ∀ u ∈ Text.upperChars cs, 0 < weight u := by
    intro u hu
    obtain ⟨c, hc, hu⟩ := List.mem_flatMap.mp hu
    exact (hall c (mem_allLetters (h c hc))).2 u hu
  have hsome : Text.upperChars cs ≠ [] := by
    obtain ⟨c, tail, rfl⟩ := List.exists_cons_of_ne_nil hne
    simp [Text.upperChars, (hall c (mem_allLetters (h c List.mem_cons_self))).1]
  rw [index, String.toList_ofList]
  obtain ⟨u, us, hus⟩ := List.exists_cons_of_ne_nil hsome
  rw [hus] at hupper ⊢
  have hu := hupper u List.mem_cons_self
  have hfirst : 0 < 0 * 26 + weight u := by omega
  have hpos := foldl_weight_pos hfirst fun d hd => hupper d (List.mem_cons_of_mem u hd)
  rw [List.foldl_cons]
  omega

end Column

end Gridcalc
