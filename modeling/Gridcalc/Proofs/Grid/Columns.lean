import Mathlib.Data.List.Shortlex
import Mathlib.Data.Set.Function
import Gridcalc.Proofs.Grid.Accepted

/-! # The order of the columns

Every text of capitals is the name of one column. Columns are named by length and then
alphabetically, and there is no zero among the digits: after Z, ZZ and ZZZ the names get longer.
-/

namespace Gridcalc.Column

open List (Shortlex)

variable {m n : Nat}

def Lettered (s : String) : Prop := s ≠ "" ∧ ∀ c ∈ s.toList, 'A' ≤ c ∧ c ≤ 'Z'

theorem mem_capitals_iff {c : Char} : c ∈ capitals ↔ 'A' ≤ c ∧ c ≤ 'Z' := by
  constructor
  · have hall : ∀ c ∈ capitals, 'A' ≤ c ∧ c ≤ 'Z' := by decide
    exact hall c
  · rintro ⟨hfirst, hlast⟩
    have hletter : Address.isColumnLetter c = true := by
      simp [Address.isColumnLetter, hfirst, hlast]
    have hall : ∀ c ∈ allLetters, c ≤ 'Z' → c ∈ capitals := by decide
    exact hall c (mem_allLetters hletter) hlast

theorem lettered_iff {cs : List Char} :
    Lettered (String.ofList cs) ↔ cs ≠ [] ∧ ∀ c ∈ cs, c ∈ capitals := by
  simp [Lettered, mem_capitals_iff]

theorem letter_lt_letter (h : m % 26 < n % 26) : letter m < letter n := by
  have hall : ∀ i j : Fin 26, i < j → Char.ofNat (65 + i) < Char.ofNat (65 + j) := by decide
  exact hall ⟨m % 26, Nat.mod_lt m (by decide)⟩ ⟨n % 26, Nat.mod_lt n (by decide)⟩ h

theorem lex_append {cs ds : List Char} (h : List.Lex (· < ·) cs ds)
    (hlength : cs.length = ds.length) (es fs : List Char) :
    List.Lex (· < ·) (cs ++ es) (ds ++ fs) := by
  induction h with
  | nil => cases hlength
  | cons _ ih => exact .cons (ih (Nat.succ_injective hlength))
  | rel hlt => exact .rel hlt

theorem shortlex_concat {cs ds : List Char} (h : Shortlex (· < ·) cs ds) (c d : Char) :
    Shortlex (· < ·) (cs ++ [c]) (ds ++ [d]) := by
  rcases List.shortlex_def.mp h with hlength | ⟨hlength, hlex⟩
  · exact .of_length_lt (by simpa using hlength)
  · exact .of_lex (by simpa using hlength) (lex_append hlex hlength _ _)

theorem shortlex_lettersFrom (h : m < n) :
    Shortlex (· < ·) (lettersFrom m) (lettersFrom n) := by
  induction n using Nat.strongRecOn generalizing m with
  | ind n ih =>
    obtain ⟨n, rfl⟩ := Nat.exists_eq_succ_of_ne_zero (Nat.ne_zero_of_lt h)
    cases m with
    | zero =>
      rw [lettersFrom, if_pos rfl]
      exact (List.shortlex_nil_or_eq_nil _).resolve_right (lettersFrom_ne_nil h)
    | succ m =>
      rw [lettersFrom_succ, lettersFrom_succ]
      have hlt : m < n := Nat.lt_of_succ_lt_succ h
      rcases Nat.lt_or_eq_of_le (Nat.div_le_div_right (c := 26) hlt.le) with hquot | hquot
      · exact shortlex_concat (ih (n / 26) (by omega) hquot) _ _
      · -- The last letters decide only where the letters before them agree.
        rw [hquot]
        refine List.Shortlex.append_left ?_ _
        exact (List.shortlex_singleton_iff _ _).mpr (letter_lt_letter (by omega))

theorem shortlex_lettersFrom_iff :
    Shortlex (· < ·) (lettersFrom m) (lettersFrom n) ↔ m < n := by
  refine ⟨fun h => ?_, shortlex_lettersFrom⟩
  by_contra hle
  rcases Nat.lt_or_eq_of_le (Nat.not_lt.mp hle) with hlt | rfl
  · exact Std.Asymm.asymm _ _ h (shortlex_lettersFrom hlt)
  · exact Std.Asymm.asymm _ _ h h

section Names

variable {i j : Int}

theorem index_letters (h : 0 ≤ i) : index (letters i) = i := by
  rw [letters, index_lettersFrom]
  omega

theorem lettered_letters (h : 0 ≤ i) : Lettered (letters i) := by
  rw [letters, lettered_iff]
  exact ⟨lettersFrom_ne_nil (by omega), fun _ => mem_capitals_of_mem_lettersFrom⟩

theorem exists_letters {s : String} (h : Lettered s) : ∃ i, 0 ≤ i ∧ letters i = s := by
  rw [← String.ofList_toList (s := s), lettered_iff] at h
  obtain ⟨n, -, hn⟩ := lettersFrom_foldl h.2
  have hpos : n ≠ 0 := by
    rintro rfl
    rw [lettersFrom, if_pos rfl] at hn
    exact h.1 hn.symm
  refine ⟨(n : Int) - 1, by omega, ?_⟩
  rw [letters, sub_add_cancel, Int.toNat_natCast, hn, String.ofList_toList]

theorem letters_index {s : String} (h : ∀ c ∈ s.toList, c.isAlpha = true) :
    letters (index s) = s.toUpper := by
  have hread := letters_index_of_isAlpha h
  rw [String.ofList_toList] at hread
  rw [hread, String.toUpper, ← String.toList_inj, String.toList_ofList, String.toList_map]

/-- The columns are named one to one by the texts of capitals, in the order of length and then
alphabetically. A name is read as its column, and small letters are read as the capitals are. -/
theorem letters_enumerate :
    Set.BijOn letters {i | 0 ≤ i} {s | Lettered s} ∧
      (∀ i j, 0 ≤ i → 0 ≤ j →
        (i < j ↔ Shortlex (· < ·) (letters i).toList (letters j).toList)) ∧
      (∀ i, 0 ≤ i → index (letters i) = i) ∧
      ∀ s : String, (∀ c ∈ s.toList, c.isAlpha = true) → letters (index s) = s.toUpper := by
  refine ⟨⟨fun i => lettered_letters, fun i hi j hj hij => ?_, fun s => exists_letters⟩,
    fun i j hi hj => ?_, fun i => index_letters, fun s => letters_index⟩
  · rw [← index_letters hi, hij, index_letters hj]
  · rw [letters, letters, String.toList_ofList, String.toList_ofList, shortlex_lettersFrom_iff]
    omega

/-- The last column with two letters, the first with three, and the last of 16384 columns. -/
theorem letters_enumerate_carries :
    Shortlex (· < ·) "ZZ".toList "AAA".toList ∧ index "AAA" = 702 ∧
      letters (index "xFd") = "XFD" := by
  obtain ⟨-, horder, hread, hupper⟩ := letters_enumerate
  have hzz : letters 701 = "ZZ" := by decide +kernel
  have haaa : letters 702 = "AAA" := by decide +kernel
  refine ⟨?_, ?_, (hupper "xFd" (by decide)).trans (by decide +kernel)⟩
  · rw [← hzz, ← haaa]
    exact (horder 701 702 (by decide) (by decide)).mp (by decide)
  · rw [← haaa]
    exact hread 702 (by decide)

end Names

end Gridcalc.Column
