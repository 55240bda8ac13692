import Mathlib.Data.List.Induction
import Mathlib.Tactic.Ring
import Gridcalc.Text.Blank
import Gridcalc.Text.Digit

/-! # Runs of digits

A run of characters of one class ends where the next character is of another. The number that a
run of digits denotes is that of its first part, moved up by the length of the rest, and the
rest's.
-/

namespace Gridcalc.Text

/-- Decided by going through the list; other instances go through all characters. -/
instance (priority := 1100) decidableForallMem {p : Char → Prop} [DecidablePred p] (cs : List Char) :
    Decidable (∀ c ∈ cs, p c) :=
  List.decidableBAll p cs

/-- The text does not go on with a character of the class. -/
def Stops (p : Char → Bool) (cs : List Char) : Prop := ∀ c ∈ cs.head?, p c = false

section Runs

variable {p : Char → Bool} {cs rest : List Char}

theorem stops_nil (p : Char → Bool) : Stops p [] := by
  intro c hc
  cases hc

theorem stops_cons {c : Char} (h : p c = false) : Stops p (c :: cs) := by
  intro d hd
  cases hd
  exact h

theorem Stops.append {ds : List Char} (hne : cs ≠ []) (h : Stops p cs) : Stops p (cs ++ ds) := by
  cases cs with
  | nil => exact absurd rfl hne
  | cons c cs => exact stops_cons (h c rfl)

theorem Stops.of_append {ds : List Char} (h : Stops p (cs ++ ds)) : Stops p cs := by
  cases cs with
  | nil => exact stops_nil p
  | cons c cs => exact stops_cons (h c rfl)

theorem stops_dropWhile (p : Char → Bool) (cs : List Char) : Stops p (cs.dropWhile p) := by
  intro c hc
  have hhead := List.head?_dropWhile_not p cs
  rw [Option.mem_def.mp hc] at hhead
  simpa using hhead

theorem drop_length_takeWhile (p : Char → Bool) (cs : List Char) :
    cs.drop (cs.takeWhile p).length = cs.dropWhile p := by
  have hdrop : (cs.takeWhile p ++ cs.dropWhile p).drop (cs.takeWhile p).length =
      cs.dropWhile p := List.drop_left
  rwa [List.takeWhile_append_dropWhile] at hdrop

theorem takeWhile_run (h : ∀ c ∈ cs, p c = true) (hrest : Stops p rest) :
    (cs ++ rest).takeWhile p = cs := by
  rw [List.takeWhile_append_of_pos h]
  cases rest with
  | nil => simp
  | cons c rest =>
    rw [List.takeWhile_cons_of_neg (by simp [hrest c rfl]), List.append_nil]

theorem dropWhile_run (h : ∀ c ∈ cs, p c = true) (hrest : Stops p rest) :
    (cs ++ rest).dropWhile p = rest := by
  rw [List.dropWhile_append_of_pos h]
  cases rest with
  | nil => simp
  | cons c rest => rw [List.dropWhile_cons_of_neg (by simp [hrest c rfl])]

theorem dropWhile_of_stops (h : Stops p cs) : cs.dropWhile p = cs := by
  simpa using dropWhile_run (List.forall_mem_nil _) h

theorem takeWhile_all (h : ∀ c ∈ cs, p c = true) : cs.takeWhile p = cs := by
  simpa using takeWhile_run h (stops_nil p)

theorem dropWhile_all (h : ∀ c ∈ cs, p c = true) : cs.dropWhile p = [] := by
  simpa using dropWhile_run h (stops_nil p)

end Runs

def asciiDigits : List Char := ['0', '1', '2', '3', '4', '5', '6', '7', '8', '9']

theorem mem_asciiDigits {c : Char} (h : isAsciiDigit c = true) : c ∈ asciiDigits := by
  have hc : 48 ≤ c.toNat ∧ c.toNat ≤ 57 := by
    simpa [isAsciiDigit, Char.le_def, UInt32.le_iff_toNat_le] using h
  obtain ⟨k, hk⟩ : ∃ k : Fin 10, c.toNat = 48 + k := ⟨⟨c.toNat - 48, by omega⟩, by simp; omega⟩
  rw [← Char.ofNat_toNat c, hk]
  clear hk
  revert k
  decide

theorem digitValue?_of_isDigit {c : Char} (h : c.isDigit = true) :
    digitValue? c = some (c.toNat - '0'.toNat) := by
  have hc : 48 ≤ c.toNat ∧ c.toNat ≤ 57 := by
    simpa [Char.isDigit, UInt32.le_iff_toNat_le] using h
  rw [digitValue?, if_pos (by omega), if_pos (by omega)]
  rfl

theorem isDigit_of_isAsciiDigit {c : Char} (h : isAsciiDigit c = true) : isDigit c = true := by
  rw [isDigit, digitValue?_of_isDigit h]
  rfl

theorem isAsciiDigit_of_mem_toDigits {n : Nat} {c : Char} (h : c ∈ Nat.toDigits 10 n) :
    isAsciiDigit c = true :=
  Nat.isDigit_of_mem_toDigits (by decide) (by decide) h

theorem isDigit_of_mem_toDigits {n : Nat} {c : Char} (h : c ∈ Nat.toDigits 10 n) :
    isDigit c = true :=
  isDigit_of_isAsciiDigit (isAsciiDigit_of_mem_toDigits h)

theorem foldl_digitValue? {cs : List Char} (h : ∀ c ∈ cs, c.isDigit = true) (v : Nat) :
    cs.foldl (fun n c => 10 * n + (digitValue? c).getD 0) v = Nat.ofDigitChars 10 cs v := by
  induction cs generalizing v with
  | nil => simp
  | cons c cs ih =>
    have htail : ∀ d ∈ cs, d.isDigit = true := fun d hd => h d (List.mem_cons_of_mem c hd)
    rw [List.foldl_cons, ih htail, digitValue?_of_isDigit (h c List.mem_cons_self),
      Nat.ofDigitChars_cons]
    rfl

theorem digitsValue_toDigits (n : Nat) : digitsValue (Nat.toDigits 10 n) = n := by
  have h : ∀ c ∈ Nat.toDigits 10 n, c.isDigit = true := fun c hc =>
    Nat.isDigit_of_mem_toDigits (by decide) (by decide) hc
  rw [digitsValue, foldl_digitValue? h, Nat.ofDigitChars_ten_toDigits]

theorem foldl_digits_eq (cs : List Char) (v : Nat) :
    cs.foldl (fun n c => 10 * n + (digitValue? c).getD 0) v =
      v * 10 ^ cs.length + digitsValue cs := by
  rw [digitsValue]
  induction cs generalizing v with
  | nil => simp
  | cons c cs ih =>
    rw [List.foldl_cons, List.foldl_cons, ih, ih (10 * 0 + _), List.length_cons, Nat.pow_succ]
    ring

theorem digitsValue_append (cs ds : List Char) :
    digitsValue (cs ++ ds) = digitsValue cs * 10 ^ ds.length + digitsValue ds := by
  rw [digitsValue, List.foldl_append, foldl_digits_eq ds]
  rfl

theorem digitsValue_replicate_zero (k : Nat) : digitsValue (List.replicate k '0') = 0 := by
  induction k with
  | zero => rfl
  | succ k ih =>
    have hzero : digitsValue ['0'] = 0 := by decide
    rw [List.replicate_succ, ← List.singleton_append, digitsValue_append, ih, hzero]
    simp

theorem dropWhile_zero_eq {ds : List Char} (h : ∀ d ∈ ds, isAsciiDigit d = true) :
    ds.dropWhile (· == '0') =
      if digitsValue ds = 0 then [] else Nat.toDigits 10 (digitsValue ds) := by
  induction ds using List.reverseRecOn with
  | nil => rfl
  | append_singleton ds d ih =>
    have hall : ∀ d ∈ asciiDigits, digitsValue [d] < 10 ∧ Nat.toDigits 10 (digitsValue [d]) = [d] ∧
        (d == '0') = decide (digitsValue [d] = 0) := by decide
    obtain ⟨hlt, hone, hzero⟩ := hall d (mem_asciiDigits (h d (by simp)))
    rw [List.dropWhile_append, ih fun e he => h e (List.mem_append_left _ he), digitsValue_append,
      List.length_singleton, Nat.pow_one]
    by_cases hds : digitsValue ds = 0
    · rw [if_pos hds, hds, Nat.zero_mul, Nat.zero_add, hone]
      by_cases hd : digitsValue [d] = 0
      · simp [List.dropWhile, hzero, hd]
      · simp [List.dropWhile, hzero, hd]
    · have hsplit := Nat.toDigits_append_toDigits (b := 10) (n := digitsValue ds)
        (d := digitsValue [d]) (by decide) (Nat.pos_of_ne_zero hds) hlt
      rw [hone, Nat.mul_comm] at hsplit
      rw [if_neg hds, ← hsplit]
      simp [hds, Nat.toDigits_ne_nil]

end Gridcalc.Text
