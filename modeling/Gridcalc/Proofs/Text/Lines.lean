import Mathlib
import Gridcalc.Proofs.Text.Digit
import Gridcalc.Text.Pieces
import Gridcalc.Text.Utf8

/-! # Lines

ASCII characters come back from their octets as they were, and lines that were put one after the
other, each with a line feed at its end, come apart again.
-/

namespace Gridcalc.Text

variable {cs : List Char}

theorem Utf8.absorb_ascii {c : Char} (h : c.toNat < 0x80) (cs : List Char) :
    absorb (cs, none) (UInt8.ofNat c.toNat) = (c :: cs, none) := by
  have hoctet : (UInt8.ofNat c.toNat).toNat = c.toNat := by
    rw [UInt8.toNat_ofNat']
    exact Nat.mod_eq_of_lt (by omega)
  have hfirst : first (UInt8.ofNat c.toNat) = ([c], none) := by
    have hlt : UInt8.ofNat c.toNat < 0x80 := by
      rw [UInt8.lt_iff_toNat_lt, hoctet]
      exact h
    rw [first, if_pos hlt, hoctet, Char.ofNat_toNat]
  rw [absorb, step, hfirst]
  rfl

theorem Utf8.encodeChar_ascii {c : Char} (h : c.toNat < 0x80) :
    String.utf8EncodeChar c = [UInt8.ofNat c.toNat] := by
  rw [String.utf8EncodeChar]
  exact if_pos (Nat.le_of_lt_succ h)

theorem Utf8.foldl_absorb_encode (h : ∀ c ∈ cs, c.toNat < 0x80) (before : List Char) :
    (encode cs).foldl absorb (before, none) = (cs.reverse ++ before, none) := by
  induction cs generalizing before with
  | nil => rfl
  | cons c cs ih =>
    have hc := h c List.mem_cons_self
    rw [encode, List.flatMap_cons, encodeChar_ascii hc, List.singleton_append, List.foldl_cons,
      absorb_ascii hc, ← encode, ih fun d hd => h d (List.mem_cons_of_mem c hd)]
    simp

theorem Utf8.decode_encode (h : ∀ c ∈ cs, c.toNat < 0x80) : decode (encode cs) = cs := by
  rw [decode, foldl_absorb_encode h]
  simp

section Pieces

variable {separates : Char → Bool}

theorem pieces_of_forall (h : ∀ c ∈ cs, separates c = false) : pieces separates cs = [cs] := by
  have hdrop : cs.dropWhile (!separates ·) = [] := dropWhile_all fun c hc => by simp [h c hc]
  rw [pieces]
  split
  · rfl
  · rename_i heq
    rw [hdrop] at heq
    cases heq

theorem pieces_append {c : Char} (h : ∀ d ∈ cs, separates d = false) (hc : separates c = true)
    (rest : List Char) : pieces separates (cs ++ c :: rest) = cs :: pieces separates rest := by
  have hcs : ∀ d ∈ cs, (!separates d) = true := fun d hd => by simp [h d hd]
  have hstop : Stops (!separates ·) (c :: rest) := stops_cons (by simp [hc])
  have hdrop : (cs ++ c :: rest).dropWhile (!separates ·) = c :: rest := dropWhile_run hcs hstop
  rw [pieces]
  split
  · rename_i heq
    rw [hdrop] at heq
    cases heq
  · rename_i heq
    rw [hdrop] at heq
    obtain ⟨-, rfl⟩ := List.cons.inj heq
    rw [takeWhile_run hcs hstop]

end Pieces

/-- After the last line feed there is one more line, which is empty. -/
theorem lines_flatMap {ls : List (List Char)} (h : ∀ l ∈ ls, ∀ c ∈ l, isLineBreak c = false) :
    lines (ls.flatMap (· ++ ['\n'])) = ls ++ [[]] := by
  induction ls with
  | nil => exact pieces_of_forall (by simp)
  | cons l ls ih =>
    rw [List.flatMap_cons, List.append_assoc, List.singleton_append, lines,
      pieces_append (h l List.mem_cons_self) (by decide), ← lines,
      ih fun m hm => h m (List.mem_cons_of_mem l hm)]
    rfl

end Gridcalc.Text
