import Mathlib
import Gridcalc.Number.Binary

/-! # Doubles and their bit patterns

A double is its bit pattern, so whoever knows the sign and the magnitude of a finite double can
build that same double. There are two infinities, and one double that is no number.
-/

namespace Gridcalc.Number

open Float.Model (UnpackedFloat)

theorem ofBits_of_shape {v : Float} {negative : Bool} {bits : Nat}
    (h : shape v = .finite negative bits) : ofBits negative bits = v := by
  rw [shape] at h
  split at h
  · obtain ⟨rfl, rfl⟩ := Shape.finite.inj h
    have hlt : v.toBits.toNat < 2 ^ 64 := v.toBits.toNat_lt
    have hsign : (if decide (signBit ≤ v.toBits.toNat) = true then
        signBit + v.toBits.toNat % signBit else v.toBits.toNat % signBit) = v.toBits.toNat := by
      simp only [decide_eq_true_eq, show signBit = 2 ^ 63 from rfl]
      split <;> omega
    rw [ofBits, hsign, UInt64.ofNat_toNat, Float.ofBits_toBits]
  · split at h <;> cases h

theorem lt_infinityBits_of_shape {v : Float} {negative : Bool} {bits : Nat}
    (h : shape v = .finite negative bits) : bits < infinityBits := by
  rw [shape] at h
  split at h
  · obtain ⟨rfl, rfl⟩ := Shape.finite.inj h
    assumption
  · split at h <;> cases h

theorem eq_notNumber_of_shape {v : Float} (h : shape v = .notNumber) : v = notNumber := by
  have hmagnitude : infinityBits < v.toBits.toNat % signBit := by
    rw [shape] at h
    split at h
    · cases h
    · split at h
      · cases h
      · omega
  have hlt : v.toBits.toNat < 2 ^ 64 := v.toBits.toNat_lt
  simp only [infinityBits, show signBit = 2 ^ 63 from rfl] at hmagnitude
  have hexponent : @Float.Model.UnpackedFloat.unpackExponent .binary64
      v.toBits.toBitVec = -1#11 := by
    apply BitVec.eq_of_toNat_eq
    simp [Float.Model.UnpackedFloat.unpackExponent, Nat.shiftRight_eq_div_pow]
    omega
  have hmantissa : @Float.Model.UnpackedFloat.unpackMantissa .binary64
      v.toBits.toBitVec ≠ 0#52 := by
    intro hzero
    have hnat := congrArg BitVec.toNat hzero
    simp [Float.Model.UnpackedFloat.unpackMantissa] at hnat
    omega
  have hbits : v.toBits.toBitVec = Float.Model.UnpackedFloat.packedNaN .binary64 :=
    v.toModel.valid.eq_packedNaN hexponent hmantissa
  have hpattern : v.toBits = UInt64.ofNat (infinityBits + Nat.pow 2 51) := by
    apply UInt64.toBitVec_inj.mp
    rw [hbits]
    decide
  rw [notNumber, ofBits, if_neg (by decide), ← hpattern, Float.ofBits_toBits]

theorem eq_infinity_of_shape {v : Float} {negative : Bool} (h : shape v = .infinite negative) :
    v = infinity negative := by
  rw [shape] at h
  split at h
  · cases h
  · split at h
    · rename_i hmagnitude
      obtain rfl := Shape.infinite.inj h
      have hlt : v.toBits.toNat < 2 ^ 64 := v.toBits.toNat_lt
      have hsign : (if decide (signBit ≤ v.toBits.toNat) = true then signBit + infinityBits
          else infinityBits) = v.toBits.toNat := by
        simp only [decide_eq_true_eq, show signBit = 2 ^ 63 from rfl] at hmagnitude ⊢
        split <;> omega
      rw [infinity, ofBits, hsign, UInt64.ofNat_toNat, Float.ofBits_toBits]
    · cases h

theorem beq_self_of_ne_notANumber {f : UnpackedFloat} (h : f ≠ .notANumber) : f.beq f = true := by
  have hself : f.compare f = some .eq := by
    cases f with
    | notANumber => exact absurd rfl h
    | infinity s => cases s <;> rfl
    | zero s => rfl
    | finite s m e hm => cases s <;> simp [UnpackedFloat.compare]
  rw [UnpackedFloat.beq, hself]
  rfl

theorem beq_self_of_shape {v : Float} {negative : Bool} {bits : Nat}
    (h : shape v = .finite negative bits) : (v == v) = true := by
  have hmagnitude : v.toBits.toNat % signBit < infinityBits := by
    rw [shape] at h
    split at h
    · assumption
    · split at h <;> cases h
  simp only [infinityBits, show signBit = 2 ^ 63 from rfl] at hmagnitude
  have hexponent : @UnpackedFloat.unpackExponent .binary64 v.toBits.toBitVec ≠ -1#11 := by
    intro hones
    have hnat := congrArg BitVec.toNat hones
    simp [UnpackedFloat.unpackExponent, Nat.shiftRight_eq_div_pow] at hnat
    omega
  change v.toModel.unpack.beq v.toModel.unpack = true
  apply beq_self_of_ne_notANumber
  change UnpackedFloat.unpack .binary64 v.toBits.toBitVec ≠ .notANumber
  rw [UnpackedFloat.unpack]
  simp only
  rw [if_neg hexponent]
  split
  · split <;> simp
  · simp

end Gridcalc.Number
