import Mathlib
import ReverseSweep.Number.Arithmetic

/-! Whole numbers that are too large for a double: those from half a last place above the greatest
finite one on are rounded to an infinity, all others to a finite double. That packing undoes
unpacking (`pack_unpack`) comes only with the library as a whole. -/

namespace ReverseSweep

section Powers

theorem twoTo_pos (k : Nat) : 0 < twoTo k := Nat.two_pow_pos k

theorem twoTo_le {j k : Nat} (h : j ≤ k) : twoTo j ≤ twoTo k := Nat.pow_le_pow_right (by decide) h

theorem twoTo_succ (k : Nat) : twoTo (k + 1) = 2 * twoTo k := Nat.pow_succ'

theorem twoTo_split (j k : Nat) {n : Nat} (h : j + k = n) : twoTo n = 2 ^ j * twoTo k := by
  subst h
  exact Nat.pow_add 2 j k

end Powers

namespace Binary64

open Float.Model UnpackedFloat

/-- The least whole number that is rounded up to two to the 1024th. -/
def overflowBound : Nat := (2 ^ 54 - 1) * twoTo 970

section Rounding

variable {m d : Nat}

theorem roundQuotient_bounds (m d : Nat) :
    m / d ≤ roundQuotient m d ∧ roundQuotient m d ≤ m / d + 1 := by
  unfold roundQuotient
  dsimp only
  split_ifs <;> omega

/-- A quotient of 53 bits becomes one of 54 if it is half a unit below that or nearer. -/
theorem roundQuotient_eq_top_iff (hm : m < 2 ^ 54 * d) :
    roundQuotient m (2 * d) = 2 ^ 53 ↔ (2 ^ 54 - 1) * d ≤ m := by
  have hmod := Nat.mod_lt m (by omega : 0 < 2 * d)
  have hdiv := Nat.div_add_mod m (2 * d)
  have hq : m / (2 * d) < 2 ^ 53 := Nat.div_lt_of_lt_mul (by omega)
  unfold roundQuotient
  generalize m / (2 * d) = q at *
  generalize m % (2 * d) = r at *
  rcases Nat.lt_or_ge q (2 ^ 53 - 1) with hlt | hge
  · have hmul := Nat.mul_le_mul_left (2 * d) (show q ≤ 2 ^ 53 - 2 by omega)
    constructor <;> intro h
    · dsimp only at h
      split_ifs at h <;> omega
    · omega
  · -- the greatest quotient is odd, so that a half goes up
    obtain rfl : q = 2 ^ 53 - 1 := by omega
    dsimp only
    split_ifs <;> omega

theorem scaled_sub (num den a b : Nat) :
    scaled num den ((a : Int) - b) = (num * twoTo (b - a), den * twoTo (a - b)) := by
  rcases Nat.lt_or_ge a b with hlt | hge
  · have hexponent : (a : Int) - b = .negSucc (b - a - 1) := by omega
    rw [hexponent, scaled, Nat.sub_eq_zero_of_le (Nat.le_of_lt hlt),
      show b - a - 1 + 1 = b - a by omega]
    simp [twoTo]
  · have hexponent : (a : Int) - b = ((a - b : Nat) : Int) := by omega
    rw [hexponent, Nat.sub_eq_zero_of_le hge]
    simp [scaled, twoTo]

theorem exponentOf_one (hm : m ≠ 0) : exponentOf m 1 = (m.log2 : Int) - (52 : Nat) := by
  have hle : twoTo m.log2 ≤ m := Nat.log2_self_le hm
  have hone : (m.log2 : Int) - (Nat.log2 1 : Nat) = (m.log2 : Nat) := Int.sub_zero _
  rw [exponentOf, hone]
  simp only [scaled, Nat.one_mul, if_pos hle, leastExponent, fractionBits]
  omega

theorem magnitudeBits_one (hm : m ≠ 0) :
    magnitudeBits m 1 = min infinityBits ((m.log2 + 1022) * leadingBit +
      roundQuotient (m * twoTo (52 - m.log2)) (twoTo (m.log2 - 52))) := by
  have hfield : ((m.log2 : Int) - (52 : Nat) - leastExponent).toNat = m.log2 + 1022 := by
    rw [leastExponent]
    omega
  simp only [magnitudeBits, if_neg hm, exponentOf_one hm, scaled_sub, hfield, Nat.one_mul]

/-- The significand has 53 bits before it is rounded. -/
theorem significand_bounds (hm : m ≠ 0) :
    2 ^ 52 ≤ m * twoTo (52 - m.log2) / twoTo (m.log2 - 52) ∧
      m * twoTo (52 - m.log2) / twoTo (m.log2 - 52) < 2 ^ 53 := by
  have hlow : twoTo m.log2 ≤ m := Nat.log2_self_le hm
  have hhigh : m < 2 * twoTo m.log2 := by
    rw [← twoTo_succ]
    exact Nat.lt_log2_self
  have hsame : twoTo m.log2 * twoTo (52 - m.log2) = 2 ^ 52 * twoTo (m.log2 - 52) := by
    rw [← twoTo_split 52 (m.log2 - 52)
      (show 52 + (m.log2 - 52) = m.log2 + (52 - m.log2) by omega)]
    exact (twoTo_split m.log2 (52 - m.log2) rfl).symm
  have hlow' := Nat.mul_le_mul_right (twoTo (52 - m.log2)) hlow
  have hhigh' := Nat.mul_lt_mul_of_pos_right hhigh (twoTo_pos (52 - m.log2))
  rw [Nat.le_div_iff_mul_le (twoTo_pos _), Nat.div_lt_iff_lt_mul (twoTo_pos _)]
  constructor
  · omega
  · rw [Nat.mul_assoc] at hhigh'
    omega

theorem magnitudeBits_one_lt_iff (m : Nat) :
    magnitudeBits m 1 < infinityBits ↔ m < overflowBound := by
  rcases Nat.eq_zero_or_pos m with rfl | hpos
  · simp [magnitudeBits, overflowBound, infinityBits, twoTo_pos]
  have hm : m ≠ 0 := Nat.ne_of_gt hpos
  have hlow : twoTo m.log2 ≤ m := Nat.log2_self_le hm
  have hhigh : m < twoTo (m.log2 + 1) := Nat.lt_log2_self
  have hsignificand := significand_bounds hm
  have hround := roundQuotient_bounds (m * twoTo (52 - m.log2)) (twoTo (m.log2 - 52))
  rw [magnitudeBits_one hm, overflowBound]
  -- only at the greatest exponent does the significand decide
  rcases Nat.lt_trichotomy m.log2 1023 with hlt | heq | hgt
  · have hle : twoTo (m.log2 + 1) ≤ twoTo 1023 := twoTo_le (by omega)
    have htop : twoTo 1023 = 2 ^ 53 * twoTo 970 := twoTo_split 53 970 rfl
    have hfield : (m.log2 + 1022) * leadingBit ≤ 2044 * leadingBit :=
      Nat.mul_le_mul_right _ (by omega)
    simp only [infinityBits, leadingBit] at *
    omega
  · rw [heq] at hhigh hsignificand hround ⊢
    have hlast : twoTo (1023 - 52) = 2 * twoTo 970 := twoTo_succ 970
    have htop : twoTo (1023 + 1) = 2 ^ 54 * twoTo 970 := twoTo_split 54 970 rfl
    have hsame : m * twoTo (52 - 1023) = m := Nat.mul_one m
    rw [hlast, hsame] at hsignificand hround ⊢
    have hiff := roundQuotient_eq_top_iff (Nat.lt_of_lt_of_eq hhigh htop)
    simp only [infinityBits, leadingBit] at *
    omega
  · have hle : twoTo 1024 ≤ twoTo m.log2 := twoTo_le hgt
    have htop : twoTo 1024 = 2 ^ 54 * twoTo 970 := twoTo_split 54 970 rfl
    have hfield : 2046 * leadingBit ≤ (m.log2 + 1022) * leadingBit :=
      Nat.mul_le_mul_right _ (by omega)
    simp only [infinityBits, leadingBit] at *
    omega

end Rounding

section Infinity

/-- What is unpacked without a full exponent field is finite, also after it was packed again. -/
theorem isInf_unpack_pack_unpack {f : Format} (hf : 2 ≤ f.exponentBits) {b : BitVec f.numBits}
    (h : unpackExponent b ≠ -1#_) :
    (UnpackedFloat.unpack f (UnpackedFloat.pack f (UnpackedFloat.unpack f b))).isInf = false := by
  have hnumber : ¬ isNaNBits b = true := fun hnan => h (of_decide_eq_true hnan).1
  rw [pack_unpack b hf, if_neg hnumber]
  unfold UnpackedFloat.unpack
  dsimp only
  rw [if_neg h]
  split_ifs <;> rfl

theorem toNat_unpackExponent (b : UInt64) :
    (@unpackExponent .binary64 b.toBitVec).toNat = b.toNat / 2 ^ 52 % 2 ^ 11 := by
  change b.toNat >>> 52 % 2 ^ 11 = _
  rw [Nat.shiftRight_eq_div_pow]

theorem unpackExponent_ne_full {b : UInt64} (h : b.toNat % signBit < infinityBits) :
    @unpackExponent .binary64 b.toBitVec ≠ -1#11 := by
  have hfield : (@unpackExponent .binary64 b.toBitVec).toNat < 2047 := by
    rw [toNat_unpackExponent]
    simp only [signBit, infinityBits] at h
    omega
  intro heq
  rw [heq] at hfield
  exact absurd hfield (by decide)

/-- Bits whose exponent field is not full stand for a finite number. -/
theorem isInf_ofBits_eq_false {b : UInt64} (h : b.toNat % signBit < infinityBits) :
    (Float.ofBits b).isInf = false :=
  isInf_unpack_pack_unpack (by decide) (unpackExponent_ne_full h)

/-- Such bits are kept as they are. -/
theorem toBits_ofBits {b : UInt64} (h : b.toNat % signBit < infinityBits) :
    (Float.ofBits b).toBits = b := by
  have hnumber : ¬ @isNaNBits .binary64 b.toBitVec = true := fun hnan =>
    unpackExponent_ne_full h (of_decide_eq_true hnan).1
  have hpack := @pack_unpack .binary64 b.toBitVec (by decide)
  rw [if_neg hnumber] at hpack
  exact UInt64.toBitVec_inj.mp hpack

end Infinity
end Binary64

open Binary64

theorem isInf_nearestQuotient_iff (n : Int) :
    (nearestQuotient n 1).isInf = true ↔ overflowBound ≤ n.natAbs := by
  have hiff := magnitudeBits_one_lt_iff n.natAbs
  have hle : magnitudeBits n.natAbs 1 ≤ infinityBits := by
    unfold magnitudeBits
    dsimp only
    split_ifs
    · exact Nat.zero_le _
    · exact Nat.min_le_left _ _
  rw [nearestQuotient]
  generalize magnitudeBits n.natAbs 1 = magnitude at *
  rcases Nat.lt_or_eq_of_le hle with hlt | rfl
  · have hfinite : (Float.ofBits
        (UInt64.ofNat (if n < 0 then signBit + magnitude else magnitude))).isInf = false := by
      apply isInf_ofBits_eq_false
      simp only [infinityBits, signBit] at *
      split_ifs <;> simp <;> omega
    rw [hfinite]
    have := hiff.mp hlt
    simp
    omega
  · have hinfinite : (Float.ofBits
        (UInt64.ofNat (if n < 0 then signBit + infinityBits else infinityBits))).isInf = true := by
      split_ifs <;> decide
    simp only [hinfinite, true_iff]
    omega

/-- A whole number can be taken as a double exactly below the bound. -/
theorem Number.toFloat_whole (n : Int) :
    (Number.whole n).toFloat =
      if n.natAbs < overflowBound then .ok (nearestQuotient n 1) else .error .tooLargeForFloat := by
  rw [Number.toFloat]
  by_cases h : n.natAbs < overflowBound
  · have hfinite : ¬ (nearestQuotient n 1).isInf = true := by
      rw [isInf_nearestQuotient_iff]
      exact Nat.not_le.mpr h
    rw [if_pos h, if_neg hfinite]
  · rw [if_neg h, if_pos ((isInf_nearestQuotient_iff n).mpr (Nat.le_of_not_lt h))]

end ReverseSweep
