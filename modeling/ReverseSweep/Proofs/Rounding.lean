import ReverseSweep.Proofs.Nearest

/-! How doubles are rounded when they are computed with: the exact result is shifted to 53 bits, of
what is lost only two bits are kept, and these decide. Such a result is off by half of its last
place at most, as long as it is neither too large nor too small. -/

namespace ReverseSweep.Binary64

open Float.Model UnpackedFloat

section Packing

theorem exponentBias_eq : (Format.exponentBias .binary64 : ℤ) = 1023 := rfl

theorem mantissaBits_eq : (Format.mantissaBitsWithoutImplicit .binary64 : ℤ) = 52 := rfl

theorem toNat_unpackMantissa (b : UInt64) :
    (@unpackMantissa .binary64 b.toBitVec).toNat = b.toNat % 2 ^ 52 := by
  change b.toNat >>> 0 % 2 ^ 52 = _
  rw [Nat.shiftRight_zero]

theorem toNat_unpackSign (b : UInt64) :
    (@unpackSign .binary64 b.toBitVec).toNat = b.toNat / 2 ^ 63 := by
  change b.toNat >>> 63 % 2 ^ 1 = _
  rw [Nat.shiftRight_eq_div_pow]
  have := b.toNat_lt
  omega

theorem toNat_append_one (m : BitVec 52) : (1#1 ++ m).toNat = leadingBit + m.toNat := by
  rw [BitVec.toNat_append, ← Nat.shiftLeft_add_eq_or_of_lt (BitVec.isLt m)]
  rfl

theorem apply_unpackSign (b : UInt64) (m : ℕ) :
    (Sign.ofBitVec (@unpackSign .binary64 b.toBitVec)).apply m =
      signed (decide (signBit ≤ b.toNat)) m := by
  have hpositive : (@unpackSign .binary64 b.toBitVec) = 0#1 ↔ ¬ signBit ≤ b.toNat := by
    rw [← BitVec.toNat_inj, toNat_unpackSign, signBit]
    simp
  unfold Sign.ofBitVec
  by_cases hs : signBit ≤ b.toNat
  · rw [if_neg (mt hpositive.mp (not_not.mpr hs)), decide_eq_true hs]
    rfl
  · rw [if_pos (hpositive.mpr hs), decide_eq_false hs]
    rfl

theorem read_eq (x : Float) : read x =
    let b := x.toBits.toNat
    let negative := decide (signBit ≤ b)
    if b / 2 ^ 52 % 2 ^ 11 = 2047 then
      if b % 2 ^ 52 = 0 then .infinite negative else .notANumber
    else if b / 2 ^ 52 % 2 ^ 11 = 0 then
      .finite negative (b % 2 ^ 52) leastExponent
    else
      .finite negative (leadingBit + b % 2 ^ 52)
        (leastExponent + (b / 2 ^ 52 % 2 ^ 11 : ℕ) - 1) := by
  have hfield : x.toBits.toNat % signBit / leadingBit = x.toBits.toNat / 2 ^ 52 % 2 ^ 11 := by
    simp only [signBit, leadingBit]
    omega
  have hfraction : x.toBits.toNat % signBit % leadingBit = x.toBits.toNat % 2 ^ 52 := by
    simp only [signBit, leadingBit]
    omega
  simp only [read, hfield, hfraction]

/-- The number that is meant by what is unpacked, if it is finite. -/
def unpacked? : UnpackedFloat → Option ℚ
  | .zero _ => some 0
  | .finite s m e _ => some (s.apply m * 2 ^ e)
  | .infinity _ => none
  | .notANumber => none

/-- Reading the bits and unpacking them are the same. -/
theorem value?_eq_unpacked? (x : Float) : value? x = unpacked? x.toModel.unpack := by
  have hfield := toNat_unpackExponent x.toBits
  have hfraction := toNat_unpackMantissa x.toBits
  have hleading := toNat_append_one (@unpackMantissa .binary64 x.toBits.toBitVec)
  have hsign := apply_unpackSign x.toBits
  rw [hfraction] at hleading
  rw [value?, read_eq]
  change _ = unpacked? (UnpackedFloat.unpack .binary64 x.toBits.toBitVec)
  unfold UnpackedFloat.unpack
  dsimp only
  generalize x.toBits.toNat = b at *
  have hfull : (@unpackExponent .binary64 x.toBits.toBitVec) = -1#11 ↔
      b / 2 ^ 52 % 2 ^ 11 = 2047 := by
    rw [← BitVec.toNat_inj, hfield]
    rfl
  have hzero : (@unpackExponent .binary64 x.toBits.toBitVec) = 0#11 ↔
      b / 2 ^ 52 % 2 ^ 11 = 0 := by
    rw [← BitVec.toNat_inj, hfield]
    rfl
  have hmantissa : (@unpackMantissa .binary64 x.toBits.toBitVec) = 0#52 ↔ b % 2 ^ 52 = 0 := by
    rw [← BitVec.toNat_inj, hfraction]
    rfl
  by_cases hf : b / 2 ^ 52 % 2 ^ 11 = 2047
  · rw [if_pos hf, if_pos (hfull.mpr hf)]
    split_ifs <;> rfl
  rw [if_neg hf, if_neg (mt hfull.mp hf)]
  by_cases hz : b / 2 ^ 52 % 2 ^ 11 = 0
  · rw [if_pos hz, if_pos (hzero.mpr hz)]
    by_cases hm : b % 2 ^ 52 = 0
    · rw [dif_pos (hmantissa.mpr hm), hm]
      simp [Reading.value?, unpacked?, signed]
    · rw [dif_neg (mt hmantissa.mp hm)]
      simp only [Reading.value?, unpacked?, hsign, hfraction, hfield, hz]
      rfl
  · rw [if_neg hz, if_neg (mt hzero.mp hz)]
    simp only [Reading.value?, unpacked?, hsign, hleading, hfield]
    congr 3
    rw [exponentBias_eq, mantissaBits_eq, leastExponent]
    omega

theorem value?_pack (u : UnpackedFloat) :
    value? ⟨Float.Model.pack u⟩ = unpacked? (Float.Model.pack u).unpack := value?_eq_unpacked? _

theorem value?_pack_zero (s : Sign) : value? ⟨Float.Model.pack (.zero s)⟩ = some 0 := by
  have hunpack : (Float.Model.pack (.zero s)).unpack = .zero s := unpack_packedZero
  rw [value?_pack, hunpack]
  rfl

theorem pack_unpack_eq (x : Float) : (⟨Float.Model.pack x.toModel.unpack⟩ : Float) = x :=
  Float.ofBits_toBits x

/-- The mantissa of a finite double has 53 bits, or fewer at the least exponent. -/
theorem mantissa_bounds {x : Float} {s : Sign} {m : ℕ} {e : ℤ} {h : 0 < m}
    (hx : x.toModel.unpack = .finite s m e h) :
    m < 2 ^ 53 ∧ (2 ^ 52 ≤ m ∨ e = leastExponent) := by
  have hfield := toNat_unpackExponent x.toBits
  have hfraction := toNat_unpackMantissa x.toBits
  change UnpackedFloat.unpack .binary64 x.toBits.toBitVec = _ at hx
  unfold UnpackedFloat.unpack at hx
  dsimp only at hx
  split_ifs at hx with _ _ hzero _
  · cases hx
    rw [hfraction, hzero]
    exact ⟨by omega, .inr rfl⟩
  · cases hx
    rw [toNat_append_one, hfraction, leadingBit]
    omega

/-- A mantissa of 53 bits is packed as it is. -/
theorem unpack_pack {s : Sign} {m : ℕ} {e : ℤ} (h : 0 < m) (hlow : 2 ^ 52 ≤ m) (hhigh : m < 2 ^ 53)
    (he : leastExponent ≤ e) (he' : e ≤ 971) :
    (Float.Model.pack (.finite s m e h)).unpack = .finite s m e h := by
  have hlog : m.log2 + 1 = Format.mantissaBits .binary64 := by
    rw [(Nat.log2_eq_iff h.ne').mpr ⟨hlow, hhigh⟩]
    rfl
  obtain ⟨field, rfl⟩ : ∃ field : ℕ, e = field - 1074 := ⟨(e + 1074).toNat, by
    simp only [leastExponent] at he
    omega⟩
  have hbiased : ((field : ℤ) - 1074 + Format.exponentBias .binary64 +
      Format.mantissaBitsWithoutImplicit .binary64).toNat = field + 1 := by
    rw [exponentBias_eq, mantissaBits_eq]
    omega
  have hsmall : ¬ 2 ^ Format.exponentBits .binary64 ≤ field + 1 + 1 := by
    change ¬ 2 ^ 11 ≤ _
    omega
  have hexponent :
      (BitVec.ofNat (Format.exponentBits .binary64) (field + 1)).toNat = field + 1 := by
    rw [BitVec.toNat_ofNat]
    change (field + 1) % 2 ^ 11 = _
    omega
  have hfull : BitVec.ofNat (Format.exponentBits .binary64) (field + 1) ≠ -1#_ := fun heq => by
    rw [heq] at hexponent
    change 2047 = _ at hexponent
    omega
  have hzero : BitVec.ofNat (Format.exponentBits .binary64) (field + 1) ≠ 0#_ := fun heq => by
    rw [heq] at hexponent
    cases hexponent
  have hmantissa :
      (1#1 ++ BitVec.ofNat (Format.mantissaBitsWithoutImplicit .binary64) m).toNat = m := by
    refine (toNat_append_one _).trans ?_
    rw [BitVec.toNat_ofNat, leadingBit]
    change 2 ^ 52 + m % 2 ^ 52 = m
    omega
  change UnpackedFloat.unpack .binary64 (UnpackedFloat.pack .binary64 (.finite s m _ h)) = _
  unfold UnpackedFloat.pack
  dsimp only
  rw [hbiased, if_neg hsmall, if_pos hlog]
  unfold UnpackedFloat.unpack
  dsimp only
  simp only [unpackExponent_packComponents, unpackMantissa_packComponents,
    unpackSign_packComponents, if_neg hfull, if_neg hzero, hmantissa, hexponent,
    Sign.ofBitVec_toBitVec]
  congr 1
  rw [exponentBias_eq, mantissaBits_eq]
  omega

end Packing

/-- What a mantissa and the two bits after it say of a number: whether it is above the mantissa, and
on which side of the half. -/
inductive Holds : ExtendedMantissa → ℚ → Prop
  | whole (m : ℕ) : Holds ⟨m, false, false⟩ m
  | below {m : ℕ} {r : ℚ} (h : m < r) (h' : r < m + 1 / 2) : Holds ⟨m, false, true⟩ r
  | half (m : ℕ) : Holds ⟨m, true, false⟩ (m + 1 / 2)
  | above {m : ℕ} {r : ℚ} (h : m + 1 / 2 < r) (h' : r < m + 1) : Holds ⟨m, true, true⟩ r

namespace Holds

variable {em : ExtendedMantissa} {r : ℚ}

theorem exact (m : ℕ) : Holds (.ofMantissaAndAccuracy m .exact) m := .whole m

/-- Of an even mantissa only the two bits matter, and of an odd one the half is lost as well. -/
theorem shiftRightOne (h : Holds em r) : Holds em.shiftRightOne (r / 2) := by
  have heven (k : ℕ) (round sticky : Bool) :
      (⟨2 * k, round, sticky⟩ : ExtendedMantissa).shiftRightOne =
        ⟨k, false, round || sticky⟩ := by
    simp [ExtendedMantissa.shiftRightOne]
  have hodd (k : ℕ) (round sticky : Bool) :
      (⟨2 * k + 1, round, sticky⟩ : ExtendedMantissa).shiftRightOne =
        ⟨k, true, round || sticky⟩ := by
    simp [ExtendedMantissa.shiftRightOne]
    omega
  cases h with
  | whole m =>
    obtain ⟨k, rfl | rfl⟩ := Nat.even_or_odd' m
    · have hk : ((2 * k : ℕ) : ℚ) / 2 = k := by
        push_cast
        ring
      rw [heven, hk]
      exact .whole k
    · have hk : ((2 * k + 1 : ℕ) : ℚ) / 2 = k + 1 / 2 := by
        push_cast
        ring
      rw [hodd, hk]
      exact .half k
  | @below m r h h' =>
    obtain ⟨k, rfl | rfl⟩ := Nat.even_or_odd' m <;> push_cast at h h'
    · rw [heven]
      exact .below (by linarith) (by linarith)
    · rw [hodd]
      exact .above (by linarith) (by linarith)
  | half m =>
    obtain ⟨k, rfl | rfl⟩ := Nat.even_or_odd' m
    · rw [heven]
      exact .below (by push_cast; linarith) (by push_cast; linarith)
    · rw [hodd]
      exact .above (by push_cast; linarith) (by push_cast; linarith)
  | @above m r h h' =>
    obtain ⟨k, rfl | rfl⟩ := Nat.even_or_odd' m <;> push_cast at h h'
    · rw [heven]
      exact .below (by linarith) (by linarith)
    · rw [hodd]
      exact .above (by linarith) (by linarith)

theorem shiftRight (h : Holds em r) (n : ℕ) : Holds (em >>> n) (r / 2 ^ n) := by
  change Holds (n.repeat ExtendedMantissa.shiftRightOne em) _
  induction n with
  | zero => simpa [Nat.repeat] using h
  | succ n ih =>
    rw [Nat.repeat, pow_succ, ← div_div]
    exact ih.shiftRightOne

theorem mantissa_le (h : Holds em r) : em.mantissa ≤ r ∧ r < em.mantissa + 1 := by
  cases h with
  | whole m => simp
  | below h h' => exact ⟨h.le, by linarith⟩
  | half m => exact ⟨by linarith, by linarith⟩
  | above h h' => exact ⟨by linarith, h'⟩

theorem abs_rounded_sub_le (h : Holds em r) : |(em.roundedMantissa : ℚ) - r| ≤ 1 / 2 := by
  rw [abs_le]
  cases h with
  | whole m =>
    change -(1 / 2) ≤ (m : ℚ) - m ∧ (m : ℚ) - m ≤ 1 / 2
    constructor <;> linarith
  | @below m r h h' =>
    change -(1 / 2) ≤ (m : ℚ) - r ∧ (m : ℚ) - r ≤ 1 / 2
    constructor <;> linarith
  | half m =>
    -- the mantissa itself if it is even, and the next one if it is odd
    change -(1 / 2) ≤ ((m + m % 2 : ℕ) : ℚ) - (m + 1 / 2) ∧
      ((m + m % 2 : ℕ) : ℚ) - (m + 1 / 2) ≤ 1 / 2
    rcases Nat.mod_two_eq_zero_or_one m with hm | hm <;> rw [hm] <;> push_cast <;>
      constructor <;> linarith
  | @above m r h h' =>
    change -(1 / 2) ≤ ((m + 1 : ℕ) : ℚ) - r ∧ ((m + 1 : ℕ) : ℚ) - r ≤ 1 / 2
    push_cast
    constructor <;> linarith

/-- The remainder of a division tells how far its quotient is from the exact one. -/
theorem quotient (n : ℕ) {d : ℕ} (hd : 0 < d) :
    Holds (.ofMantissaAndAccuracy (n / d) (accuracyOfFraction (n % d) d)) (n / d : ℚ) := by
  have hd' : (0 : ℚ) < d := Nat.cast_pos.mpr hd
  have hsplit : (n : ℚ) = d * (n / d : ℕ) + (n % d : ℕ) := by
    exact_mod_cast (Nat.div_add_mod n d).symm
  have hquotient : (n / d : ℚ) = (n / d : ℕ) + (n % d : ℕ) / d := by
    rw [hsplit]
    field_simp
  have hless : ((n % d : ℕ) : ℚ) < d := by exact_mod_cast Nat.mod_lt n hd
  rw [hquotient]
  generalize n / d = q
  generalize n % d = r at *
  unfold accuracyOfFraction
  split_ifs with hzero
  · subst hzero
    rw [Nat.cast_zero, zero_div, add_zero]
    exact .whole q
  have hr : (0 : ℚ) < r / d := div_pos (by exact_mod_cast Nat.pos_of_ne_zero hzero) hd'
  rcases Nat.lt_trichotomy (2 * r) d with hlt | heq | hgt
  · have hhalf : (r / d : ℚ) < 1 / 2 := by
      rw [div_lt_div_iff₀ hd' two_pos]
      exact_mod_cast (by omega : r * 2 < 1 * d)
    rw [Nat.compare_eq_lt.mpr hlt]
    exact .below (lt_add_of_pos_right _ hr) ((add_lt_add_iff_left _).mpr hhalf)
  · have hhalf : (r / d : ℚ) = 1 / 2 := by
      rw [div_eq_div_iff hd'.ne' two_ne_zero]
      exact_mod_cast (by omega : r * 2 = 1 * d)
    rw [Nat.compare_eq_eq.mpr heq, hhalf]
    exact .half q
  · have hhalf : (1 / 2 : ℚ) < r / d := by
      rw [div_lt_div_iff₀ two_pos hd']
      exact_mod_cast (by omega : 1 * d < r * 2)
    have hone : (r / d : ℚ) < 1 := (div_lt_one hd').mpr hless
    rw [Nat.compare_eq_gt.mpr hgt]
    exact .above ((add_lt_add_iff_left _).mpr hhalf) ((add_lt_add_iff_left _).mpr hone)

end Holds

section Rounding

variable {m : ℕ} {e : ℤ} {accuracy : Accuracy} {r : ℚ}

theorem mantissa_ofMantissaAndAccuracy (m : ℕ) (accuracy : Accuracy) :
    (ExtendedMantissa.ofMantissaAndAccuracy m accuracy).mantissa = m := by
  rcases accuracy with _ | order
  · rfl
  · cases order <;> rfl

theorem shiftToTargetExponent_eq (hm : 2 ^ 52 ≤ m) (he : leastExponent ≤ e + (m.log2 - 52 : ℕ))
    (accuracy : Accuracy) : shiftToTargetExponent .binary64 m e accuracy =
      (ExtendedMantissa.ofMantissaAndAccuracy m accuracy >>> (m.log2 - 52),
        e + (m.log2 - 52 : ℕ)) := by
  have hlog : 52 ≤ m.log2 := (Nat.le_log2 (by omega)).mpr hm
  have htarget :
      Format.targetExponent .binary64 (totalExponent m e) = e + (m.log2 - 52 : ℕ) := by
    change max ((m.log2 : ℤ) + 1 + e - 53) (-1074) = _
    simp only [leastExponent] at he
    omega
  have hshift : (e + (m.log2 - 52 : ℕ) - e).toNat = m.log2 - 52 := by omega
  rw [shiftToTargetExponent, htarget, shiftToExponent, hshift]

theorem Holds.rounded_bounds (hr : Holds (.ofMantissaAndAccuracy m accuracy) r) (hm : 2 ^ 52 ≤ m)
    (e : ℤ) :
    let n := (ExtendedMantissa.ofMantissaAndAccuracy m accuracy >>> (m.log2 - 52)).roundedMantissa
    2 ^ 52 ≤ n ∧ n ≤ 2 ^ 53 ∧
      |(n * 2 ^ (e + (m.log2 - 52 : ℕ)) : ℚ) - r * 2 ^ e| ≤ r * 2 ^ e / 2 ^ 53 := by
  obtain ⟨k, hk⟩ : ∃ k, m.log2 = 52 + k :=
    Nat.exists_eq_add_of_le ((Nat.le_log2 (by omega)).mpr hm)
  obtain ⟨hmle, hmlt⟩ := hr.mantissa_le
  rw [mantissa_ofMantissaAndAccuracy] at hmle hmlt
  have hlow : (2 : ℚ) ^ (52 + k) ≤ m := by
    rw [← hk]
    exact_mod_cast Nat.log2_self_le (by omega)
  have hhigh : (m + 1 : ℚ) ≤ 2 ^ (52 + k + 1) := by
    rw [← hk]
    exact_mod_cast Nat.lt_log2_self
  have hpos : (0 : ℚ) < 2 ^ k := by positivity
  have hrlow : (2 : ℚ) ^ 52 ≤ r / 2 ^ k := by
    rw [le_div_iff₀ hpos, ← pow_add]
    linarith
  have hrhigh : r / 2 ^ k < 2 ^ 53 := by
    rw [div_lt_iff₀ hpos, ← pow_add, show 53 + k = 52 + k + 1 by omega]
    linarith
  have hround := (hr.shiftRight k).abs_rounded_sub_le
  rw [hk, Nat.add_sub_cancel_left]
  dsimp only
  generalize (ExtendedMantissa.ofMantissaAndAccuracy m accuracy >>> k).roundedMantissa = n at *
  obtain ⟨hbelow, habove⟩ := abs_le.mp hround
  have hnlow : (2 : ℚ) ^ 52 < n + 1 := by linarith
  have hnhigh : (n : ℚ) < 2 ^ 53 + 1 := by linarith
  refine ⟨Nat.le_of_lt_succ (by exact_mod_cast hnlow), Nat.le_of_lt_succ (by exact_mod_cast hnhigh),
    ?_⟩
  have hpow : (0 : ℚ) < 2 ^ (e + k) := by positivity
  have hsplit : r * 2 ^ e = r / 2 ^ k * 2 ^ (e + k) := by
    rw [zpow_add₀ two_ne_zero, zpow_natCast]
    field_simp
  rw [hsplit, ← sub_mul, abs_mul, abs_of_pos hpow, mul_div_right_comm]
  refine mul_le_mul_of_nonneg_right (hround.trans ?_) hpow.le
  linarith

/-- A number with at least 53 bits is rounded to 53 bits. -/
theorem exists_roundWithAccuracy_eq (hr : Holds (.ofMantissaAndAccuracy m accuracy) r)
    (hm : 2 ^ 52 ≤ m) (he : leastExponent ≤ e + (m.log2 - 52 : ℕ)) (s : Sign) :
    ∃ (n : ℕ) (f : ℤ) (h : 0 < n), roundWithAccuracy .binary64 s m e accuracy = .finite s n f h ∧
      2 ^ 52 ≤ n ∧ n < 2 ^ 53 ∧ leastExponent ≤ f ∧ f ≤ e + (m.log2 - 52 : ℕ) + 1 ∧
      |(n * 2 ^ f : ℚ) - r * 2 ^ e| ≤ r * 2 ^ e / 2 ^ 53 := by
  obtain ⟨hlow, hhigh, hnear⟩ := hr.rounded_bounds hm e
  rw [roundWithAccuracy, shiftToTargetExponent_eq hm he]
  dsimp only at *
  generalize e + ((m.log2 - 52 : ℕ) : ℤ) = f at *
  generalize (ExtendedMantissa.ofMantissaAndAccuracy m accuracy >>>
    (m.log2 - 52)).roundedMantissa = n at *
  rcases Nat.lt_or_eq_of_le hhigh with hlt | rfl
  · have hsame : n.log2 = 52 := (Nat.log2_eq_iff (by omega)).mpr ⟨hlow, hlt⟩
    have hne : n ≠ 0 := by omega
    have hmantissa :
        (ExtendedMantissa.ofMantissaAndAccuracy n .exact >>> (52 - 52)).mantissa = n := rfl
    rw [shiftToTargetExponent_eq hlow (by rw [hsame]; simpa using he), hsame]
    refine ⟨n, f, Nat.pos_of_ne_zero hne, ?_, hlow, hlt, he, by omega, hnear⟩
    simp only [hmantissa, dif_neg hne, Nat.sub_self, Nat.cast_zero, add_zero]
  · rw [shiftToTargetExponent_eq hlow (by rw [Nat.log2_two_pow]; omega), Nat.log2_two_pow]
    refine ⟨2 ^ 52, f + 1, by decide, rfl, Nat.le_refl _, by decide, by omega, by omega, ?_⟩
    have hvalue : (((2 ^ 52 : ℕ) : ℚ) * 2 ^ (f + 1)) = ((2 ^ 53 : ℕ) : ℚ) * 2 ^ f := by
      rw [zpow_add₀ two_ne_zero f, zpow_one]
      push_cast
      ring
    rw [hvalue]
    exact hnear

/-- A number that is neither too large nor too small has its leading bit in a middle place. -/
theorem leading_bounds (hm : m ≠ 0) (hle : (m : ℚ) ≤ r) (hlt : r < m + 1)
    (hlow : 1 / 2 ^ 250 ≤ r * 2 ^ e) (hhigh : r * 2 ^ e ≤ 2 ^ 250) :
    -250 ≤ (m.log2 : ℤ) + e ∧ (m.log2 : ℤ) + e ≤ 250 := by
  have hone : (1 : ℚ) < 2 := one_lt_two
  have hpos : (0 : ℚ) < 2 ^ e := by positivity
  have hmlow : (2 : ℚ) ^ m.log2 ≤ m := by exact_mod_cast Nat.log2_self_le hm
  have hmhigh : (m + 1 : ℚ) ≤ 2 ^ (m.log2 + 1) := by exact_mod_cast Nat.lt_log2_self
  have hleast : (2 : ℚ) ^ (-250 : ℤ) < 2 ^ (((m.log2 + 1 : ℕ) : ℤ) + e) := by
    rw [zpow_add₀ two_ne_zero, zpow_natCast, zpow_neg, ← one_div]
    exact hlow.trans_lt (mul_lt_mul_of_pos_right (hlt.trans_le hmhigh) hpos)
  have hgreatest : (2 : ℚ) ^ ((m.log2 : ℤ) + e) ≤ 2 ^ (250 : ℤ) := by
    rw [zpow_add₀ two_ne_zero, zpow_natCast]
    exact (mul_le_mul_of_nonneg_right (hmlow.trans hle) hpos.le).trans hhigh
  have hexponent := (zpow_lt_zpow_iff_right₀ hone).mp hleast
  have hexponent' := (zpow_le_zpow_iff_right₀ hone).mp hgreatest
  omega

/-- The double that a number with at least 53 bits is rounded to. -/
theorem exists_value_roundWithAccuracy (hr : Holds (.ofMantissaAndAccuracy m accuracy) r)
    (hm : 2 ^ 52 ≤ m) (hlow : 1 / 2 ^ 250 ≤ r * 2 ^ e) (hhigh : r * 2 ^ e ≤ 2 ^ 250) :
    ∃ v, value? ⟨Float.Model.pack (roundWithAccuracy .binary64 .positive m e accuracy)⟩ = some v ∧
      |v - r * 2 ^ e| ≤ r * 2 ^ e / 2 ^ 53 := by
  have hlog : 52 ≤ m.log2 := (Nat.le_log2 (by omega)).mpr hm
  obtain ⟨hmle, hmlt⟩ := hr.mantissa_le
  rw [mantissa_ofMantissaAndAccuracy] at hmle hmlt
  obtain ⟨hleast, hgreatest⟩ := leading_bounds (by omega) hmle hmlt hlow hhigh
  obtain ⟨n, f, h, hround, hnlow, hnhigh, hf, hf', hnear⟩ :=
    exists_roundWithAccuracy_eq (e := e) hr hm (by simp only [leastExponent]; omega) .positive
  rw [hround]
  refine ⟨n * 2 ^ f, ?_, hnear⟩
  rw [value?_pack, unpack_pack h hnlow hnhigh hf (by omega)]
  rfl

/-- A number with few bits is rounded as well as one with many. -/
theorem exists_value_round (hm : m ≠ 0) (hlow : 1 / 2 ^ 250 ≤ (m * 2 ^ e : ℚ))
    (hhigh : (m * 2 ^ e : ℚ) ≤ 2 ^ 250) :
    ∃ v, value? ⟨Float.Model.pack (UnpackedFloat.round .binary64 .positive m e)⟩ = some v ∧
      |v - m * 2 ^ e| ≤ m * 2 ^ e / 2 ^ 53 := by
  obtain ⟨hleast, -⟩ := leading_bounds hm le_rfl (lt_add_one (m : ℚ)) hlow hhigh
  have htarget : Format.targetExponent .binary64 (totalExponent m e) = e + m.log2 - 52 := by
    change max ((m.log2 : ℤ) + 1 + e - 53) (-1074) = _
    omega
  have hshift : (e - (e + m.log2 - 52)).toNat = 52 - m.log2 := by omega
  have hvalue : ((m <<< (52 - m.log2) : ℕ) : ℚ) * 2 ^ (e - (52 - m.log2 : ℕ)) = m * 2 ^ e := by
    rw [Nat.shiftLeft_eq, Nat.cast_mul, Nat.cast_pow, Nat.cast_ofNat, zpow_sub₀ two_ne_zero,
      zpow_natCast]
    field_simp
  have hbits : 2 ^ 52 ≤ m <<< (52 - m.log2) := by
    rw [Nat.shiftLeft_eq]
    calc 2 ^ 52 ≤ 2 ^ (m.log2 + (52 - m.log2)) := Nat.pow_le_pow_right two_pos (by omega)
      _ = 2 ^ m.log2 * 2 ^ (52 - m.log2) := Nat.pow_add 2 _ _
      _ ≤ m * 2 ^ (52 - m.log2) := Nat.mul_le_mul_right _ (Nat.log2_self_le hm)
  rw [UnpackedFloat.round, htarget, decreaseExponent, hshift]
  rw [← hvalue] at hlow hhigh ⊢
  exact exists_value_roundWithAccuracy (.exact _) hbits hlow hhigh

end Rounding
end ReverseSweep.Binary64
