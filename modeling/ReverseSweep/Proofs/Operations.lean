import ReverseSweep.Proofs.Rounding

/-! Sums, products and quotients of doubles that are not negative: each is the exact one but for
half of a last place. -/

namespace ReverseSweep.Binary64

open Float.Model UnpackedFloat

/-- A number that is neither too large nor too small for a double with all its bits. -/
def Moderate (q : ℚ) : Prop := q = 0 ∨ 1 / 2 ^ 250 ≤ q ∧ q ≤ 2 ^ 250

theorem Moderate.nonneg {q : ℚ} (h : Moderate q) : 0 ≤ q := by
  rcases h with rfl | ⟨hlow, -⟩
  · exact le_refl 0
  · exact le_trans (by positivity) hlow

section Operands

variable {x : Float} {q : ℚ}

theorem unpack_of_value?_zero (h : value? x = some 0) : ∃ s, x.toModel.unpack = .zero s := by
  rw [value?_eq_unpacked?] at h
  cases hu : x.toModel.unpack with
  | zero s => exact ⟨s, rfl⟩
  | finite s m e hm =>
    rw [hu] at h
    have hzero := Option.some.inj h
    have hpos : (0 : ℚ) < 2 ^ e := by positivity
    have hm' : (s.apply m : ℤ) = 0 := by
      exact_mod_cast (mul_eq_zero.mp hzero).resolve_right hpos.ne'
    cases s <;> simp [Sign.apply] at hm' <;> omega
  | infinity s =>
    rw [hu] at h
    cases h
  | notANumber =>
    rw [hu] at h
    cases h

theorem subnormal_lt {m : ℕ} (hm : m < 2 ^ 53) : (m * 2 ^ leastExponent : ℚ) < 1 / 2 ^ 250 := by
  have hm' : (m : ℚ) < 2 ^ 53 := by exact_mod_cast hm
  have hpower : (2 : ℚ) ^ 53 * 2 ^ leastExponent ≤ 1 / 2 ^ 250 := by
    rw [leastExponent, ← zpow_natCast, ← zpow_add₀ two_ne_zero, one_div, ← zpow_natCast,
      ← zpow_neg]
    exact zpow_le_zpow_right₀ one_le_two (by decide)
  exact (mul_lt_mul_of_pos_right hm' (by positivity)).trans_le hpower

theorem unpack_of_value? (h : value? x = some q) (hlow : 1 / 2 ^ 250 ≤ q) :
    ∃ (m : ℕ) (e : ℤ) (hm : 0 < m), x.toModel.unpack = .finite .positive m e hm ∧
      2 ^ 52 ≤ m ∧ m < 2 ^ 53 ∧ q = m * 2 ^ e := by
  rw [value?_eq_unpacked?] at h
  cases hu : x.toModel.unpack with
  | zero s =>
    rw [hu] at h
    obtain rfl : 0 = q := Option.some.inj h
    norm_num at hlow
  | finite s m e hm =>
    obtain ⟨hhigh, hnormal⟩ := mantissa_bounds hu
    rw [hu] at h
    obtain rfl : s.apply m * 2 ^ e = q := Option.some.inj h
    have hpos : (0 : ℚ) < m * 2 ^ e := mul_pos (Nat.cast_pos.mpr hm) (by positivity)
    have hleast : (0 : ℚ) < 1 / 2 ^ 250 := by positivity
    cases s with
    | negative =>
      simp only [Sign.apply, Int.cast_neg, Int.cast_natCast, neg_mul] at hlow
      linarith
    | positive =>
      refine ⟨m, e, hm, rfl, hnormal.resolve_right ?_, hhigh, rfl⟩
      rintro rfl
      exact absurd hlow (not_le.mpr (subnormal_lt hhigh))
  | infinity s =>
    rw [hu] at h
    cases h
  | notANumber =>
    rw [hu] at h
    cases h

end Operands

theorem normalize_natCast {k : ℕ} (hk : k ≠ 0) (e : ℤ) (s : Sign) :
    UnpackedFloat.normalize .binary64 k e s = UnpackedFloat.round .binary64 .positive k e := by
  have hcompare : compare (k : ℤ) 0 = .gt := Int.compare_eq_gt.mpr (by omega)
  rw [UnpackedFloat.normalize, hcompare]
  rfl

theorem cast_shiftLeft (m : ℕ) {e f : ℤ} (h : f ≤ e) :
    ((m <<< (e - f).toNat : ℕ) : ℚ) * 2 ^ f = m * 2 ^ e := by
  obtain ⟨k, rfl⟩ : ∃ k : ℕ, e = f + k := ⟨(e - f).toNat, by omega⟩
  rw [add_sub_cancel_left, Int.toNat_natCast, Nat.shiftLeft_eq, Nat.cast_mul, Nat.cast_pow,
    Nat.cast_ofNat, zpow_add₀ two_ne_zero, zpow_natCast, mul_assoc, mul_comm (2 ^ k)]

theorem leastExponent_le_of_quotient {m n : ℕ} {e f : ℤ} (hn : 0 < n) (h : m < 2 * n)
    (hlow : 1 / 2 ^ 250 ≤ (m * 2 ^ e / (n * 2 ^ f) : ℚ)) : leastExponent ≤ e - f - 53 := by
  have hn' : (0 : ℚ) < n := Nat.cast_pos.mpr hn
  have hratio : (m / n : ℚ) < 2 ^ (1 : ℤ) := by
    rw [div_lt_iff₀ hn', zpow_one]
    exact_mod_cast h
  have hleast : (2 : ℚ) ^ (-250 : ℤ) < 2 ^ (1 + (e - f)) := by
    rw [zpow_add₀ two_ne_zero, zpow_neg, ← one_div]
    refine hlow.trans_lt ?_
    rw [mul_div_mul_comm, ← zpow_sub₀ two_ne_zero]
    exact mul_lt_mul_of_pos_right hratio (by positivity)
  have := (zpow_lt_zpow_iff_right₀ one_lt_two).mp hleast
  simp only [leastExponent]
  omega

/-- A quotient of two mantissas of 53 bits is rounded to 53 bits as well. -/
theorem divCore_eq {m n : ℕ} {e f : ℤ} (hm : m.log2 = 52) (hn : n.log2 = 52)
    (h : leastExponent ≤ e - f - 53) : divCore .binary64 m e n f =
      (m <<< 53 / n, e - f - 53, accuracyOfFraction (m <<< 53 % n) n) := by
  have htarget : min (e - f)
      (Format.targetExponent .binary64 (totalExponent m e - totalExponent n f)) = e - f - 53 := by
    change min (e - f) (max ((m.log2 : ℤ) + 1 + e - ((n.log2 : ℤ) + 1 + f) - 53) (-1074)) = _
    simp only [leastExponent] at h
    omega
  have hshift : (e - f - (e - f - 53)).toNat = 53 := by omega
  rw [divCore, htarget, hshift]

section Operations

variable {x y : Float} {p q : ℚ}

theorem add_eq (x y : Float) : x + y =
    ⟨Float.Model.pack (UnpackedFloat.add .binary64 x.toModel.unpack y.toModel.unpack)⟩ := rfl

theorem value?_zero_add (hx : value? x = some 0) (hy : value? y = some q) (hq : Moderate q) :
    value? (x + y) = some q := by
  obtain ⟨s, hxs⟩ := unpack_of_value?_zero hx
  rcases hq with rfl | ⟨hq, -⟩
  · obtain ⟨s', hys⟩ := unpack_of_value?_zero hy
    rw [add_eq, hxs, hys, UnpackedFloat.add]
    split <;> exact value?_pack_zero _
  · obtain ⟨n, f, hn, hyu, -⟩ := unpack_of_value? hy hq
    have hsame : UnpackedFloat.add .binary64 (.zero s) (.finite .positive n f hn) =
      .finite .positive n f hn := rfl
    rw [add_eq, hxs, hyu, hsame, ← hyu, pack_unpack_eq, hy]

theorem value?_add_zero (hx : value? x = some p) (hp : 1 / 2 ^ 250 ≤ p) (hy : value? y = some 0) :
    value? (x + y) = some p := by
  obtain ⟨m, e, hm, hxu, -⟩ := unpack_of_value? hx hp
  obtain ⟨s, hys⟩ := unpack_of_value?_zero hy
  have hsame : UnpackedFloat.add .binary64 (.finite .positive m e hm) (.zero s) =
    .finite .positive m e hm := rfl
  rw [add_eq, hxu, hys, hsame, ← hxu, pack_unpack_eq, hx]

theorem exists_value_add (hx : value? x = some p) (hy : value? y = some q) (hp : Moderate p)
    (hq : Moderate q) (hsum : Moderate (p + q)) :
    ∃ v, value? (x + y) = some v ∧ |v - (p + q)| ≤ (p + q) / 2 ^ 53 := by
  have hexact : |p + q - (p + q)| ≤ (p + q) / 2 ^ 53 := by
    rw [sub_self, abs_zero]
    exact div_nonneg hsum.nonneg (by positivity)
  rcases hp with rfl | ⟨hp, -⟩
  · exact ⟨0 + q, by rw [zero_add, value?_zero_add hx hy hq], hexact⟩
  rcases hq with rfl | ⟨hq, -⟩
  · exact ⟨p + 0, by rw [add_zero, value?_add_zero hx hp hy], hexact⟩
  obtain ⟨m, e, hm, hxu, -, -, rfl⟩ := unpack_of_value? hx hp
  obtain ⟨n, f, hn, hyu, -, -, rfl⟩ := unpack_of_value? hy hq
  have hmantissa (a b : ℕ) :
    Sign.positive.apply a + Sign.positive.apply b = ((a + b : ℕ) : ℤ) := rfl
  have hpositive : m <<< (e - min e f).toNat + n <<< (f - min e f).toNat ≠ 0 :=
    (Nat.add_pos_left (Nat.shiftLeft_pos_iff.mpr hm) _).ne'
  have hvalue : ((m <<< (e - min e f).toNat + n <<< (f - min e f).toNat : ℕ) : ℚ) * 2 ^ min e f =
      m * 2 ^ e + n * 2 ^ f := by
    rw [Nat.cast_add, add_mul, cast_shiftLeft m (min_le_left e f),
      cast_shiftLeft n (min_le_right e f)]
  obtain ⟨hlow, hhigh⟩ := hsum.resolve_left (by positivity)
  rw [add_eq, hxu, hyu, UnpackedFloat.add]
  dsimp only [decreaseExponent]
  rw [hmantissa, normalize_natCast hpositive, ← hvalue]
  rw [← hvalue] at hlow hhigh
  exact exists_value_round hpositive hlow hhigh

theorem exists_value_mul (hx : value? x = some p) (hy : value? y = some q) (hp : Moderate p)
    (hq : 1 / 2 ^ 250 ≤ q) (hproduct : Moderate (p * q)) :
    ∃ v, value? (x * y) = some v ∧ |v - p * q| ≤ p * q / 2 ^ 53 := by
  have hxy : x * y =
    ⟨Float.Model.pack (UnpackedFloat.mul .binary64 x.toModel.unpack y.toModel.unpack)⟩ := rfl
  obtain ⟨n, f, hn, hyu, hnlow, -, rfl⟩ := unpack_of_value? hy hq
  rcases hp with rfl | ⟨hp, -⟩
  · obtain ⟨s, hxs⟩ := unpack_of_value?_zero hx
    have hzero : UnpackedFloat.mul .binary64 (.zero s) (.finite .positive n f hn) =
      .zero (s * .positive) := rfl
    exact ⟨0, by rw [hxy, hxs, hyu, hzero, value?_pack_zero], by simp⟩
  obtain ⟨m, e, hm, hxu, hmlow, -, rfl⟩ := unpack_of_value? hx hp
  have hvalue : ((m * n : ℕ) : ℚ) * 2 ^ (e + f) = m * 2 ^ e * (n * 2 ^ f) := by
    rw [Nat.cast_mul, zpow_add₀ two_ne_zero]
    ring
  have hbits : 2 ^ 52 ≤ m * n := hmlow.trans (Nat.le_mul_of_pos_right m hn)
  obtain ⟨hlow, hhigh⟩ := hproduct.resolve_left (by positivity)
  rw [hxy, hxu, hyu, ← hvalue]
  rw [← hvalue] at hlow hhigh
  exact exists_value_roundWithAccuracy (.exact _) hbits hlow hhigh

theorem exists_value_div (hx : value? x = some p) (hy : value? y = some q) (hp : Moderate p)
    (hq : 1 / 2 ^ 250 ≤ q) (hquotient : Moderate (p / q)) :
    ∃ v, value? (x / y) = some v ∧ |v - p / q| ≤ p / q / 2 ^ 53 := by
  have hxy : x / y =
    ⟨Float.Model.pack (UnpackedFloat.div .binary64 x.toModel.unpack y.toModel.unpack)⟩ := rfl
  obtain ⟨n, f, hn, hyu, hnlow, hnhigh, rfl⟩ := unpack_of_value? hy hq
  rcases hp with rfl | ⟨hp, -⟩
  · obtain ⟨s, hxs⟩ := unpack_of_value?_zero hx
    have hzero : UnpackedFloat.div .binary64 (.zero s) (.finite .positive n f hn) =
      .zero (s / .positive) := rfl
    exact ⟨0, by rw [hxy, hxs, hyu, hzero, value?_pack_zero], by simp⟩
  obtain ⟨m, e, hm, hxu, hmlow, hmhigh, rfl⟩ := unpack_of_value? hx hp
  obtain ⟨hlow, hhigh⟩ := hquotient.resolve_left (by positivity)
  have hvalue : ((m <<< 53 : ℕ) / n : ℚ) * 2 ^ (e - f - 53) = m * 2 ^ e / (n * 2 ^ f) := by
    rw [Nat.shiftLeft_eq, Nat.cast_mul, Nat.cast_pow, Nat.cast_ofNat, sub_sub,
      zpow_sub₀ two_ne_zero, zpow_add₀ two_ne_zero]
    field_simp
  have hexponent := leastExponent_le_of_quotient hn (by omega : m < 2 * n) hlow
  have hbits : 2 ^ 52 ≤ m <<< 53 / n := by
    rw [Nat.le_div_iff_mul_le hn, Nat.shiftLeft_eq]
    omega
  have hcore := divCore_eq ((Nat.log2_eq_iff hm.ne').mpr ⟨hmlow, hmhigh⟩)
    ((Nat.log2_eq_iff hn.ne').mpr ⟨hnlow, hnhigh⟩) hexponent
  have hsign : Sign.positive / Sign.positive = Sign.positive := rfl
  rw [hxy, hxu, hyu, UnpackedFloat.div]
  dsimp only
  rw [hcore, hsign, ← hvalue]
  dsimp only
  rw [← hvalue] at hlow hhigh
  exact exists_value_roundWithAccuracy (.quotient (m <<< 53) hn) hbits hlow hhigh

end Operations
end ReverseSweep.Binary64
