import ReverseSweep.Proofs.Overflow

/-! How near the double nearest to a quotient is. It is exact to 53 bits as long as the quotient is
neither too large nor too small, and what is rounded to a whole number is off by at most a half. -/

namespace ReverseSweep

section Rounding

theorem cast_twoTo (k : ℕ) : ((twoTo k : ℕ) : ℚ) = 2 ^ k := by
  rw [twoTo, Nat.pow_eq, Nat.cast_pow, Nat.cast_ofNat]

theorem roundQuotient_near (m : ℕ) {d : ℕ} (hd : 0 < d) :
    2 * m ≤ 2 * (d * roundQuotient m d) + d ∧ 2 * (d * roundQuotient m d) ≤ 2 * m + d := by
  have hmod := Nat.mod_lt m hd
  have hdiv := Nat.div_add_mod m d
  unfold roundQuotient
  generalize m / d = q at *
  generalize m % d = r at *
  dsimp only
  split_ifs
  · omega
  · rw [Nat.mul_succ]
    omega
  · rcases Nat.mod_two_eq_zero_or_one q with hq | hq <;> rw [hq, Nat.mul_add] <;> omega

theorem abs_roundQuotient_sub_le (m : ℕ) {d : ℕ} (hd : 0 < d) :
    |(roundQuotient m d : ℚ) - m / d| ≤ 1 / 2 := by
  obtain ⟨hlow, hhigh⟩ := roundQuotient_near m hd
  have hd' : (0 : ℚ) < d := Nat.cast_pos.mpr hd
  have hlow' : (2 * m : ℚ) ≤ 2 * (d * roundQuotient m d) + d := by exact_mod_cast hlow
  have hhigh' : (2 * (d * roundQuotient m d) : ℚ) ≤ 2 * m + d := by exact_mod_cast hhigh
  have hle : (m / d : ℚ) ≤ roundQuotient m d + 1 / 2 := by
    rw [div_le_iff₀ hd']
    linarith
  have hge : (roundQuotient m d : ℚ) - 1 / 2 ≤ m / d := by
    rw [le_div_iff₀ hd']
    linarith
  rw [abs_le]
  constructor <;> linarith

theorem abs_roundScaled_sub_le (m : ℕ) (e : ℤ) :
    |(roundScaled m e : ℚ) - m * 2 ^ e| ≤ 1 / 2 := by
  cases e with
  | ofNat e =>
    have hexact : ((roundScaled m (.ofNat e) : ℕ) : ℚ) = m * 2 ^ (.ofNat e : ℤ) := by
      rw [roundScaled, Nat.cast_mul, cast_twoTo, Int.ofNat_eq_natCast, zpow_natCast]
    rw [hexact, sub_self, abs_zero]
    norm_num
  | negSucc e =>
    have hpower : (m : ℚ) * 2 ^ (.negSucc e : ℤ) = m / (twoTo (e + 1) : ℕ) := by
      rw [cast_twoTo, zpow_negSucc, div_eq_mul_inv]
    rw [hpower, roundScaled]
    exact abs_roundQuotient_sub_le m (twoTo_pos _)

end Rounding

namespace Binary64

/-- The number that is meant, if it is finite. -/
def Reading.value? : Reading → Option ℚ
  | finite negative m e => some (signed negative m * 2 ^ e)
  | infinite _ => none
  | notANumber => none

def value? (x : Float) : Option ℚ := (read x).value?

theorem read_ofBits {k : ℕ} (h : k < infinityBits) :
    read (Float.ofBits (UInt64.ofNat k)) = if k / leadingBit = 0 then .finite false k leastExponent
      else .finite false (leadingBit + k % leadingBit) (leastExponent + (k / leadingBit : ℕ) - 1) := by
  have hbits : (UInt64.ofNat k).toNat = k := by
    rw [UInt64.toNat_ofNat', Nat.mod_eq_of_lt]
    simp only [infinityBits] at h
    omega
  have hsmall : k < signBit := by
    simp only [infinityBits, signBit] at h ⊢
    omega
  have hmod : k % signBit = k := Nat.mod_eq_of_lt hsmall
  have hfield : k / leadingBit < 0x7ff := by
    simp only [infinityBits, leadingBit] at h ⊢
    omega
  have hsame : (Float.ofBits (UInt64.ofNat k)).toBits = UInt64.ofNat k :=
    toBits_ofBits (by rwa [hbits, hmod])
  simp only [read, hsame, hbits, hmod, decide_eq_false (Nat.not_le.mpr hsmall),
    if_neg (Nat.ne_of_lt hfield)]
  split_ifs with hzero
  · rw [Nat.mod_eq_of_lt (Nat.lt_of_div_eq_zero (by decide) hzero)]
  · rfl

/-- A significand of 53 bits is read as it is, also when it has become a power of two. -/
theorem exists_read_ofBits {e m : ℕ} (he : e ≤ 2044) (hlow : 2 ^ 52 ≤ m) (hhigh : m ≤ 2 ^ 53) :
    ∃ (n : ℕ) (f : ℤ), read (Float.ofBits (UInt64.ofNat (e * leadingBit + m))) =
        .finite false n f ∧
      (n * 2 ^ f : ℚ) = m * 2 ^ ((e : ℤ) + leastExponent) := by
  have hbits : e * leadingBit + m < infinityBits := by
    simp only [leadingBit, infinityBits]
    omega
  rw [read_ofBits hbits]
  rcases Nat.lt_or_eq_of_le hhigh with hlt | rfl
  · have hfield : (e * leadingBit + m) / leadingBit = e + 1 := by
      simp only [leadingBit]
      omega
    have hfraction : leadingBit + (e * leadingBit + m) % leadingBit = m := by
      simp only [leadingBit]
      omega
    have hexponent : leastExponent + ((e + 1 : ℕ) : ℤ) - 1 = e + leastExponent := by omega
    rw [hfield, hfraction, if_neg (Nat.succ_ne_zero e), hexponent]
    exact ⟨m, _, rfl, rfl⟩
  · have hfield : (e * leadingBit + 2 ^ 53) / leadingBit = e + 2 := by
      simp only [leadingBit]
      omega
    have hfraction : leadingBit + (e * leadingBit + 2 ^ 53) % leadingBit = 2 ^ 52 := by
      simp only [leadingBit]
      omega
    have hexponent : leastExponent + ((e + 2 : ℕ) : ℤ) - 1 = 1 + (e + leastExponent) := by omega
    rw [hfield, hfraction, if_neg (Nat.succ_ne_zero _), hexponent]
    refine ⟨2 ^ 52, _, rfl, ?_⟩
    rw [zpow_add₀ two_ne_zero, zpow_one]
    push_cast
    ring

section Quotients

variable {num den : ℕ}

theorem scaled_pos (num : ℕ) (hden : 0 < den) (e : ℤ) : 0 < (scaled num den e).2 := by
  cases e with
  | ofNat e => exact Nat.mul_pos hden (twoTo_pos e)
  | negSucc e => exact hden

theorem cast_scaled (num den : ℕ) (e : ℤ) :
    ((scaled num den e).1 : ℚ) / (scaled num den e).2 = num / den / 2 ^ e := by
  cases e with
  | ofNat e =>
    rw [scaled, Nat.cast_mul, cast_twoTo, Int.ofNat_eq_natCast, zpow_natCast, div_div]
  | negSucc e =>
    rw [scaled, Nat.cast_mul, cast_twoTo, zpow_negSucc, div_inv_eq_mul, div_mul_eq_mul_div]

/-- The bits of both parts tell a quotient to a factor of two. -/
theorem log2_bounds (hnum : 0 < num) (hden : 0 < den) :
    (2 : ℚ) ^ ((num.log2 : ℤ) - den.log2 - 1) < num / den ∧
      (num / den : ℚ) < 2 ^ ((num.log2 : ℤ) - den.log2 + 1) := by
  have hnum' : (0 : ℚ) < num := Nat.cast_pos.mpr hnum
  have hden' : (0 : ℚ) < den := Nat.cast_pos.mpr hden
  have hnumLow : (2 : ℚ) ^ num.log2 ≤ num := by exact_mod_cast Nat.log2_self_le hnum.ne'
  have hnumHigh : (num : ℚ) < 2 ^ (num.log2 + 1) := by exact_mod_cast Nat.lt_log2_self
  have hdenLow : (2 : ℚ) ^ den.log2 ≤ den := by exact_mod_cast Nat.log2_self_le hden.ne'
  have hdenHigh : (den : ℚ) < 2 ^ (den.log2 + 1) := by exact_mod_cast Nat.lt_log2_self
  have hlow : (2 : ℚ) ^ ((num.log2 : ℤ) - den.log2 - 1) = 2 ^ num.log2 / 2 ^ (den.log2 + 1) := by
    rw [sub_sub, zpow_sub₀ two_ne_zero, zpow_natCast]
    norm_cast
  have hhigh : (2 : ℚ) ^ ((num.log2 : ℤ) - den.log2 + 1) = 2 ^ (num.log2 + 1) / 2 ^ den.log2 := by
    rw [sub_add_eq_add_sub, zpow_sub₀ two_ne_zero, zpow_natCast]
    norm_cast
  rw [hlow, hhigh, div_lt_div_iff₀ (by positivity) hden', div_lt_div_iff₀ hden' (by positivity)]
  exact ⟨mul_lt_mul' hnumLow hdenHigh hden'.le hnum',
    mul_lt_mul hnumHigh hdenLow (by positivity) (by positivity)⟩

theorem scaled_bounds {r : ℚ} {e : ℤ} (hlow : 2 ^ (e + 52) ≤ r) (hhigh : r < 2 ^ (e + 53)) :
    2 ^ 52 ≤ r / 2 ^ e ∧ r / 2 ^ e < 2 ^ 53 := by
  have hpos : (0 : ℚ) < 2 ^ e := by positivity
  rw [zpow_add₀ two_ne_zero, mul_comm] at hlow hhigh
  exact ⟨(le_div_iff₀ hpos).mpr hlow, (div_lt_iff₀ hpos).mpr hhigh⟩

theorem exponentOf_eq (num den : ℕ) : exponentOf num den =
    let k : ℤ := (num.log2 : ℤ) - den.log2
    max leastExponent (if (scaled num den k).2 ≤ (scaled num den k).1 then k - fractionBits
      else k - fractionBits - 1) := rfl

/-- Where the quotient is neither too large nor too small, its significand has 53 bits. -/
theorem exponentOf_bounds (hnum : 0 < num) (hden : 0 < den)
    (hlow : 1 / 2 ^ 250 ≤ (num / den : ℚ)) (hhigh : (num / den : ℚ) ≤ 2 ^ 250) :
    leastExponent ≤ exponentOf num den ∧ exponentOf num den ≤ 200 ∧
      2 ^ 52 ≤ (num / den / 2 ^ exponentOf num den : ℚ) ∧
      (num / den / 2 ^ exponentOf num den : ℚ) < 2 ^ 53 := by
  obtain ⟨hless, hmore⟩ := log2_bounds hnum hden
  have hone : (1 : ℚ) < 2 := one_lt_two
  rw [exponentOf_eq]
  dsimp only
  generalize (num.log2 : ℤ) - den.log2 = k at *
  have hk : -250 ≤ k := by
    have hpower : (2 : ℚ) ^ (-250 : ℤ) < 2 ^ (k + 1) := by
      refine lt_of_le_of_lt ?_ hmore
      rw [zpow_neg, ← one_div]
      exact hlow
    have := (zpow_lt_zpow_iff_right₀ hone).mp hpower
    omega
  have hk' : k ≤ 250 := by
    have hpower : (2 : ℚ) ^ (k - 1) < 2 ^ (250 : ℤ) := lt_of_lt_of_le hless hhigh
    have := (zpow_lt_zpow_iff_right₀ hone).mp hpower
    omega
  have hpos : (0 : ℚ) < (scaled num den k).2 := Nat.cast_pos.mpr (scaled_pos num hden k)
  have hiff : (scaled num den k).2 ≤ (scaled num den k).1 ↔ (2 : ℚ) ^ k ≤ num / den := by
    rw [← one_le_div (by positivity : (0 : ℚ) < 2 ^ k), ← cast_scaled, one_le_div hpos, Nat.cast_le]
  have hleast : leastExponent = -1074 := rfl
  split_ifs with hle
  · have he : max leastExponent (k - fractionBits) = k - 52 := by
      simp only [fractionBits]
      omega
    rw [he]
    refine ⟨by omega, by omega, scaled_bounds ?_ ?_⟩
    · rw [sub_add_cancel]
      exact hiff.mp hle
    · rwa [show k - 52 + 53 = k + 1 by ring]
  · have he : max leastExponent (k - fractionBits - 1) = k - 53 := by
      simp only [fractionBits]
      omega
    rw [he]
    refine ⟨by omega, by omega, scaled_bounds ?_ ?_⟩
    · rw [show k - 53 + 52 = k - 1 by ring]
      exact hless.le
    · rw [sub_add_cancel]
      exact not_le.mp (mt hiff.mpr hle)

theorem nearestQuotient_natCast (num den : ℕ) :
    nearestQuotient num den = Float.ofBits (UInt64.ofNat (magnitudeBits num den)) := by
  rw [nearestQuotient, if_neg (Int.not_lt.mpr (Int.natCast_nonneg num)), Int.natAbs_natCast]

/-- The double nearest to a quotient is off by half of its last place at most. -/
theorem exists_read_nearestQuotient (hden : 0 < den)
    (hlow : (num / den : ℚ) = 0 ∨ 1 / 2 ^ 250 ≤ (num / den : ℚ)) (hhigh : (num / den : ℚ) ≤ 2 ^ 250) :
    ∃ (m : ℕ) (e : ℤ), read (nearestQuotient num den) = .finite false m e ∧
      |(m : ℚ) * 2 ^ e - num / den| ≤ num / den / 2 ^ 53 := by
  rw [nearestQuotient_natCast]
  rcases Nat.eq_zero_or_pos num with rfl | hnum
  · refine ⟨0, leastExponent, ?_, by simp⟩
    rw [magnitudeBits, if_pos rfl, read_ofBits (by decide), if_pos (by decide)]
  have hpositive : (0 : ℚ) < num / den := by positivity
  obtain ⟨hleast, hgreatest, hfrom, hto⟩ :=
    exponentOf_bounds hnum hden (hlow.resolve_left hpositive.ne') hhigh
  have hround := abs_roundQuotient_sub_le (scaled num den (exponentOf num den)).1
    (scaled_pos num hden (exponentOf num den))
  rw [cast_scaled] at hround
  rw [magnitudeBits, if_neg hnum.ne']
  dsimp only
  generalize exponentOf num den = e at *
  generalize roundQuotient (scaled num den e).1 (scaled num den e).2 = m at *
  generalize (num / den : ℚ) = r at *
  obtain ⟨hbelow, habove⟩ := abs_le.mp hround
  -- rounding does not leave the range of significands
  have hmlow : 2 ^ 52 ≤ m := by
    have : (2 : ℚ) ^ 52 < m + 1 := by linarith
    exact Nat.le_of_lt_succ (by exact_mod_cast this)
  have hmhigh : m ≤ 2 ^ 53 := by
    have : (m : ℚ) < 2 ^ 53 + 1 := by linarith
    exact Nat.le_of_lt_succ (by exact_mod_cast this)
  obtain ⟨field, hfield⟩ := Int.eq_ofNat_of_zero_le (Int.sub_nonneg.mpr hleast)
  have hsmall : field ≤ 2044 := by
    simp only [leastExponent] at *
    omega
  have hmin : field * leadingBit + m ≤ infinityBits := by
    simp only [leadingBit, infinityBits]
    omega
  obtain ⟨n, f, hread, hvalue⟩ := exists_read_ofBits hsmall hmlow hmhigh
  rw [hfield, Int.toNat_natCast, Nat.min_eq_right hmin]
  refine ⟨n, f, hread, ?_⟩
  have he : (field : ℤ) + leastExponent = e := by omega
  have hpos : (0 : ℚ) < 2 ^ e := by positivity
  have hr : r = r / 2 ^ e * 2 ^ e := (div_mul_cancel₀ r hpos.ne').symm
  calc |(n : ℚ) * 2 ^ f - r|
      = |(m : ℚ) - r / 2 ^ e| * 2 ^ e := by
        rw [hvalue, he, ← abs_of_pos hpos, ← abs_mul, abs_of_pos hpos, sub_mul, ← hr]
    _ ≤ r / 2 ^ e / 2 ^ 53 * 2 ^ e := by
        refine mul_le_mul_of_nonneg_right (hround.trans ?_) hpos.le
        linarith
    _ = r / 2 ^ 53 := by rw [div_right_comm, div_mul_cancel₀ _ hpos.ne']

/-- A whole number of 53 bits is a double. -/
theorem value?_nearestQuotient_one {n : ℕ} (hn : n ≠ 0) (hlog : n.log2 ≤ 52) :
    value? (nearestQuotient n 1) = some n := by
  obtain ⟨hlow, hhigh⟩ := significand_bounds hn
  have hlast : twoTo (n.log2 - 52) = 1 := by rw [Nat.sub_eq_zero_of_le hlog]; rfl
  rw [hlast, Nat.div_one] at hlow hhigh
  have hround : roundQuotient (n * twoTo (52 - n.log2)) 1 = n * twoTo (52 - n.log2) := by
    simp [roundQuotient, Nat.mod_one]
  have hmin : (n.log2 + 1022) * leadingBit + n * twoTo (52 - n.log2) ≤ infinityBits := by
    simp only [leadingBit, infinityBits]
    omega
  obtain ⟨m, e, hread, hvalue⟩ :=
    exists_read_ofBits (e := n.log2 + 1022) (by omega) hlow hhigh.le
  rw [nearestQuotient_natCast, magnitudeBits_one hn, hlast, hround, Nat.min_eq_right hmin, value?,
    hread]
  change some ((m : ℚ) * 2 ^ e) = some (n : ℚ)
  have hexponent : ((n.log2 + 1022 : ℕ) : ℤ) + leastExponent = -((52 - n.log2 : ℕ) : ℤ) := by
    simp only [leastExponent]
    omega
  rw [hvalue, hexponent, Nat.cast_mul, cast_twoTo, zpow_neg, zpow_natCast, mul_assoc,
    mul_inv_cancel₀ (by positivity), mul_one]

end Quotients
end Binary64
end ReverseSweep
