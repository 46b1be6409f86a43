import ReverseSweep.Proofs.Nearest
import ReverseSweep.Proofs.Words

/-! Numbers with a fixed count of decimal places read back. What is read is off by half a unit of the
last place at most, apart from what the double was off by itself. -/

namespace ReverseSweep.Decimal

/-- Reads a number with so many decimal places, in units of the last one. -/
def ofFixed? (places : ℕ) (cs : List Char) : Option ℕ :=
  match cs.splitOn '.' with
  | [whole, rest] =>
    if whole ≠ [] ∧ rest.length = places ∧ (whole ++ rest).all Json.isDigit then
      some (ofDigits (whole ++ rest))
    else none
  | _ => none

/-- The text is a number with so many decimal places, and it is near to the exact one. -/
def Near (places : ℕ) (cs : List Char) (r : ℚ) : Prop :=
  ∃ k : ℕ, ofFixed? places cs = some k ∧
    |(k / 10 ^ places : ℚ) - r| ≤ 1 / (2 * 10 ^ places) + r / 2 ^ 53

section Digits

variable {places n : ℕ}

theorem ofDigits_append (xs ys : List Char) :
    ofDigits (xs ++ ys) = ofDigits xs * 10 ^ ys.length + ofDigits ys := by
  induction ys using List.reverseRecOn with
  | nil => simp [ofDigits]
  | append_singleton ys c ih =>
    rw [← List.append_assoc, ofDigits_concat, ih, ofDigits_concat, List.length_append,
      List.length_singleton, pow_succ]
    ring

theorem ofDigits_padZeros (width : ℕ) (cs : List Char) :
    ofDigits (padZeros width cs) = ofDigits cs := by
  have hzeros (count : ℕ) : ofDigits (List.replicate count '0') = 0 := by
    induction count with
    | zero => rfl
    | succ count ih =>
      rw [List.replicate_succ', ofDigits_concat, ih]
      rfl
  rw [padZeros, ofDigits_append, hzeros, Nat.zero_mul, Nat.zero_add]

theorem length_digits_le (hp : 0 < places) (h : n < 10 ^ places) : (digits n).length ≤ places := by
  induction places generalizing n with
  | zero => omega
  | succ places ih =>
    rw [digits]
    split
    · simp
    · rename_i hn
      have hplaces : 0 < places := by
        rcases Nat.eq_zero_or_pos places with rfl | hpos
        · omega
        · exact hpos
      have hdiv : n / 10 < 10 ^ places := by
        rw [Nat.div_lt_iff_lt_mul (by decide), ← pow_succ]
        exact h
      have hlength := ih hplaces hdiv
      rw [List.length_append, List.length_singleton]
      omega

/-- Whole part and places are read as one number. -/
theorem ofFixed?_pointed (hp : 0 < places) (n : ℕ) :
    ofFixed? places (pointed places n) = some n := by
  have hten : tenTo places = 10 ^ places := rfl
  have hmod : n % 10 ^ places < 10 ^ places := Nat.mod_lt n (by positivity)
  have hlength : (padZeros places (digits (n % 10 ^ places))).length = places := by
    have := length_digits_le hp hmod
    rw [padZeros, List.length_append, List.length_replicate]
    omega
  have hdigits : ∀ c ∈ digits (n / 10 ^ places) ++ padZeros places (digits (n % 10 ^ places)),
      Json.isDigit c = true := by
    intro c hc
    exact (List.mem_append.mp hc).elim Json.isDigit_of_mem_digits Text.isDigit_of_mem_padZeros
  have hwhole : '.' ∉ digits (n / 10 ^ places) := fun h =>
    absurd (hdigits _ (List.mem_append_left _ h)) (by decide)
  have hrest : '.' ∉ padZeros places (digits (n % 10 ^ places)) := fun h =>
    absurd (hdigits _ (List.mem_append_right _ h)) (by decide)
  have hvalue : ofDigits (digits (n / 10 ^ places) ++ padZeros places (digits (n % 10 ^ places))) =
      n := by
    rw [ofDigits_append, hlength, ofDigits_padZeros, ofDigits_digits, ofDigits_digits]
    exact Nat.div_add_mod' n (10 ^ places)
  simp only [ofFixed?, pointed, hten, if_neg hp.ne',
    List.splitOn_append_cons_self_of_not_mem hwhole, List.splitOn_eq_singleton hrest]
  rw [if_pos ⟨digits_ne_nil _, hlength, List.all_eq_true.mpr hdigits⟩, hvalue]

end Digits

/-- A number that is near to the exact one stays near to it when it is set with decimal places. -/
theorem near_fixedChars {places : ℕ} (hp : 0 < places) {x : Float} {m : ℕ} {e : ℤ} {r : ℚ}
    (hx : Binary64.read x = .finite false m e) (hr : |(m : ℚ) * 2 ^ e - r| ≤ r / 2 ^ 53) :
    Near places (fixedChars places x) r := by
  have hten : ((tenTo places : ℕ) : ℚ) = 10 ^ places := by
    rw [tenTo, Nat.pow_eq, Nat.cast_pow, Nat.cast_ofNat]
  have hpos : (0 : ℚ) < 10 ^ places := by positivity
  refine ⟨roundScaled (m * tenTo places) e, ?_, ?_⟩
  · simp only [fixedChars, hx, signed]
    exact ofFixed?_pointed hp _
  · have hround := abs_roundScaled_sub_le (m * tenTo places) e
    rw [Nat.cast_mul, hten] at hround
    generalize (roundScaled (m * tenTo places) e : ℚ) = k at *
    have hunits : |k / 10 ^ places - m * 2 ^ e| ≤ 1 / (2 * 10 ^ places) := by
      have hscale : k / 10 ^ places - m * 2 ^ e = (k - m * 10 ^ places * 2 ^ e) / 10 ^ places := by
        field_simp
      rw [hscale, abs_div, abs_of_pos hpos, div_le_div_iff₀ hpos (by positivity)]
      linarith [mul_le_mul_of_nonneg_right hround (by positivity : (0 : ℚ) ≤ 2 * 10 ^ places)]
    calc |k / 10 ^ places - r|
        ≤ |k / 10 ^ places - m * 2 ^ e| + |m * 2 ^ e - r| := abs_sub_le _ _ _
      _ ≤ 1 / (2 * 10 ^ places) + r / 2 ^ 53 := add_le_add hunits hr

end ReverseSweep.Decimal
