import ReverseSweep.Experiment.BudgetGrid
import ReverseSweep.Proofs.Sums

/-! Means of numbers that are nearly exact. Doubles are rounded at every addition, whatever the order
of the additions is, so that only how near a mean comes can be told. -/

namespace ReverseSweep.BudgetGrid

open Binary64 (value? Moderate)

/-- The number but for the rounding to a double. -/
def NearlyIs (x : Float) (r : ℚ) : Prop := ∃ q, value? x = some q ∧ |q - r| ≤ r / 2 ^ 53

theorem nearlyIs_of_read {x : Float} {r : ℚ} {m : ℕ} {e : ℤ}
    (hread : Binary64.read x = .finite false m e) (hnear : |(m : ℚ) * 2 ^ e - r| ≤ r / 2 ^ 53) :
    NearlyIs x r := ⟨m * 2 ^ e, by rw [value?, hread]; rfl, hnear⟩

/-- How far averaging may be off, as long as the numbers are 0 or far from the ends of what doubles
hold: a last place for each of the additions, and half of the fourth decimal place. -/
structure Averaging.Accurate (a : Averaging) : Prop where
  mean_near : ∀ (columns : ℕ) (xs : List Float) (qs : List ℚ), qs ≠ [] → qs.length ≤ 2 ^ 48 →
    xs.map value? = qs.map some → (∀ q ∈ qs, q = 0 ∨ 1 / 2 ^ 100 ≤ q ∧ q ≤ 2 ^ 100) →
    ∃ v, value? (a.mean columns xs) = some v ∧ |v - qs.sum / qs.length| ≤ qs.sum / 2 ^ 52
  rounded_near : ∀ (x : Float) (q : ℚ), value? x = some q →
    (q = 0 ∨ 1 / 2 ^ 200 ≤ q ∧ q ≤ 2 ^ 200) →
    ∃ v, value? (a.rounded x) = some v ∧ |v - q| ≤ 1 / 20000 + q / 2 ^ 51

section Sums

variable {α : Type} {f g : α → ℚ} {l : List α} {b : ℚ}

theorem abs_sum_sub_le (h : ∀ a ∈ l, |f a - g a| ≤ g a / b) :
    |(l.map f).sum - (l.map g).sum| ≤ (l.map g).sum / b := by
  induction l with
  | nil => simp
  | cons a l ih =>
    obtain ⟨ha, hl⟩ := List.forall_mem_cons.mp h
    simp only [List.map_cons, List.sum_cons]
    calc |f a + (l.map f).sum - (g a + (l.map g).sum)|
        = |(f a - g a) + ((l.map f).sum - (l.map g).sum)| := by ring_nf
      _ ≤ |f a - g a| + |(l.map f).sum - (l.map g).sum| := abs_add_le _ _
      _ ≤ g a / b + (l.map g).sum / b := add_le_add ha (ih hl)
      _ = (g a + (l.map g).sum) / b := by ring

theorem sum_le_length_mul (h : ∀ a ∈ l, g a ≤ b) : (l.map g).sum ≤ l.length * b := by
  have hsum := List.sum_le_card_nsmul (l.map g) b (by simpa using h)
  simpa using hsum

/-- A sum of numbers that are 0 or large enough is 0 or large enough. -/
theorem sum_eq_zero_or_le {qs : List ℚ} {b : ℚ} (hb : 0 ≤ b) (h : ∀ q ∈ qs, q = 0 ∨ b ≤ q) :
    qs.sum = 0 ∨ b ≤ qs.sum := by
  have hnonneg : ∀ q ∈ qs, 0 ≤ q := fun q hq => (h q hq).elim Eq.ge hb.trans
  by_cases hzero : ∀ q ∈ qs, q = 0
  · exact .inl (List.sum_eq_zero hzero)
  · obtain ⟨q, hq⟩ := not_forall.mp hzero
    obtain ⟨hq, hne⟩ := Classical.not_imp.mp hq
    exact .inr (((h q hq).resolve_left hne).trans (List.single_le_sum hnonneg q hq))

/-- The errors of the numbers, of their sum and of the division add up. -/
theorem mean_bounds {E Q n mean : ℚ} (hn : 1 ≤ n) (hn' : n ≤ 2 ^ 48) (hE : 0 ≤ E)
    (hQ : |Q - E| ≤ E / 2 ^ 53) (hmean : |mean - Q / n| ≤ Q / 2 ^ 52) :
    0 ≤ mean ∧ mean ≤ 2 * E ∧ |mean - E / n| ≤ E / 2 ^ 50 - mean / 2 ^ 51 := by
  have hpos : 0 < n := by linarith
  obtain ⟨hQbelow, hQabove⟩ := abs_le.mp hQ
  obtain ⟨hbelow, habove⟩ := abs_le.mp hmean
  have hQnonneg : 0 ≤ Q := by linarith
  have hshare : Q / n ≤ Q := div_le_self hQnonneg hn
  have hshare' : Q / 2 ^ 48 ≤ Q / n := div_le_div_of_nonneg_left hQnonneg hpos hn'
  have hdifference : |Q / n - E / n| ≤ E / 2 ^ 53 := by
    rw [← sub_div, abs_div, abs_of_pos hpos]
    exact (div_le_self (abs_nonneg _) hn).trans hQ
  obtain ⟨hdbelow, hdabove⟩ := abs_le.mp hdifference
  refine ⟨by linarith, by linarith, abs_le.mpr ⟨by linarith, by linarith⟩⟩

theorem mean_eq_zero_or_le {Q n mean : ℚ} (hn : 1 ≤ n) (hn' : n ≤ 2 ^ 48)
    (hQ : Q = 0 ∨ 1 / 2 ^ 100 ≤ Q) (hmean : |mean - Q / n| ≤ Q / 2 ^ 52) :
    mean = 0 ∨ 1 / 2 ^ 200 ≤ mean := by
  obtain ⟨hbelow, habove⟩ := abs_le.mp hmean
  rcases hQ with rfl | hQ
  · simp only [zero_div, neg_zero, sub_zero] at hbelow habove
    exact .inl (le_antisymm habove hbelow)
  · have hshare : Q / 2 ^ 48 ≤ Q / n :=
      div_le_div_of_nonneg_left (by linarith) (by linarith) hn'
    exact .inr (by linarith)

end Sums

section Means

variable {a : Averaging} {α : Type} {f : α → Float} {g : α → ℚ} {l : List α}

theorem exists_values (hf : ∀ a ∈ l, NearlyIs (f a) (g a)) :
    ∃ q : α → ℚ, ∀ a ∈ l, value? (f a) = some (q a) ∧ |q a - g a| ≤ g a / 2 ^ 53 := by
  have hreads : ∀ a, ∃ q : ℚ, a ∈ l → value? (f a) = some q ∧ |q - g a| ≤ g a / 2 ^ 53 := by
    intro a
    by_cases hmem : a ∈ l
    · obtain ⟨q, hq⟩ := hf a hmem
      exact ⟨q, fun _ => hq⟩
    · exact ⟨0, fun h => absurd h hmem⟩
  choose q hq using hreads
  exact ⟨q, hq⟩

theorem moderate_of_near {q r : ℚ} (hr : r = 0 ∨ 1 / 2 ^ 64 ≤ r ∧ r ≤ 2 ^ 64)
    (hnear : |q - r| ≤ r / 2 ^ 53) : q = 0 ∨ 1 / 2 ^ 100 ≤ q ∧ q ≤ 2 ^ 100 := by
  obtain ⟨hbelow, habove⟩ := abs_le.mp hnear
  rcases hr with rfl | ⟨hleast, hgreatest⟩
  · exact .inl (by linarith)
  · exact .inr ⟨by linarith, by linarith⟩

/-- The mean of nearly exact numbers, to four decimal places, is near to their exact mean. -/
theorem Averaging.Accurate.exists_mean_near (ha : a.Accurate) (columns : ℕ) (hne : l ≠ [])
    (hlength : l.length ≤ 2 ^ 48) (hf : ∀ a ∈ l, NearlyIs (f a) (g a))
    (hg : ∀ a ∈ l, g a = 0 ∨ 1 / 2 ^ 64 ≤ g a ∧ g a ≤ 2 ^ 64) :
    ∃ v, value? (a.rounded (a.mean columns (l.map f))) = some v ∧
      |v - (l.map g).sum / l.length| ≤ 1 / 20000 + (l.map g).sum / 2 ^ 50 := by
  obtain ⟨q, hq⟩ := exists_values hf
  have hmoderate : ∀ a ∈ l, q a = 0 ∨ 1 / 2 ^ 100 ≤ q a ∧ q a ≤ 2 ^ 100 := fun a hmem =>
    moderate_of_near (hg a hmem) (hq a hmem).2
  obtain ⟨mean, hmean, hnear⟩ := ha.mean_near columns (l.map f) (l.map q) (by simpa using hne)
    (by simpa using hlength) (by simpa using fun a hmem => (hq a hmem).1)
    (by simpa using hmoderate)
  have hsum := abs_sum_sub_le fun a hmem => (hq a hmem).2
  have hleast : (l.map q).sum = 0 ∨ 1 / 2 ^ 100 ≤ (l.map q).sum :=
    sum_eq_zero_or_le (by positivity)
      (by simpa using fun a hmem => (hmoderate a hmem).imp_right And.left)
  have hmost : (l.map g).sum ≤ l.length * 2 ^ 64 := sum_le_length_mul fun a hmem =>
    (hg a hmem).elim (fun h => by rw [h]; positivity) And.right
  have hnonneg : 0 ≤ (l.map g).sum := List.sum_nonneg (by
    simp only [List.mem_map, forall_exists_index, and_imp, forall_apply_eq_imp_iff₂]
    exact fun a hmem => (hg a hmem).elim (fun h => h.ge) fun h => by linarith [h.1])
  have hcount : (1 : ℚ) ≤ l.length := by
    exact_mod_cast List.length_pos_iff.mpr hne
  have hcount' : (l.length : ℚ) ≤ 2 ^ 48 := by exact_mod_cast hlength
  rw [List.length_map] at hnear
  obtain ⟨hmeanNonneg, hmeanLe, hmeanNear⟩ := mean_bounds hcount hcount' hnonneg hsum hnear
  have hmeanModerate : mean = 0 ∨ 1 / 2 ^ 200 ≤ mean ∧ mean ≤ 2 ^ 200 :=
    (mean_eq_zero_or_le hcount hcount' hleast hnear).imp_right fun h => ⟨h, by linarith⟩
  obtain ⟨v, hv, hround⟩ := ha.rounded_near _ mean hmean hmeanModerate
  refine ⟨v, hv, ?_⟩
  calc |v - (l.map g).sum / l.length|
      ≤ |v - mean| + |mean - (l.map g).sum / l.length| := abs_sub_le _ _ _
    _ ≤ 1 / 20000 + (l.map g).sum / 2 ^ 50 := by linarith

end Means

section Summing

theorem nearlyIs_nearestQuotient {num den : ℕ} (hden : 0 < den)
    (hlow : (num / den : ℚ) = 0 ∨ 1 / 2 ^ 250 ≤ (num / den : ℚ)) (hhigh : (num / den : ℚ) ≤ 2 ^ 250) :
    NearlyIs (nearestQuotient num den) (num / den) := by
  obtain ⟨m, e, hread, hnear⟩ := Binary64.exists_read_nearestQuotient hden hlow hhigh
  exact nearlyIs_of_read hread hnear

theorem value?_tenThousand : value? 10000 = some 10000 := by
  have hread : Binary64.read 10000 = .finite false 5497558138880000 (-39) := by rfl
  rw [value?, hread]
  simp only [Binary64.Reading.value?, Binary64.signed]
  norm_num

theorem roundScaled_zero (e : ℤ) : roundScaled 0 e = 0 := by
  cases e <;> simp [roundScaled, roundQuotient]

theorem exists_roundedToFour_eq {x : Float} {w : ℚ} (hw : value? (x * 10000) = some w)
    (hnonneg : 0 ≤ w) : ∃ (m : ℕ) (e : ℤ),
      roundedToFour x = nearestQuotient (roundScaled m e) 10000 ∧ w = m * 2 ^ e := by
  rw [value?] at hw
  cases hread : Binary64.read (x * 10000) with
  | finite negative m e =>
    rw [hread] at hw
    obtain rfl := Option.some.inj hw
    rw [roundedToFour, hread]
    cases negative with
    | false => exact ⟨m, e, rfl, rfl⟩
    | true =>
      -- a negative zero, as the number is not negative
      have hpos : (0 : ℚ) < 2 ^ e := by positivity
      have hm : (m : ℚ) = 0 := by
        have hle := (mul_nonneg_iff_of_pos_right hpos).mp hnonneg
        simp only [Binary64.signed, if_true, Int.cast_neg, Int.cast_natCast] at hle
        exact le_antisymm (neg_nonneg.mp hle) m.cast_nonneg
      obtain rfl : m = 0 := by exact_mod_cast hm
      exact ⟨0, e, by simp [roundScaled_zero], rfl⟩
  | infinite negative =>
    rw [hread] at hw
    cases hw
  | notANumber =>
    rw [hread] at hw
    cases hw

/-- To four decimal places by way of ten thousandths, rounded three times. -/
theorem exists_roundedToFour_near {x : Float} {q : ℚ} (hx : value? x = some q)
    (hq : q = 0 ∨ 1 / 2 ^ 200 ≤ q ∧ q ≤ 2 ^ 200) :
    ∃ v, value? (roundedToFour x) = some v ∧ |v - q| ≤ 1 / 20000 + q / 2 ^ 51 := by
  have hnonneg : 0 ≤ q := hq.elim Eq.ge fun h => le_trans (by positivity) h.1
  obtain ⟨w, hw, hwnear⟩ := Binary64.exists_value_mul hx value?_tenThousand
    (hq.imp_right fun h => ⟨by linarith, by linarith⟩) (by norm_num)
    (hq.imp (fun h => by rw [h, zero_mul]) fun h => ⟨by linarith, by linarith⟩)
  obtain ⟨hwbelow, hwabove⟩ := abs_le.mp hwnear
  obtain ⟨m, e, hround, rfl⟩ := exists_roundedToFour_eq hw (by linarith)
  have hscaled := abs_roundScaled_sub_le m e
  rw [hround]
  generalize roundScaled m e = k at *
  obtain ⟨hbelow, habove⟩ := abs_le.mp hscaled
  have hk : k = 0 ∨ (1 : ℚ) ≤ k :=
    (Nat.eq_zero_or_pos k).imp_right fun hpos => by exact_mod_cast hpos
  have hlow : (k / 10000 : ℚ) = 0 ∨ 1 / 2 ^ 250 ≤ (k / 10000 : ℚ) :=
    hk.imp (fun h => by rw [h, Nat.cast_zero, zero_div]) fun h => by linarith
  have hmost : q ≤ 2 ^ 200 := hq.elim (fun h => by rw [h]; positivity) And.right
  have hhigh : (k / 10000 : ℚ) ≤ 2 ^ 250 := by linarith
  -- what is rounded to 0 is small itself, all else is at least half of what it is rounded to
  have herror : (k / 10000 : ℚ) ≤ 3 * q := by
    rcases hk with rfl | hk
    · rw [Nat.cast_zero, zero_div]
      positivity
    · linarith
  obtain ⟨v, hv, hnear⟩ := nearlyIs_nearestQuotient (by decide) hlow hhigh
  obtain ⟨hvbelow, hvabove⟩ := abs_le.mp hnear
  push_cast at hvbelow hvabove
  exact ⟨v, hv, abs_le.mpr ⟨by linarith, by linarith⟩⟩

/-- Both orders of the additions are accurate. -/
theorem Averaging.summing_accurate : Averaging.summing.Accurate where
  mean_near columns xs qs hne hlength hxs hmoderate := by
    have hparts := Parts.of_values hxs hmoderate
    have hsame : xs.length = qs.length := by simpa using congrArg List.length hxs
    have hsome : xs ≠ [] := List.ne_nil_of_length_pos (by
      rw [hsame]
      exact List.length_pos_iff.mpr hne)
    rw [← hsame] at hlength ⊢
    refine Sums.exists_value_mean ?_ hlength
    split_ifs
    · exact hparts.pairwiseSum hsome hlength
    · exact hparts.runningSum hsome hlength
  rounded_near _ _ hx hmoderate := exists_roundedToFour_near hx hmoderate

end Summing
end ReverseSweep.BudgetGrid
