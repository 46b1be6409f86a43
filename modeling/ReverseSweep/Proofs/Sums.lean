import ReverseSweep.Summation
import ReverseSweep.Proofs.Operations

/-! Sums of doubles that are not negative. Whatever the order of the additions is, a sum of `n`
numbers is off by `n - 1` last places at most. -/

namespace ReverseSweep

open Binary64 (value? Moderate)

/-- The double is a sum of so many numbers that comes to `q`, but for a last place for each addition.
Each number was 0 or neither too large nor too small. -/
structure Sums (n : ℕ) (x : Float) (q : ℚ) : Prop where
  pos : 1 ≤ n
  low : q = 0 ∨ 1 / 2 ^ 100 ≤ q
  high : q ≤ n * 2 ^ 100
  near : ∃ v, value? x = some v ∧ |v - q| ≤ (n - 1) * q / 2 ^ 52

namespace Sums

variable {a b n : ℕ} {x y : Float} {p q : ℚ}

theorem nonneg (h : Sums n x q) : 0 ≤ q := h.low.elim Eq.ge fun h => le_trans (by positivity) h

theorem one_le (h : Sums n x q) : (1 : ℚ) ≤ n := by exact_mod_cast h.pos

theorem of_value? {v : ℚ} (hx : value? x = some v) (hv : v = 0 ∨ 1 / 2 ^ 100 ≤ v ∧ v ≤ 2 ^ 100) :
    Sums 1 x v where
  pos := Nat.le_refl 1
  low := hv.imp_right And.left
  high := hv.elim (fun h => by rw [h]; positivity) fun h => by rw [Nat.cast_one, one_mul]; exact h.2
  near := ⟨v, hx, by simp⟩

/-- The value of a sum is between a half and the double of what it comes to. -/
theorem exists_value (h : Sums n x q) (hn : n ≤ 2 ^ 48) : ∃ v, value? x = some v ∧
    |v - q| ≤ (n - 1) * q / 2 ^ 52 ∧ q / 2 ≤ v ∧ v ≤ 2 * q := by
  obtain ⟨v, hv, hnear⟩ := h.near
  have hn' : (n : ℚ) ≤ 2 ^ 48 := by exact_mod_cast hn
  have hq := h.nonneg
  have herror : (n - 1) * q ≤ 2 ^ 48 * q := mul_le_mul_of_nonneg_right (by linarith) hq
  obtain ⟨hbelow, habove⟩ := abs_le.mp hnear
  exact ⟨v, hv, hnear, by linarith, by linarith⟩

section Moderate

variable {v : ℚ}

theorem moderate (h : Sums n x q) (hn : n ≤ 2 ^ 48) (hlow : q / 2 ≤ v) (hhigh : v ≤ 2 * q) :
    Moderate v := by
  have hn' : (n : ℚ) ≤ 2 ^ 48 := by exact_mod_cast hn
  have hmost := h.high
  rcases h.low with rfl | hq
  · exact .inl (by linarith)
  · exact .inr ⟨by linarith, by linarith⟩

theorem moderate_mean (h : Sums n x q) (hn : n ≤ 2 ^ 48) (hlow : q / 2 ≤ v) (hhigh : v ≤ 2 * q) :
    Moderate (v / n) := by
  have hn' : (n : ℚ) ≤ 2 ^ 48 := by exact_mod_cast hn
  have hone := h.one_le
  have hpos : (0 : ℚ) < n := by linarith
  have hmost := h.high
  rcases h.low with rfl | hq
  · exact .inl (by rw [show v = 0 by linarith, zero_div])
  · refine .inr ⟨?_, ?_⟩
    · rw [le_div_iff₀ hpos]
      linarith
    · rw [div_le_iff₀ hpos]
      linarith

end Moderate

/-- Adding two sums costs one more last place. -/
theorem add (hx : Sums a x p) (hy : Sums b y q) (hn : a + b ≤ 2 ^ 48) :
    Sums (a + b) (x + y) (p + q) := by
  obtain ⟨v, hv, hvnear, hvlow, hvhigh⟩ := hx.exists_value (by omega)
  obtain ⟨w, hw, hwnear, hwlow, hwhigh⟩ := hy.exists_value (by omega)
  have hp := hx.nonneg
  have hq := hy.nonneg
  have ha := hx.one_le
  have hb := hy.one_le
  have hn' : (a + b : ℚ) ≤ 2 ^ 48 := by exact_mod_cast hn
  have hpmost := hx.high
  have hqmost := hy.high
  have hlow : p + q = 0 ∨ 1 / 2 ^ 100 ≤ p + q := by
    rcases hx.low with rfl | hp'
    · rw [zero_add]
      exact hy.low
    · exact .inr (by linarith)
  have hsum : Moderate (v + w) := by
    rcases hlow with hzero | hlow
    · exact .inl (by linarith)
    · exact .inr ⟨by linarith, by linarith⟩
  obtain ⟨z, hz, hznear⟩ := Binary64.exists_value_add hv hw
    (hx.moderate (by omega) hvlow hvhigh) (hy.moderate (by omega) hwlow hwhigh) hsum
  refine ⟨Nat.le_add_right_of_le hx.pos, hlow, by push_cast; linarith, z, hz, ?_⟩
  have hparts : |v + w - (p + q)| ≤ (a - 1) * p / 2 ^ 52 + (b - 1) * q / 2 ^ 52 := by
    rw [add_sub_add_comm]
    exact (abs_add_le _ _).trans (add_le_add hvnear hwnear)
  have hrest : 0 ≤ (b - 1) * p + (a - 1) * q :=
    add_nonneg (mul_nonneg (by linarith) hp) (mul_nonneg (by linarith) hq)
  push_cast
  calc |z - (p + q)| ≤ |z - (v + w)| + |v + w - (p + q)| := abs_sub_le _ _ _
    _ ≤ (a + b - 1) * (p + q) / 2 ^ 52 := by linarith

/-- The count is exact, so that the division only adds an error of its own. -/
theorem exists_value_mean (h : Sums n x q) (hn : n ≤ 2 ^ 48) :
    ∃ v, value? (x / nearestQuotient n 1) = some v ∧ |v - q / n| ≤ q / 2 ^ 52 := by
  have hpos := h.pos
  have hq := h.nonneg
  have hone := h.one_le
  have hlog : n.log2 < 53 := (Nat.log2_lt (by omega)).mpr (by omega)
  have hcount := Binary64.value?_nearestQuotient_one (by omega) (Nat.le_of_lt_succ hlog)
  obtain ⟨v, hv, hnear, hlow, hhigh⟩ := h.exists_value hn
  obtain ⟨w, hw, hwnear⟩ := Binary64.exists_value_div hv hcount (h.moderate hn hlow hhigh)
    (by linarith) (h.moderate_mean hn hlow hhigh)
  refine ⟨w, hw, ?_⟩
  calc |w - q / n| ≤ |w - v / n| + |v / n - q / n| := abs_sub_le _ _ _
    _ ≤ v / n / 2 ^ 53 + (n - 1) * q / 2 ^ 52 / n := by
      refine add_le_add hwnear ?_
      rw [← sub_div, abs_div, abs_of_pos (by linarith : (0 : ℚ) < n)]
      exact div_le_div_of_nonneg_right hnear (by linarith)
    _ ≤ 2 * q / n / 2 ^ 53 + (n - 1) * q / 2 ^ 52 / n := by gcongr
    _ = q / 2 ^ 52 := by
      field_simp
      ring

end Sums

/-- Partial sums, of so many numbers altogether, that come to `q`. -/
inductive Parts : ℕ → List Float → ℚ → Prop
  | nil : Parts 0 [] 0
  | cons {a b : ℕ} {x : Float} {xs : List Float} {p q : ℚ} (hx : Sums a x p) (hxs : Parts b xs q) :
    Parts (a + b) (x :: xs) (p + q)

namespace Parts

variable {a b n : ℕ} {x : Float} {xs ys : List Float} {p q : ℚ}

theorem of_values {qs : List ℚ} (h : xs.map value? = qs.map some)
    (hqs : ∀ q ∈ qs, q = 0 ∨ 1 / 2 ^ 100 ≤ q ∧ q ≤ 2 ^ 100) : Parts xs.length xs qs.sum := by
  induction xs generalizing qs with
  | nil =>
    obtain rfl : qs = [] := by simpa using h.symm
    exact .nil
  | cons x xs ih =>
    cases qs with
    | nil => cases h
    | cons q qs =>
      obtain ⟨hx, hxs⟩ := List.cons.inj h
      obtain ⟨hq, hqs⟩ := List.forall_mem_cons.mp hqs
      rw [List.length_cons, Nat.add_comm, List.sum_cons]
      exact .cons (.of_value? hx hq) (ih hxs hqs)

theorem append_iff : Parts n (xs ++ ys) q ↔
    ∃ a b r s, n = a + b ∧ q = r + s ∧ Parts a xs r ∧ Parts b ys s := by
  induction xs generalizing n q with
  | nil =>
    constructor
    · intro h
      exact ⟨0, n, 0, q, (Nat.zero_add n).symm, (zero_add q).symm, .nil, h⟩
    · rintro ⟨_, b, _, s, rfl, rfl, hnil, h⟩
      cases hnil
      rwa [Nat.zero_add, zero_add]
  | cons x xs ih =>
    constructor
    · intro h
      cases h with
      | @cons a b _ _ p q hx hxs =>
        obtain ⟨c, d, r, s, rfl, rfl, hxs, hys⟩ := ih.mp hxs
        exact ⟨a + c, d, p + r, s, (Nat.add_assoc a c d).symm, (add_assoc p r s).symm,
          .cons hx hxs, hys⟩
    · rintro ⟨_, d, _, s, rfl, rfl, hxs, hys⟩
      cases hxs with
      | @cons a c _ _ p r hx hxs =>
        rw [Nat.add_assoc, add_assoc]
        exact .cons hx (ih.mpr ⟨c, d, r, s, rfl, rfl, hxs, hys⟩)

theorem foldl (hx : Sums a x p) (h : Parts b xs q) (hn : a + b ≤ 2 ^ 48) :
    Sums (a + b) (xs.foldl (· + ·) x) (p + q) := by
  induction h generalizing a x p with
  | nil => simpa using hx
  | @cons c d y ys r s hy hys ih =>
    rw [← Nat.add_assoc] at hn ⊢
    rw [← add_assoc]
    exact ih (hx.add hy (by omega)) hn

theorem runningSum (h : Parts n xs q) (hne : xs ≠ []) (hn : n ≤ 2 ^ 48) :
    Sums n (ReverseSweep.runningSum xs) q := by
  cases h with
  | nil => exact absurd rfl hne
  | cons hx hxs => exact hxs.foldl hx hn

theorem zipWith (hxs : Parts a xs p) (hys : Parts b ys q) (hlength : xs.length = ys.length)
    (hn : a + b ≤ 2 ^ 48) : Parts (a + b) (List.zipWith (· + ·) xs ys) (p + q) := by
  induction hxs generalizing b ys q with
  | nil =>
    obtain rfl : ys = [] := List.length_eq_zero_iff.mp hlength.symm
    cases hys
    simpa using Parts.nil
  | @cons a c x xs p r hx hxs ih =>
    cases hys with
    | nil => cases hlength
    | @cons b d y ys q s hy hys =>
      rw [Nat.add_add_add_comm, add_add_add_comm p]
      exact .cons (hx.add hy (by omega)) (ih hys (Nat.succ.inj hlength) (by omega))

theorem pairUp (h : Parts n xs q) (hn : n ≤ 2 ^ 48) : Parts n (Summation.pairUp xs) q := by
  induction xs using Summation.pairUp.induct generalizing n q with
  | case1 x y rest ih =>
    cases h with
    | @cons a c _ _ p r hx hxs =>
      cases hxs with
      | @cons b d _ _ s t hy hrest =>
        rw [← Nat.add_assoc, ← add_assoc, Summation.pairUp]
        exact .cons (hx.add hy (by omega)) (ih hrest (by omega))
  | case2 rest hshort =>
    rwa [Summation.pairUp]
    exact hshort

theorem addRounds (fuel : ℕ) {sums : List Float} (hsums : Parts a sums p) (h : Parts b xs q)
    (hlength : sums.length = Summation.lanes) (hn : a + b ≤ 2 ^ 48) :
    ∃ c d r s, a + b = c + d ∧ p + q = r + s ∧ Parts c (Summation.addRounds fuel sums xs).1 r ∧
      Parts d (Summation.addRounds fuel sums xs).2 s ∧
      (Summation.addRounds fuel sums xs).1.length = Summation.lanes := by
  induction fuel generalizing a b xs sums p q with
  | zero => exact ⟨a, b, p, q, rfl, rfl, hsums, h, hlength⟩
  | succ fuel ih =>
    rw [Summation.addRounds]
    split_ifs with hshort
    · exact ⟨a, b, p, q, rfl, rfl, hsums, h, hlength⟩
    · rw [← List.take_append_drop Summation.lanes xs] at h
      obtain ⟨c, d, r, s, rfl, rfl, htake, hdrop⟩ := append_iff.mp h
      have htaken : sums.length = (xs.take Summation.lanes).length := by
        rw [hlength, List.length_take, Nat.min_eq_left (Nat.not_lt.mp hshort)]
      rw [← Nat.add_assoc] at hn ⊢
      rw [← add_assoc]
      exact ih (hsums.zipWith htake htaken (by omega)) hdrop (by simp [← htaken, hlength]) hn

theorem pairUp_ne_nil (h : xs ≠ []) : Summation.pairUp xs ≠ [] := by
  rcases xs with _ | ⟨x, _ | ⟨y, rest⟩⟩
  · exact absurd rfl h
  · exact List.cons_ne_nil x []
  · exact List.cons_ne_nil (x + y) _

theorem blockSum (h : Parts n xs q) (hne : xs ≠ []) (hn : n ≤ 2 ^ 48) :
    Sums n (Summation.blockSum xs) q := by
  rw [Summation.blockSum]
  split_ifs with hshort
  · exact h.runningSum hne hn
  · rw [← List.take_append_drop Summation.lanes xs] at h
    obtain ⟨a, b, r, s, rfl, rfl, htake, hdrop⟩ := append_iff.mp h
    have hlanes : (xs.take Summation.lanes).length = Summation.lanes := by
      rw [List.length_take, Nat.min_eq_left (Nat.not_lt.mp hshort)]
    obtain ⟨c, d, t, u, hcount, htotal, hsums, hrest, hlength⟩ :=
      addRounds xs.length htake hdrop hlanes hn
    rw [hcount] at hn ⊢
    rw [htotal]
    have hsome : (Summation.addRounds xs.length (xs.take Summation.lanes)
        (xs.drop Summation.lanes)).1 ≠ [] := by
      intro hnil
      rw [hnil] at hlength
      cases hlength
    have hpaired := ((hsums.pairUp (by omega)).pairUp (by omega)).pairUp (by omega)
    exact hrest.foldl (hpaired.runningSum (pairUp_ne_nil (pairUp_ne_nil (pairUp_ne_nil hsome)))
      (by omega)) hn

theorem halvedSum (fuel : ℕ) (h : Parts n xs q) (hne : xs ≠ []) (hn : n ≤ 2 ^ 48) :
    Sums n (Summation.halvedSum fuel xs) q := by
  induction fuel generalizing n xs q with
  | zero => exact h.blockSum hne hn
  | succ fuel ih =>
    rw [Summation.halvedSum]
    split_ifs with hshort
    · exact h.blockSum hne hn
    · have hlarge : 128 < xs.length := Nat.not_le.mp hshort
      have hhalf : 0 < Summation.firstHalf xs.length ∧
          Summation.firstHalf xs.length < xs.length := by
        simp only [Summation.firstHalf, Summation.lanes]
        omega
      rw [← List.take_append_drop (Summation.firstHalf xs.length) xs] at h
      obtain ⟨a, b, r, s, rfl, rfl, htake, hdrop⟩ := append_iff.mp h
      have hfirst : xs.take (Summation.firstHalf xs.length) ≠ [] :=
        List.ne_nil_of_length_pos (by
          rw [List.length_take]
          omega)
      have hsecond : xs.drop (Summation.firstHalf xs.length) ≠ [] :=
        List.ne_nil_of_length_pos (by
          rw [List.length_drop]
          omega)
      exact (ih htake hfirst (by omega)).add (ih hdrop hsecond (by omega)) hn

theorem pairwiseSum (h : Parts n xs q) (hne : xs ≠ []) (hn : n ≤ 2 ^ 48) :
    Sums n (ReverseSweep.pairwiseSum xs) q := h.halvedSum xs.length hne hn

end Parts
end ReverseSweep
