import ReverseSweep.Decimal.Digits

/-! Decimal numerals read back. The digits of a number give that number again, so that different
numbers have different numerals, and only zero starts with a zero. -/

namespace ReverseSweep.Decimal

theorem digitValue_digit : ∀ d < 10, digitValue (digit d) = d := by decide

theorem digit_eq_zero_iff : ∀ d < 10, digit d = '0' ↔ d = 0 := by decide

theorem digit_ne_minus : ∀ d < 10, digit d ≠ '-' := by decide

theorem exists_digit_of_mem {n : Nat} {c : Char} (h : c ∈ digits n) : ∃ d < 10, c = digit d := by
  fun_induction digits n with
  | case1 n hn => exact ⟨n, hn, List.mem_singleton.mp h⟩
  | case2 n hn ih =>
    rcases List.mem_append.mp h with h | h
    · exact ih h
    · exact ⟨n % 10, Nat.mod_lt n (by decide), List.mem_singleton.mp h⟩

theorem digits_ne_nil (n : Nat) : digits n ≠ [] := by
  unfold digits
  split <;> simp

theorem ofDigits_concat (cs : List Char) (c : Char) :
    ofDigits (cs ++ [c]) = 10 * ofDigits cs + digitValue c := by
  simp [ofDigits]

theorem ofDigits_digits (n : Nat) : ofDigits (digits n) = n := by
  fun_induction digits n with
  | case1 n hn => simp [ofDigits, digitValue_digit n hn]
  | case2 n hn ih =>
    rw [ofDigits_concat, ih, digitValue_digit _ (Nat.mod_lt n (by decide))]
    exact Nat.div_add_mod n 10

theorem digits_injective : Function.Injective digits := by
  intro m n h
  rw [← ofDigits_digits m, h, ofDigits_digits]

theorem head?_digits_ne {n : Nat} (h : 0 < n) : (digits n).head? ≠ some '0' := by
  fun_induction digits n with
  | case1 n hn =>
    intro hzero
    have := (digit_eq_zero_iff n hn).mp (Option.some.inj hzero)
    omega
  | case2 n hn ih =>
    obtain ⟨c, cs, hcs⟩ := List.exists_cons_of_ne_nil (digits_ne_nil (n / 10))
    have hlead := ih (by omega)
    rw [hcs] at hlead ⊢
    exact hlead

/-- A numeral of more than one digit does not start with a zero. -/
theorem digits_lead (n : Nat) : (digits n).length = 1 ∨ (digits n).head? ≠ some '0' := by
  rcases Nat.eq_zero_or_pos n with rfl | hn
  · exact .inl (by simp [digits])
  · exact .inr (head?_digits_ne hn)

theorem digits_ne_minus (n : Nat) (cs : List Char) : digits n ≠ '-' :: cs := by
  intro h
  obtain ⟨d, hd, he⟩ := exists_digit_of_mem (h ▸ List.mem_cons_self : '-' ∈ digits n)
  exact digit_ne_minus d hd he.symm

theorem integerChars_injective : Function.Injective integerChars := by
  intro m n h
  cases m with
  | ofNat m =>
    cases n with
    | ofNat n => exact congrArg Int.ofNat (digits_injective h)
    | negSucc n => exact absurd h (digits_ne_minus m _)
  | negSucc m =>
    cases n with
    | ofNat n => exact absurd h.symm (digits_ne_minus n _)
    | negSucc n => exact congrArg Int.negSucc (Nat.succ.inj (digits_injective (List.cons.inj h).2))

theorem natural_injective : Function.Injective natural :=
  fun _ _ h => digits_injective (String.ofList_injective h)

theorem integer_injective : Function.Injective integer :=
  fun _ _ h => integerChars_injective (String.ofList_injective h)

end ReverseSweep.Decimal
