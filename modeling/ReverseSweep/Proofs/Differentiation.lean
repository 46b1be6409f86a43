import ReverseSweep.Experiment.Differentiation

/-! The rules that gradients follow, one for each operation that is recorded. They are asked for only
where all numbers are whole, so of the hyperbolic tangent only at 0 and far from 0. -/

namespace ReverseSweep.RecurrenceGradient

/-- Where the hyperbolic tangent is whole once it is rounded to a double. -/
def Settled (a : Int) : Prop := a = 0 ∨ 32 ≤ a ∨ a ≤ -32

instance (a : Int) : Decidable (Settled a) := inferInstanceAs (Decidable (_ ∨ _ ∨ _))

/-- The derivatives of the operations, and the chain rule. -/
structure Differentiator.Lawful [Differentiator] : Prop where
  tanh_zero : tanh 0 = 0
  tanh_of_ge : ∀ a, 32 ≤ a → tanh a = 1
  tanh_of_le : ∀ a, a ≤ -32 → tanh a = -1
  pullback_leaf : ∀ x v, pullback .leaf x v = v
  /-- A product passes a cotangent on through the transposed weight. -/
  pullback_product : ∀ (w : Weight) (g : Graph) (x y v : Vector), g.value x = .ok y →
    (∀ row ∈ w.rows, row.length = y.length) → v.length = w.rows.length →
    pullback (.product w g) x v = pullback g x (w.transposedProduct y.length v)
  /-- A sum passes it on as it is. -/
  pullback_sum : ∀ (g : Graph) (bias x y v : Vector), g.value x = .ok y →
    bias.length = y.length → v.length = y.length → pullback (.sum g bias) x v = pullback g x v
  /-- The derivative of the hyperbolic tangent is 1 less its square. -/
  pullback_tanh : ∀ (g : Graph) (x y v : Vector), g.value x = .ok y → (∀ a ∈ y, Settled a) →
    v.length = y.length → pullback (.tanh g) x v =
      pullback g x (List.zipWith (fun a c => (1 - tanh a * tanh a) * c) y v)
  /-- Half the squared norm of a vector has the vector as its gradient. -/
  gradient_eq : ∀ (g : Graph) (x y : Vector), g.value x = .ok y → gradient g x = pullback g x y

theorem bind_eq_ok {α β : Type} {result : Except Fault α} {f : α → Except Fault β} {b : β} :
    (result >>= f) = .ok b ↔ ∃ a, result = .ok a ∧ f a = .ok b := by
  cases result <;> simp [Bind.bind, Except.bind]

theorem Weight.product_eq_ok {w : Weight} {x y : Vector} (h : w.product x = .ok y) :
    w.rows.map (dot · x) = y := by
  unfold Weight.product at h
  split at h
  · exact Except.ok.inj h
  · cases w <;> cases h

/-- What is computed is what the trace says. -/
theorem Graph.fst_trace {g : Graph} {x y : Vector} (h : g.value x = .ok y) : (g.trace x).1 = y := by
  induction g generalizing y with
  | leaf => exact Except.ok.inj h
  | product w g ih =>
    obtain ⟨z, hz, hy⟩ := bind_eq_ok.mp h
    exact (congrArg (fun z => w.rows.map (dot · z)) (ih hz)).trans (Weight.product_eq_ok hy)
  | sum g bias ih =>
    obtain ⟨z, hz, hy⟩ := bind_eq_ok.mp h
    have hsum : ((Graph.sum g bias).trace x).1 =
        (add (g.trace x).1 bias).toOption.getD (g.trace x).1 := rfl
    rw [hsum, ih hz, hy]
    rfl
  | tanh g ih =>
    obtain ⟨z, hz, hy⟩ := bind_eq_ok.mp h
    exact (congrArg (·.map Int.sign) (ih hz)).trans (Except.ok.inj hy)

theorem Differentiator.exact_lawful : exact.Lawful where
  tanh_zero := rfl
  tanh_of_ge a ha := Int.sign_eq_one_of_pos (by omega)
  tanh_of_le a ha := Int.sign_eq_neg_one_of_neg (by omega)
  pullback_leaf _ _ := rfl
  pullback_product w g x y v h _ _ := by
    simp only [pullback, Graph.trace, Graph.fst_trace h]
  pullback_sum g bias x y v h _ hv := by
    simp only [pullback, Graph.trace, Graph.fst_trace h]
    split
    · rename_i hone
      obtain ⟨c, rfl⟩ := List.length_eq_one_iff.mp (hv.trans hone)
      simp [total]
    · rfl
  pullback_tanh g x y v h _ _ := by
    simp only [pullback, Graph.trace, Graph.fst_trace h, List.zipWith_map_left]
    rfl
  gradient_eq g x y h := by
    simp only [gradient, pullback, Graph.fst_trace h]

end ReverseSweep.RecurrenceGradient
