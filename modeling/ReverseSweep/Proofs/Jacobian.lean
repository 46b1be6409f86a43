import Mathlib.Algebra.BigOperators.Fin
import Mathlib.Data.Matrix.Mul
import ReverseSweep.Experiment.RecurrenceGradient
import ReverseSweep.Proofs.Differentiation
import ReverseSweep.Proofs.Trajectory

/-! Recurrences with a square weight, in terms of matrices. By the rules of differentiation a
cotangent that is pulled back through a step is multiplied with the transposed Jacobian there, and
one that is pulled back through all recorded steps with the Jacobians of all of them. -/

namespace ReverseSweep.RecurrenceGradient

open Matrix

variable {d : ℕ}

structure Square (d : ℕ) where
  weight : Matrix (Fin d) (Fin d) ℤ
  bias : Fin d → ℤ
  activation : Activation

namespace Square

def recurrence (A : Square d) : Recurrence where
  weight := .matrix (List.ofFn fun i => List.ofFn (A.weight i))
  bias := List.ofFn A.bias
  activation := A.activation

def affine (A : Square d) (x : Fin d → ℤ) : Fin d → ℤ := A.weight *ᵥ x + A.bias

/-- The hyperbolic tangent, if it is taken, is whole. -/
def SettledAt (A : Square d) (x : Fin d → ℤ) : Prop :=
  A.activation = .tanh → ∀ i, Settled (A.affine x i)

instance (A : Square d) (x : Fin d → ℤ) : Decidable (A.SettledAt x) :=
  inferInstanceAs (Decidable (_ → _))

variable [Differentiator]

def step (A : Square d) (x : Fin d → ℤ) : Fin d → ℤ :=
  match A.activation with
  | .identity => A.affine x
  | .tanh => fun i => Differentiator.tanh (A.affine x i)

def state (A : Square d) (x : Fin d → ℤ) (n : ℕ) : Fin d → ℤ := trajectory (fun _ => A.step) x n

/-- The matrix of partial derivatives of the step. That of the hyperbolic tangent is 1 less its
square. -/
def jacobian (A : Square d) (x : Fin d → ℤ) : Matrix (Fin d) (Fin d) ℤ :=
  match A.activation with
  | .identity => A.weight
  | .tanh => diagonal (fun i => 1 - A.step x i * A.step x i) * A.weight

/-- The state `count` steps after the step `i`, pulled back to there. -/
def gradientFrom (A : Square d) (x : Fin d → ℤ) (i count : ℕ) : Fin d → ℤ :=
  ((List.range' i count).map fun n => (A.jacobian (A.state x n))ᵀ).prod *ᵥ A.state x (i + count)

/-- The gradient of half the squared norm of the last state: that state, times the transposed
Jacobians of all steps. -/
def gradient (A : Square d) (x : Fin d → ℤ) (n : ℕ) : Fin d → ℤ :=
  ((List.range n).map fun n => (A.jacobian (A.state x n))ᵀ).prod *ᵥ A.state x n

end Square

theorem dot_ofFn (a b : Fin d → ℤ) : dot (List.ofFn a) (List.ofFn b) = a ⬝ᵥ b := by
  induction d with
  | zero => rfl
  | succ d ih =>
    rw [List.ofFn_succ, List.ofFn_succ, dot, ih]
    exact (Fin.sum_univ_succ fun i => a i * b i).symm

theorem add_ofFn (a b : Fin d → ℤ) :
    add (List.ofFn a) (List.ofFn b) = .ok (List.ofFn (a + b)) := by
  unfold add
  rw [if_pos (by simp)]
  congr 1
  apply List.ext_getElem <;> simp

namespace Weight

variable (W : Matrix (Fin d) (Fin d) ℤ)

theorem columns_ofFn : (matrix (List.ofFn fun i => List.ofFn (W i))).columns = d := by
  cases d with
  | zero => rfl
  | succ d => simp [columns, rows, List.ofFn_succ]

theorem product_ofFn (x : Fin d → ℤ) :
    (matrix (List.ofFn fun i => List.ofFn (W i))).product (List.ofFn x) =
      .ok (List.ofFn (W *ᵥ x)) := by
  rw [product, if_pos (by rw [columns_ofFn, List.length_ofFn])]
  simp only [rows, List.map_ofFn]
  congr 2
  funext i
  exact dot_ofFn (W i) x

theorem transposedProduct_ofFn (y : Fin d → ℤ) :
    (matrix (List.ofFn fun i => List.ofFn (W i))).transposedProduct d (List.ofFn y) =
      List.ofFn (Wᵀ *ᵥ y) := by
  apply List.ext_getElem
  · simp [transposedProduct]
  · intro j hj hj'
    have hd : j < d := by simpa using hj'
    have hcolumn : (List.ofFn fun i => List.ofFn (W i)).map (·.getD j 0) =
        List.ofFn (Wᵀ ⟨j, hd⟩) := by
      rw [List.map_ofFn]
      congr 1
      funext i
      simp [hd]
    simp only [transposedProduct, List.getElem_map, List.getElem_range, List.getElem_ofFn, rows,
      hcolumn, dot_ofFn]
    rfl

end Weight

namespace Square

variable [Differentiator] (A : Square d) (x : Fin d → ℤ) {g : Graph} {u : Vector}

theorem value_product {y : Fin d → ℤ} (h : g.value u = .ok (List.ofFn y)) :
    (Graph.product A.recurrence.weight g).value u = .ok (List.ofFn (A.weight *ᵥ y)) := by
  rw [Graph.value, h]
  exact Weight.product_ofFn A.weight y

theorem value_affine {y : Fin d → ℤ} (h : g.value u = .ok (List.ofFn y)) :
    (Graph.sum (.product A.recurrence.weight g) A.recurrence.bias).value u =
      .ok (List.ofFn (A.affine y)) := by
  rw [Graph.value, A.value_product h]
  exact add_ofFn _ _

theorem value_record {y : Fin d → ℤ} (h : g.value u = .ok (List.ofFn y)) :
    (A.recurrence.record g).value u = .ok (List.ofFn (A.step y)) := by
  have haffine := A.value_affine h
  have hactivation : A.recurrence.activation = A.activation := rfl
  rw [Recurrence.record, hactivation]
  cases hA : A.activation with
  | identity => simpa [Activation.record, step, hA] using haffine
  | tanh =>
    rw [Activation.record, Graph.value, haffine]
    simp [step, hA, Bind.bind, Except.bind, Function.comp_def]

theorem recurrence_step : A.recurrence.step (List.ofFn x) = .ok (List.ofFn (A.step x)) :=
  A.value_record rfl

theorem value_recorded (n : ℕ) :
    (A.recurrence.recorded n).value (List.ofFn x) = .ok (List.ofFn (A.state x n)) := by
  induction n with
  | zero => rfl
  | succ n ih => exact A.value_record ih

theorem exists_recurrence_pullback_eq_ok (cotangent : Vector) :
    ∃ y, A.recurrence.pullback (List.ofFn x) cotangent = .ok y := by
  simp [Recurrence.pullback, A.recurrence_step x, Bind.bind, Except.bind]

section Rules

variable (hd : Differentiator.Lawful)

include hd

theorem pullback_affine {y : Fin d → ℤ} (h : g.value u = .ok (List.ofFn y)) (v : Fin d → ℤ) :
    Differentiator.pullback (.sum (.product A.recurrence.weight g) A.recurrence.bias) u
      (List.ofFn v) = Differentiator.pullback g u (List.ofFn (A.weightᵀ *ᵥ v)) := by
  rw [hd.pullback_sum _ _ _ _ _ (A.value_product h) (by simp [recurrence]) (by simp),
    hd.pullback_product _ _ _ _ _ h (by simp [recurrence, Weight.rows])
      (by simp [recurrence, Weight.rows]), List.length_ofFn]
  exact congrArg _ (Weight.transposedProduct_ofFn A.weight v)

/-- A cotangent goes back through a step by the transposed Jacobian. -/
theorem pullback_record {y : Fin d → ℤ} (h : g.value u = .ok (List.ofFn y))
    (hsettled : A.SettledAt y) (v : Fin d → ℤ) :
    Differentiator.pullback (A.recurrence.record g) u (List.ofFn v) =
      Differentiator.pullback g u (List.ofFn ((A.jacobian y)ᵀ *ᵥ v)) := by
  have hactivation : A.recurrence.activation = A.activation := rfl
  rw [Recurrence.record, hactivation]
  cases hA : A.activation with
  | identity =>
    rw [Activation.record, A.pullback_affine hd h]
    simp [jacobian, hA]
  | tanh =>
    have hscaled : List.zipWith (fun a c => (1 - Differentiator.tanh a * Differentiator.tanh a) * c)
        (List.ofFn (A.affine y)) (List.ofFn v) =
        List.ofFn fun i => (1 - A.step y i * A.step y i) * v i := by
      apply List.ext_getElem <;> simp [step, hA]
    have hjacobian : (A.jacobian y)ᵀ *ᵥ v =
        A.weightᵀ *ᵥ fun i => (1 - A.step y i * A.step y i) * v i := by
      simp only [jacobian, hA]
      rw [transpose_mul, diagonal_transpose, ← mulVec_mulVec]
      congr 1
      funext i
      rw [mulVec_diagonal]
    have hentries : ∀ a ∈ List.ofFn (A.affine y), Settled a := by
      simpa [List.mem_ofFn] using hsettled hA
    rw [Activation.record, hd.pullback_tanh _ _ _ _ (A.value_affine h) hentries (by simp), hscaled,
      A.pullback_affine hd h, hjacobian]

theorem recurrence_pullback (hsettled : A.SettledAt x) (v : Fin d → ℤ) :
    A.recurrence.pullback (List.ofFn x) (List.ofFn v) =
      .ok (List.ofFn ((A.jacobian x)ᵀ *ᵥ v)) := by
  have hpullback := A.pullback_record hd (g := .leaf) (u := List.ofFn x) rfl hsettled v
  rw [hd.pullback_leaf] at hpullback
  simp only [Recurrence.pullback, A.recurrence_step x, Bind.bind, Except.bind, hpullback]

theorem pullback_recorded {n : ℕ} (hsettled : ∀ k < n, A.SettledAt (A.state x k))
    (v : Fin d → ℤ) :
    Differentiator.pullback (A.recurrence.recorded n) (List.ofFn x) (List.ofFn v) =
      List.ofFn (((List.range n).map fun k => (A.jacobian (A.state x k))ᵀ).prod *ᵥ v) := by
  induction n generalizing v with
  | zero => simp [Recurrence.recorded, hd.pullback_leaf]
  | succ n ih =>
    have hbefore := ih (fun k hk => hsettled k (by omega)) ((A.jacobian (A.state x n))ᵀ *ᵥ v)
    rw [Recurrence.recorded, A.pullback_record hd (A.value_recorded x n) (hsettled n (by omega)),
      hbefore, List.range_succ, List.map_append, List.prod_append, mulVec_mulVec]
    simp

/-- With all steps recorded the gradient is the last state times all transposed Jacobians. -/
theorem recurrence_fullGradient {n : ℕ} (hsettled : ∀ k < n, A.SettledAt (A.state x k)) :
    A.recurrence.fullGradient n (List.ofFn x) = .ok (List.ofFn (A.gradient x n)) := by
  simp only [Recurrence.fullGradient, A.value_recorded x n, Bind.bind, Except.bind,
    hd.gradient_eq _ _ _ (A.value_recorded x n), A.pullback_recorded x hd hsettled]
  rfl

end Rules

/-- Without an activation the step is affine, and the Jacobian is its linear part. -/
theorem step_add_of_identity (h : A.activation = .identity) (v : Fin d → ℤ) :
    A.step (x + v) = A.step x + A.jacobian x *ᵥ v := by
  simp only [step, jacobian, h, affine, mulVec_add]
  exact add_right_comm _ _ _

theorem gradientFrom_zero (i : ℕ) : A.gradientFrom x i 0 = A.state x i := by
  simp [gradientFrom]

theorem gradientFrom_succ (i count : ℕ) :
    A.gradientFrom x i (count + 1) =
      (A.jacobian (A.state x i))ᵀ *ᵥ A.gradientFrom x (i + 1) count := by
  rw [gradientFrom, gradientFrom, List.range'_succ, List.map_cons, List.prod_cons, mulVec_mulVec,
    Nat.add_assoc, Nat.add_comm 1]

theorem gradient_eq_gradientFrom (n : ℕ) : A.gradient x n = A.gradientFrom x 0 n := by
  rw [gradient, gradientFrom, List.range_eq_range', Nat.zero_add]

end Square
end ReverseSweep.RecurrenceGradient
