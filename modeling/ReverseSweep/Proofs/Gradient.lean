import Mathlib.LinearAlgebra.Matrix.Notation
import ReverseSweep.Proofs.Jacobian
import ReverseSweep.Proofs.Parallel

/-! The gradient by a checkpointed sweep. The adjoint that the reverse calls hand on from the last
step to the first one is what the chain rule gives with every state kept, whatever the budget is. -/

namespace ReverseSweep.RecurrenceGradient

open Matrix

namespace Recurrence

variable [Differentiator]

/-- What a reverse call makes of the adjoint. A call that fails does not change it. -/
def handOn (r : Recurrence) (steps : Int) (adjoint : Option Vector)
    (told : Int × Placed Vector) : Option Vector :=
  match told.2.onHost.bind (r.adjoint steps told.1 adjoint) with
  | .ok adjoint => adjoint
  | .error _ => adjoint

theorem callbacks_tells (r : Recurrence) (steps : Int) :
    (callbacks r steps).Tells fun adjoint call =>
      if call.kind == .reverse then r.handOn steps adjoint (call.step, call.state) else adjoint where
  update := fun _ _ _ _ => rfl
  reverse := by
    intro n y adjoint b
    simp only [callbacks, handOn, BEq.rfl, if_true]
    split <;> simp_all

end Recurrence

namespace Square

variable [Differentiator] {d : ℕ} (A : Square d) (x : Fin d → ℤ)

theorem handOn_of_lt (hd : Differentiator.Lawful) (hsettled : A.SettledAt x) {steps i : ℕ}
    (h : i < steps) (y : Fin d → ℤ) :
    A.recurrence.handOn steps (some (List.ofFn y)) ((i : Int), .data (List.ofFn x)) =
      some (List.ofFn ((A.jacobian x)ᵀ *ᵥ y)) := by
  have hne : ¬ (i : Int) = steps := by omega
  simp [Recurrence.handOn, Placed.onHost, Except.bind, Recurrence.adjoint, hne,
    A.recurrence_pullback x hd hsettled, Except.map]

theorem exists_adjoint_eq_ok (steps i : Int) (next : Option Vector) :
    ∃ adjoint, A.recurrence.adjoint steps i next (List.ofFn x) = .ok adjoint := by
  unfold Recurrence.adjoint
  split
  · exact ⟨_, rfl⟩
  · cases next with
    | none => exact ⟨_, rfl⟩
    | some cotangent =>
      obtain ⟨y, hy⟩ := A.exists_recurrence_pullback_eq_ok x cotangent
      exact ⟨some y, by simp [hy, Except.map]⟩

/-- The reverse calls from the last step down to some step leave the gradient from there on. -/
theorem foldl_handOn (hd : Differentiator.Lawful) {steps : ℕ}
    (hsettled : ∀ k < steps, A.SettledAt (A.state x k)) {count : ℕ} (h : count ≤ steps)
    (told : Option Vector) :
    ((List.range' (steps - count) (count + 1)).reverse.map fun i : ℕ =>
        ((i : Int), Placed.data (List.ofFn (A.state x i)))).foldl (A.recurrence.handOn steps) told =
      some (List.ofFn (A.gradientFrom x (steps - count) count)) := by
  induction count with
  | zero =>
    -- at the last step the adjoint is its state, whatever was told before
    simp [Recurrence.handOn, Placed.onHost, Except.bind, Recurrence.adjoint, gradientFrom_zero]
  | succ count ih =>
    have hnext : steps - (count + 1) + 1 = steps - count := by omega
    rw [List.range'_succ, List.reverse_cons, List.map_append, List.foldl_append, hnext,
      ih (by omega)]
    simp only [List.map_cons, List.map_nil, List.foldl_cons, List.foldl_nil]
    rw [A.handOn_of_lt _ hd (hsettled _ (by omega)) (by omega), gradientFrom_succ, hnext]

end Square

/-- A sweep over so many steps with a budget, on the host. -/
structure Config.Asks (c : Config) (n budget : ℕ) : Prop where
  steps : c.steps = .int n
  storageSize : c.storageSize = .int budget
  strategy : c.strategy = .str Schedule.knownStrategy
  device : c.offloadDevice = none ∨ c.offloadDevice = some Device.host.name

def Config.setup (c : Config) (x : Vector) (budget : ℕ) (journal : Option Journal) (now : Float) :
    Setup (Placed Vector) where
  steps := c.steps
  storageSize := c.storageSize
  state := .data x
  supply := .schedule (.ofBudget budget)
  store := { device := c.offloadDevice }
  journal := journal
  now := now

section

variable {c : Config} {n budget : ℕ} {x : Vector} {journal : Option Journal} {now : Float}

theorem Config.Asks.setup_asks (h : c.Asks n budget) :
    (c.setup x budget journal now).Asks n budget := ⟨h.steps, .inl rfl, rfl⟩

theorem Config.Asks.length_eq (h : c.Asks n budget) : c.length = n := by
  simp [Config.length, h.steps, Json.whole?, Json.number?, Number.whole?]

theorem Config.Asks.choose_eq (h : c.Asks n budget) :
    Schedule.choose c.strategy (.ok c.storageSize) = .ok (.ofBudget budget) := by
  have hnonneg : ¬ (budget : Int) < 0 := by omega
  simp [Schedule.choose, h.strategy, h.storageSize, Json.str?, Json.number, Json.number?,
    Schedule.create, Number.below, hnonneg, Schedule.ofBudget, Bind.bind, Except.bind]

theorem settle_onHost {s : Store (Placed Vector)}
    (h : s.device = none ∨ s.device = some Device.host.name) (y : Vector) :
    s.settle (.data y) = .ok (.data y) := by
  rcases h with h | h <;> rw [Store.settle, h]
  rfl

variable [Differentiator]

theorem Config.Asks.sweptGradient_eq_ok_iff (h : c.Asks n budget) {r : Recurrence}
    {result : Result} :
    sweptGradient r x c journal now = .ok result ↔ ∃ final t,
      (c.setup x budget journal now).run (callbacks r n) none = .ok (.ok (.data final), t) ∧
        result = ⟨t.world, final, t.bench.schedule.stats, t.bench.journal⟩ := by
  simp only [sweptGradient, h.choose_eq, h.length_eq, Bind.bind, Except.bind]
  simp only [Config.setup]
  split
  · rename_i fault hrun
    simp [hrun]
  · rename_i p hrun
    rw [hrun]
    rcases p with ⟨(fault | fault) | final, t⟩
    · simp
    · simp
    · cases final with
      | shape => simp [Placed.onHost]
      | data final => simp [Placed.onHost, eq_comm]

theorem Config.Asks.lt_noStep (h : c.Asks n budget) (hb : 1 ≤ budget) {r : Recurrence}
    {result : Result} (hr : sweptGradient r x c journal now = .ok result) : (n : Int) < noStep := by
  obtain ⟨_, _, hrun, _⟩ := h.sweptGradient_eq_ok_iff.mp hr
  exact h.setup_asks.lt_noStep hb hrun

end

namespace Square

section

variable [Differentiator] {d : ℕ} {c : Config} {n budget : ℕ} (A : Square d) (x : Fin d → ℤ)
  (journal : Option Journal) (now : Float)

def course (c : Config) (n budget : ℕ) :
    Course (Option Vector) (Placed Vector) Fault :=
  (c.setup (List.ofFn x) budget journal now).course (callbacks A.recurrence n) n budget
    (fun k y => y = .data (List.ofFn (A.state x k))) fun k y => y = .data (List.ofFn (A.state x k))

theorem course_steady (h : c.Asks n budget) (hb : 1 ≤ budget) (hn : (n : Int) < noStep) :
    (A.course x journal now c n budget).Steady where
  budget_pos := hb
  steps_lt := hn
  settle := by
    rintro s hdevice k _ _ rfl
    exact ⟨_, settle_onHost (hdevice ▸ h.device) _, rfl⟩
  update := by
    intro k _ y hy adjoint b
    obtain rfl : y = .data (List.ofFn (A.state x k)) := hy.elim id id
    refine ⟨.data (List.ofFn (A.state x (k + 1))), adjoint, b, ?_, rfl, rfl, rfl⟩
    change ((A.recurrence.step (List.ofFn (A.state x k))).map Placed.data, adjoint, b) = _
    rw [recurrence_step]
    rfl
  reverse := by
    rintro k _ _ rfl adjoint b
    -- the states of the course are not lost, so whatever the adjoint is, there is a next one
    obtain ⟨next, hnext⟩ := A.exists_adjoint_eq_ok (A.state x k) n k adjoint
    refine ⟨next, b, ?_, rfl, rfl⟩
    simp [Square.course, Setup.course, callbacks, Placed.onHost, Except.bind, hnext]

theorem exists_run_gradient (hd : Differentiator.Lawful)
    (hsettled : ∀ k < n, A.SettledAt (A.state x k)) (h : c.Asks n budget) (hb : 1 ≤ budget)
    (hn : (n : Int) < noStep) :
    ∃ t, (c.setup (List.ofFn x) budget journal now).run (callbacks A.recurrence n) none =
        .ok (.ok (.data (List.ofFn (A.state x n))), t) ∧
      t.world = some (List.ofFn (A.gradient x n)) := by
  have hc := A.course_steady x journal now h hb hn
  obtain ⟨_, t, held, hrun, rfl, hcompletes⟩ := h.setup_asks.exists_completes hc rfl none
  have hcalls : (t.calls.filter (·.kind == .reverse)).map (fun call => (call.step, call.state)) =
      (List.range (n + 1)).reverse.map fun i : ℕ => ((i : Int), .data (List.ofFn (A.state x i))) :=
    hcompletes.reverse_calls_eq (fun _ _ hy => hy) fun _ _ hy => hy
  have hworld := Setup.world_eq_foldl (A.recurrence.callbacks_tells n) hrun
  have hback := A.foldl_handOn x hd hsettled (Nat.le_refl n) none
  rw [Nat.sub_self, ← List.range_eq_range', ← gradient_eq_gradientFrom] at hback
  refine ⟨t, hrun, ?_⟩
  -- updates leave the adjoint alone, so the reverse calls tell all of it
  rw [hworld, ← hback, ← hcalls, List.foldl_map, List.foldl_filter]

/-- The sweep ends unless it has too many steps. If it ends, its gradient is the one with every
state kept, whatever the budget and the journal are: the last state times the transposed
Jacobians. Differentiation follows its rules, and no hyperbolic tangent on the way is rounded. -/
theorem sweptGradient_eq_fullGradient (hd : Differentiator.Lawful)
    (hsettled : ∀ k < n, A.SettledAt (A.state x k)) (h : c.Asks n budget) (hb : 1 ≤ budget) :
    ((∃ result, sweptGradient A.recurrence (List.ofFn x) c journal now = .ok result) ↔
        (n : Int) < noStep) ∧
      (∀ result, sweptGradient A.recurrence (List.ofFn x) c journal now = .ok result →
        result.gradient = some (List.ofFn (A.gradient x n)) ∧
          result.final = List.ofFn (A.state x n)) ∧
      A.recurrence.fullGradient n (List.ofFn x) = .ok (List.ofFn (A.gradient x n)) := by
  refine ⟨⟨fun ⟨_, hr⟩ => h.lt_noStep hb hr, fun hn => ?_⟩, fun result hr => ?_,
    A.recurrence_fullGradient x hd hsettled⟩
  · obtain ⟨t, hrun, _⟩ := A.exists_run_gradient x journal now hd hsettled h hb hn
    exact ⟨_, h.sweptGradient_eq_ok_iff.mpr ⟨_, t, hrun, rfl⟩⟩
  · obtain ⟨final, t, hrun, rfl⟩ := h.sweptGradient_eq_ok_iff.mp hr
    obtain ⟨t', hrun', hworld⟩ :=
      A.exists_run_gradient x journal now hd hsettled h hb (h.lt_noStep hb hr)
    have hsame := hrun'.symm.trans hrun
    simp only [Except.ok.injEq, Prod.mk.injEq, Placed.data.injEq] at hsame
    obtain ⟨rfl, rfl⟩ := hsame
    exact ⟨hworld, rfl⟩

end

def shear : Square 2 := ⟨!![1, 2; 0, 1], ![0, 1], .identity⟩

/-- At the start one component is 0 before the hyperbolic tangent, and the other one is large. -/
def saturating : Square 2 := ⟨!![40, -40; 0, 64], ![0, 0], .tanh⟩

theorem sweptGradient_eq_fullGradient_shear :
    (∃ result, sweptGradient shear.recurrence [1, 1]
        { steps := .int 3, storageSize := .int 1, offloadDevice := some "cpu" } none 0 =
          .ok result ∧
      result.gradient = some [13, 82] ∧ result.final = [13, 4]) ∧
    ∃ result, sweptGradient saturating.recurrence [1, 1]
        { steps := .int 2, storageSize := .int 1 } none 0 = .ok result ∧
      result.gradient = some [0, 0] ∧ result.final = [-1, 1] := by
  constructor
  · obtain ⟨hends, hresult, hfull⟩ := shear.sweptGradient_eq_fullGradient ![1, 1] none 0
      Differentiator.exact_lawful (fun _ _ htanh => nomatch htanh)
      (show Config.Asks { steps := .int 3, storageSize := .int 1, offloadDevice := some "cpu" } 3 1
        from ⟨rfl, rfl, rfl, .inr rfl⟩) (Nat.le_refl 1)
    obtain ⟨result, hr⟩ := hends.mpr (by decide)
    obtain ⟨hgradient, hfinal⟩ := hresult result hr
    have hvalue : shear.recurrence.fullGradient 3 (List.ofFn ![1, 1]) = .ok [13, 82] := rfl
    rw [← Except.ok.inj (hvalue.symm.trans hfull)] at hgradient
    exact ⟨result, hr, hgradient, hfinal.trans (by decide)⟩
  · have hsettled : ∀ k < 2, saturating.SettledAt (saturating.state ![1, 1] k) := by
      decide
    obtain ⟨hends, hresult, hfull⟩ := saturating.sweptGradient_eq_fullGradient ![1, 1] none 0
      Differentiator.exact_lawful hsettled
      (show Config.Asks { steps := .int 2, storageSize := .int 1 } 2 1
        from ⟨rfl, rfl, rfl, .inl rfl⟩) (Nat.le_refl 1)
    obtain ⟨result, hr⟩ := hends.mpr (by decide)
    obtain ⟨hgradient, hfinal⟩ := hresult result hr
    have hvalue : saturating.recurrence.fullGradient 2 (List.ofFn ![1, 1]) = .ok [0, 0] := rfl
    rw [← Except.ok.inj (hvalue.symm.trans hfull)] at hgradient
    exact ⟨result, hr, hgradient, hfinal.trans (by decide)⟩

def unit : Square 1 := ⟨1, 0, .identity⟩

/-- With more steps than there are indices no gradient comes out of the sweep. -/
theorem not_sweptGradient_of_many_steps :
    let c : Config := { steps := .int (2 ^ 63 : ℕ), storageSize := .int (2 ^ 63 : ℕ) }
    c.Asks (2 ^ 63) (2 ^ 63) ∧
      (¬ ∃ result, sweptGradient unit.recurrence [1] c none 0 = .ok result) ∧
      ∃ gradient, unit.recurrence.fullGradient (2 ^ 63) [1] = .ok gradient := by
  have hasks : Config.Asks { steps := .int (2 ^ 63 : ℕ), storageSize := .int (2 ^ 63 : ℕ) }
      (2 ^ 63) (2 ^ 63) := ⟨rfl, rfl, rfl, .inl rfl⟩
  refine ⟨hasks, ?_, _, unit.recurrence_fullGradient (fun _ => 1) Differentiator.exact_lawful
    fun _ _ htanh => nomatch htanh⟩
  rintro ⟨result, hr⟩
  exact absurd (hasks.lt_noStep (by decide) hr) (by decide)

end Square

end ReverseSweep.RecurrenceGradient
