import ReverseSweep.Proofs.Ensures

/-! Two sweeps side by side, which may differ in their states, their callbacks and their checks.
What relates them before and after each of their parts relates them at the end. -/

namespace ReverseSweep

/-- The run after a row has been logged, if one is due. -/
def Run.logRow {ω α : Type} (r : Run ω α) (phase : String) (step : Int) : Run ω α :=
  if r.bench.journal.any Journal.due then
    ⟨r.world, r.bench.log (r.logged + 1) phase step r.bench.reported, r.latestCalls, r.logged + 1⟩
  else r

namespace Sweep

variable {ω ω' α α' ε ε' β β' γ γ' : Type}

theorem logIfDue_apply (phase : String) (step : Int) (r : Run ω α) :
    (logIfDue phase step : Sweep ω α ε Unit) r = (.ok (), r.logRow phase step) := by
  unfold logIfDue Run.logRow
  split <;> rfl

/-- Two ends of one kind. -/
inductive BothEnd (Q : β → β' → Run ω α → Run ω' α' → Prop)
    (E : Stop ε → Stop ε' → Run ω α → Run ω' α' → Prop) :
    Except (Stop ε) β × Run ω α → Except (Stop ε') β' × Run ω' α' → Prop
  | ok {a : β} {a' : β'} {t : Run ω α} {t' : Run ω' α'} (h : Q a a' t t') :
      BothEnd Q E (.ok a, t) (.ok a', t')
  | error {e : Stop ε} {e' : Stop ε'} {t : Run ω α} {t' : Run ω' α'} (h : E e e' t t') :
      BothEnd Q E (.error e, t) (.error e', t')

def Relates (P : Run ω α → Run ω' α' → Prop) (x : Sweep ω α ε β) (x' : Sweep ω' α' ε' β')
    (Q : β → β' → Run ω α → Run ω' α' → Prop)
    (E : Stop ε → Stop ε' → Run ω α → Run ω' α' → Prop) : Prop :=
  ∀ r r', P r r' → BothEnd Q E (x r) (x' r')

namespace Relates

variable {P : Run ω α → Run ω' α' → Prop} {Q : β → β' → Run ω α → Run ω' α' → Prop}
  {E : Stop ε → Stop ε' → Run ω α → Run ω' α' → Prop} {x : Sweep ω α ε β}
  {x' : Sweep ω' α' ε' β'}

theorem done {a : β} {a' : β'} (h : ∀ r r', P r r' → Q a a' r r') :
    Relates P (pure a) (pure a') Q E := fun r r' hr => .ok (h r r' hr)

theorem andThen {f : β → Sweep ω α ε γ} {f' : β' → Sweep ω' α' ε' γ'}
    {S : γ → γ' → Run ω α → Run ω' α' → Prop} (hx : Relates P x x' Q E)
    (hf : ∀ a a', Relates (Q a a') (f a) (f' a') S E) : Relates P (x >>= f) (x' >>= f') S E := by
  intro r r' hr
  have hends := hx r r' hr
  rw [bind_apply, bind_apply]
  generalize x r = p at hends
  generalize x' r' = p' at hends
  cases hends with
  | ok h => exact hf _ _ _ _ h
  | error h => exact .error h

theorem mono {P' : Run ω α → Run ω' α' → Prop} {Q' : β → β' → Run ω α → Run ω' α' → Prop}
    (h : Relates P x x' Q E) (hP : ∀ r r', P' r r' → P r r')
    (hQ : ∀ a a' t t', Q a a' t t' → Q' a a' t t') : Relates P' x x' Q' E := by
  intro r r' hr
  have hends := h r r' (hP r r' hr)
  generalize x r = p at hends ⊢
  generalize x' r' = p' at hends ⊢
  cases hends with
  | ok h => exact .ok (hQ _ _ _ _ h)
  | error h => exact .error h

/-- Where a fact does not depend on the runs, it may be used before they start. -/
theorem of_and {p : Prop} (h : p → Relates P x x' Q E) :
    Relates (fun r r' => p ∧ P r r') x x' Q E := fun r r' hr => h hr.1 r r' hr.2

theorem verified {verify verify' : Bool}
    (h : ∀ r r', P r r' → r.bench.Lockstep ∧ r'.bench.Lockstep) :
    Relates P (verified verify : Sweep ω α ε Unit) (Sweep.verified verify' : Sweep ω' α' ε' Unit)
      (fun _ _ => P) E := by
  intro r r' hr
  obtain ⟨hl, hl'⟩ := h r r' hr
  rw [verified_of_lockstep hl, verified_of_lockstep hl']
  exact .ok hr

theorem logIfDue {phase : String} {step : Int}
    (h : ∀ r r', P r r' → P (r.logRow phase step) (r'.logRow phase step)) :
    Relates P (logIfDue phase step : Sweep ω α ε Unit)
      (Sweep.logIfDue phase step : Sweep ω' α' ε' Unit) (fun _ _ => P) E := by
  intro r r' hr
  rw [logIfDue_apply, logIfDue_apply]
  exact .ok (h r r' hr)

variable [Movable α] [Movable α'] {cb : Callbacks ω α ε} {cb' : Callbacks ω' α' ε'}
  {verify verify' : Bool}

/-- Both searches find the same latest step, so that they make their passes together. -/
theorem reach {target : Int}
    (hpass : ∀ last, Relates (fun r r' => P r r' ∧ r.bench.schedule.latest? = some last)
      (recompute cb verify last) (recompute cb' verify' last) (fun _ _ => P) E)
    (hlatest : ∀ r r', P r r' → r'.bench.schedule.latest? = r.bench.schedule.latest?)
    (hempty : ∀ r r', P r r' → E (.fault .emptySchedule) (.fault .emptySchedule) r r') :
    Relates P (reach cb verify target) (reach cb' verify' target) (fun _ _ => P) E := by
  intro r r' hr
  induction r using reach.induct cb verify target generalizing r' with
  | case1 r hnone =>
    rw [reach_of_empty hnone, reach_of_empty ((hlatest r r' hr).trans hnone)]
    exact .error (hempty r r' hr)
  | case2 r last hlast hlt t ht ih =>
    have hends := hpass last r r' ⟨hr, hlast⟩
    rw [ht] at hends
    rw [reach_of_lt hlast hlt ht]
    generalize hp : recompute cb' verify' last r' = p at hends
    cases hends with
    | ok h =>
      rw [reach_of_lt ((hlatest r r' hr).trans hlast) hlt hp]
      exact ih _ h
  | case3 r last hlast hlt e t ht =>
    have hends := hpass last r r' ⟨hr, hlast⟩
    rw [ht] at hends
    rw [reach_of_error hlast hlt ht]
    generalize hp : recompute cb' verify' last r' = p at hends
    cases hends with
    | error h =>
      rw [reach_of_error ((hlatest r r' hr).trans hlast) hlt hp]
      exact .error h
  | case4 r last hlast hle =>
    rw [reach_of_le hlast (by omega), reach_of_le ((hlatest r r' hr).trans hlast) (by omega)]
    exact .ok hr

theorem advance {V : α → α' → Prop}
    (h : ∀ (n : Nat) y y', V y y' → Relates P (forward cb verify n y) (forward cb' verify' n y')
      (fun z z' r r' => V z z' ∧ P r r') E) (count n : Nat) {y : α} {y' : α'} (hy : V y y') :
    Relates P (advance cb verify count n y) (advance cb' verify' count n y')
      (fun z z' r r' => V z z' ∧ P r r') E := by
  induction count generalizing n y y' with
  | zero => exact done fun _ _ hr => ⟨hy, hr⟩
  | succ count ih =>
    rw [advance_succ, advance_succ]
    exact (h n y y' hy).andThen fun z z' => of_and fun hz => ih (n + 1) hz

theorem retreat
    (h : ∀ i : Nat, Relates P (stepBack cb verify i) (stepBack cb' verify' i) (fun _ _ => P) E)
    (top : Nat) :
    Relates P (retreat cb verify top) (retreat cb' verify' top) (fun _ _ => P) E := by
  induction top with
  | zero => exact h 0
  | succ top ih => exact (h (top + 1)).andThen fun _ _ => ih

end Relates
end Sweep
end ReverseSweep
