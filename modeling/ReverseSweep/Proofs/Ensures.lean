import ReverseSweep.Proofs.Parallel
import ReverseSweep.Proofs.WayBack

/-! What a part of a sweep ensures: if a property holds before it, one holds after it, and another
one if it stops. There is a rule for each way to put parts together, and for each loop. -/

namespace ReverseSweep.Sweep

variable {ω α ε β γ : Type}

inductive Ends (Q : β → Run ω α → Prop) (E : Stop ε → Run ω α → Prop) :
    Except (Stop ε) β × Run ω α → Prop
  | ok (a : β) (t : Run ω α) (h : Q a t) : Ends Q E (.ok a, t)
  | error (e : Stop ε) (t : Run ω α) (h : E e t) : Ends Q E (.error e, t)

def Ensures (P : Run ω α → Prop) (x : Sweep ω α ε β) (Q : β → Run ω α → Prop)
    (E : Stop ε → Run ω α → Prop) : Prop :=
  ∀ r, P r → Ends Q E (x r)

variable {P : Run ω α → Prop} {Q : β → Run ω α → Prop} {R : Run ω α → Prop}
  {E : Stop ε → Run ω α → Prop} {x : Sweep ω α ε β}

namespace Ensures

theorem ok_of (h : Ensures P x Q E) {r t : Run ω α} {a : β} (hr : P r) (hx : x r = (.ok a, t)) :
    Q a t := by
  have hends := h r hr
  rw [hx] at hends
  cases hends with
  | ok _ _ h => exact h

theorem error_of (h : Ensures P x Q E) {r t : Run ω α} {e : Stop ε} (hr : P r)
    (hx : x r = (.error e, t)) : E e t := by
  have hends := h r hr
  rw [hx] at hends
  cases hends with
  | error _ _ h => exact h

/-- Where it cannot stop, it ends, and where it cannot end, it stops. -/
theorem exists_eq_ok (h : Ensures P x Q fun _ _ => False) {r : Run ω α} (hr : P r) :
    ∃ a t, x r = (.ok a, t) ∧ Q a t := by
  have hends := h r hr
  generalize x r = p at hends
  cases hends with
  | ok a t h => exact ⟨a, t, rfl, h⟩
  | error _ _ h => exact absurd h id

theorem exists_eq_error (h : Ensures P x (fun _ _ => False) E) {r : Run ω α} (hr : P r) :
    ∃ e t, x r = (.error e, t) ∧ E e t := by
  have hends := h r hr
  generalize x r = p at hends
  cases hends with
  | ok _ _ h => exact absurd h id
  | error e t h => exact ⟨e, t, rfl, h⟩

theorem andThen {f : β → Sweep ω α ε γ} {S : γ → Run ω α → Prop} (hx : Ensures P x Q E)
    (hf : ∀ a, Ensures (Q a) (f a) S E) : Ensures P (x >>= f) S E := by
  intro r hr
  have hends := hx r hr
  rw [bind_apply]
  generalize x r = p at hends
  cases hends with
  | ok a t h => exact hf a t h
  | error e t h => exact .error e t h

theorem mono {P' : Run ω α → Prop} {Q' : β → Run ω α → Prop} {E' : Stop ε → Run ω α → Prop}
    (h : Ensures P x Q E) (hP : ∀ r, P' r → P r) (hQ : ∀ a t, Q a t → Q' a t)
    (hE : ∀ e t, E e t → E' e t) : Ensures P' x Q' E' := by
  intro r hr
  have hends := h r (hP r hr)
  generalize x r = p at hends ⊢
  cases hends with
  | ok a t h => exact .ok a t (hQ a t h)
  | error e t h => exact .error e t (hE e t h)

/-- Where a fact does not depend on the run, it may be used before it starts. -/
theorem of_and {p : Prop} (h : p → Ensures P x Q E) : Ensures (fun r => p ∧ P r) x Q E :=
  fun r hr => h hr.1 r hr.2

theorem done (a : β) (h : ∀ r, P r → Q a r) : Ensures P (pure a) Q E := fun r hr => .ok a r (h r hr)

theorem of_false : Ensures (fun _ => False) x Q E := fun _ hr => absurd hr id

theorem stops {f : β → Sweep ω α ε γ} {S : γ → Run ω α → Prop}
    (hx : Ensures P x (fun _ _ => False) E) : Ensures P (x >>= f) S E :=
  hx.andThen fun _ => of_false

theorem onBench {f : Bench α → Except Fault β × Bench α}
    (hok : ∀ r a b, P r → f r.bench = (.ok a, b) → Q a (r.withBench b))
    (herror : ∀ r fault b, P r → f r.bench = (.error fault, b) →
      E (.fault fault) (r.withBench b)) : Ensures P (onBench f) Q E := by
  intro r hr
  simp only [Sweep.onBench]
  cases hf : f r.bench with
  | mk result b =>
    cases result with
    | ok a => exact .ok a _ (hok r a b hr hf)
    | error fault => exact .error _ _ (herror r fault b hr hf)

theorem askBench {f : Bench α → Except Fault β} (hok : ∀ r a, P r → f r.bench = .ok a → Q a r)
    (herror : ∀ r fault, P r → f r.bench = .error fault → E (.fault fault) r) :
    Ensures P (askBench f) Q E := by
  refine onBench ?_ ?_
  · intro r a b hr hf
    cases congrArg Prod.snd hf
    exact hok r a hr (congrArg Prod.fst hf)
  · intro r fault b hr hf
    cases congrArg Prod.snd hf
    exact herror r fault hr (congrArg Prod.fst hf)

/-- For a change that is never refused. -/
theorem onBench_of {f : Bench α → Except Fault β × Bench α}
    (h : ∀ r, P r → ∃ a b, f r.bench = (.ok a, b) ∧ Q a (r.withBench b)) :
    Ensures P (Sweep.onBench f) Q E := by
  intro r hr
  obtain ⟨a, b, hf, hq⟩ := h r hr
  simp only [Sweep.onBench, hf]
  exact .ok a _ hq

theorem askBench_of {f : Bench α → Except Fault β}
    (h : ∀ r, P r → ∃ a, f r.bench = .ok a ∧ Q a r) : Ensures P (Sweep.askBench f) Q E := by
  refine onBench_of fun r hr => ?_
  obtain ⟨a, hf, hq⟩ := h r hr
  exact ⟨a, r.bench, congrArg (·, r.bench) hf, hq⟩

/-- For a change that is always refused. -/
theorem onBench_refused {f : Bench α → Except Fault β × Bench α}
    (h : ∀ r, P r → ∃ fault b, f r.bench = (.error fault, b) ∧ E (.fault fault) (r.withBench b)) :
    Ensures P (Sweep.onBench f) (fun _ _ => False) E := by
  intro r hr
  obtain ⟨fault, b, hf, he⟩ := h r hr
  simp only [Sweep.onBench, hf]
  exact .error _ _ he

theorem changeBench {f : Bench α → Bench α} (h : ∀ r, P r → R (r.withBench (f r.bench))) :
    Ensures P (changeBench f) (fun _ => R) E := fun r hr => .ok () _ (h r hr)

theorem verified {verify : Bool}
    (hok : ∀ r, P r → (verify = true → r.bench.inLockstep = true) → R r)
    (herror : ∀ r fault, P r → E (.fault fault) r) :
    Ensures P (verified verify) (fun _ => R) E := by
  cases verify with
  | false => exact done () fun r hr => hok r hr (by simp)
  | true =>
    refine askBench ?_ fun r fault hr _ => herror r fault hr
    intro r _ hr hask
    unfold Bench.requireLockstep at hask
    split at hask
    · exact hok r hr fun _ => ‹_›
    · cases hask

theorem unverified : Ensures P (Sweep.verified false) (fun _ => P) E := done () fun _ hr => hr

/-- A log row changes nothing but the journal and the number of rows. -/
theorem logIfDue {phase : String} {step : Int}
    (h : ∀ r f logged, P r → R ⟨r.world, r.bench.mapJournal f, r.latestCalls, logged⟩)
    (hsame : ∀ r, P r → R r) :
    Ensures P (logIfDue phase step) (fun _ => R) E := by
  intro r hr
  unfold Sweep.logIfDue
  split
  · exact .ok () _ (h r _ _ hr)
  · exact .ok () _ (hsame r hr)

theorem callback {kind : CallKind} {step : Int} {y : α}
    {f : ω → Bench α → Except ε β × ω × Bench α}
    (hok : ∀ r a w b, P r → f r.world r.bench = (.ok a, w, b) →
      Q a ⟨w, b, ⟨kind, step, y, r.bench⟩ :: r.latestCalls, r.logged⟩)
    (herror : ∀ r e w b, P r → f r.world r.bench = (.error e, w, b) →
      E (.callback e) ⟨w, b, ⟨kind, step, y, r.bench⟩ :: r.latestCalls, r.logged⟩) :
    Ensures P (callback kind step y f) Q E := by
  intro r hr
  simp only [Sweep.callback]
  cases hf : f r.world r.bench with
  | mk result rest =>
    cases result with
    | ok a => exact .ok a _ (hok r a rest.1 rest.2 hr hf)
    | error e => exact .error _ _ (herror r e rest.1 rest.2 hr hf)

/-- For a call that never fails. -/
theorem callback_of {kind : CallKind} {step : Int} {y : α}
    {f : ω → Bench α → Except ε β × ω × Bench α}
    (h : ∀ r, P r → ∃ a w b, f r.world r.bench = (.ok a, w, b) ∧
      Q a ⟨w, b, ⟨kind, step, y, r.bench⟩ :: r.latestCalls, r.logged⟩) :
    Ensures P (Sweep.callback kind step y f) Q E := by
  intro r hr
  obtain ⟨a, w, b, hf, hq⟩ := h r hr
  simp only [Sweep.callback, hf]
  exact .ok a _ hq

variable [Movable α] {cb : Callbacks ω α ε} {verify : Bool}

/-- What each pass of the search for a target keeps holds when it has ended. -/
theorem reach {target : Int}
    (hpass : ∀ last, Ensures (fun r => P r ∧ r.bench.schedule.latest? = some last ∧ last < target)
      (recompute cb verify last) (fun _ => P) E)
    (hempty : ∀ r, P r → r.bench.schedule.latest? = none → E (.fault .emptySchedule) r) :
    Ensures P (reach cb verify target)
      (fun _ r => P r ∧ ∃ last, r.bench.schedule.latest? = some last ∧ target ≤ last) E := by
  intro r hr
  induction r using reach.induct cb verify target with
  | case1 r hnone =>
    rw [reach_of_empty hnone]
    exact .error _ r (hempty r hr hnone)
  | case2 r last hlast hlt t ht ih =>
    rw [reach_of_lt hlast hlt ht]
    exact ih ((hpass last).ok_of ⟨hr, hlast, hlt⟩ ht)
  | case3 r last hlast hlt e t ht =>
    rw [reach_of_error hlast hlt ht]
    exact .error e t ((hpass last).error_of ⟨hr, hlast, hlt⟩ ht)
  | case4 r last hlast hle =>
    rw [reach_of_le hlast (by omega)]
    exact .ok () r ⟨hr, last, hlast, by omega⟩

end Ensures

variable [Movable α]

/-- One step of the way forward. -/
def forward (cb : Callbacks ω α ε) (verify : Bool) (n : Nat) (state : α) : Sweep ω α ε α := do
  let next ← update cb n state
  let _ ← onBench fun b => b.offer (n + 1) next
  verified verify
  changeBench fun b => b.mapJournal Journal.recordForward
  logIfDue "forward" (n + 1)
  pure next

theorem advance_succ (cb : Callbacks ω α ε) (verify : Bool) (count n : Nat) (state : α) :
    advance cb verify (count + 1) n state =
      forward cb verify n state >>= advance cb verify count (n + 1) := by
  simp only [advance, forward, bind_assoc, pure_bind]

namespace Ensures

variable {cb : Callbacks ω α ε} {verify : Bool} {I : Nat → Run ω α → Prop}

/-- What is kept may be about the state as well, and has to be kept below a step only. -/
theorem advanceTo {J : Nat → α → Run ω α → Prop} {top : Nat}
    (h : ∀ n < top, ∀ y, Ensures (J n y) (forward cb verify n y) (fun z => J (n + 1) z) E)
    (count n : Nat) (y : α) (hle : n + count ≤ top) :
    Ensures (J n y) (Sweep.advance cb verify count n y) (fun z => J (n + count) z) E := by
  induction count generalizing n y with
  | zero => exact done y fun _ hr => hr
  | succ count ih =>
    rw [advance_succ]
    refine (h n (by omega) y).andThen fun next => ?_
    rw [show n + (count + 1) = n + 1 + count by omega]
    exact ih (n + 1) next (by omega)

theorem advance (h : ∀ n y, Ensures (I n) (forward cb verify n y) (fun _ => I (n + 1)) E)
    (count n : Nat) (y : α) :
    Ensures (I n) (advance cb verify count n y) (fun _ => I (n + count)) E :=
  advanceTo (fun n _ y => h n y) count n y (Nat.le_refl _)

/-- `I k` holds when the steps from `k` on have been given up. -/
theorem stepsBack (h : ∀ i, Ensures (I (i + 1)) (stepBack cb verify i) (fun _ => I i) E)
    (top count : Nat) (hcount : count ≤ top + 1) :
    Ensures (I (top + 1)) (stepsBack cb verify top count) (fun _ => I (top + 1 - count)) E := by
  induction count with
  | zero => exact done () fun _ hr => hr
  | succ count ih =>
    have hback := h (top - count)
    rw [show top - count + 1 = top + 1 - count by omega] at hback
    rw [show top + 1 - (count + 1) = top - count by omega]
    exact (ih (by omega)).andThen fun _ => hback

theorem retreat (h : ∀ i, Ensures (I (i + 1)) (stepBack cb verify i) (fun _ => I i) E)
    (top : Nat) : Ensures (I (top + 1)) (retreat cb verify top) (fun _ => I 0) E := by
  have hall := stepsBack h top (top + 1) (Nat.le_refl _)
  rwa [Nat.sub_self, ← retreat_eq_stepsBack] at hall

end Ensures
end ReverseSweep.Sweep
