import ReverseSweep.Proofs.Passes

/-! Two sweeps that differ in their callbacks only. What relates the parts of them, and is handed on
from a part to what follows it, relates the whole of them. -/

namespace ReverseSweep

variable {ω ω' α ε : Type} [Movable α]

namespace Sweep

/-- A relation that holds between the parts of two sweeps and is kept when parts are put together.
The search for the latest step repeats a part, so it asks for a rule of its own. -/
structure Parallel (cb : Callbacks ω α ε) (cb' : Callbacks ω' α ε)
    (Rel : ∀ {β : Type}, Sweep ω α ε β → Sweep ω' α ε β → Prop) : Prop where
  done : ∀ {β : Type} (a : β), Rel (pure a) (pure a)
  andThen : ∀ {β γ : Type} {x : Sweep ω α ε β} {x' : Sweep ω' α ε β} {f : β → Sweep ω α ε γ}
    {f' : β → Sweep ω' α ε γ}, Rel x x' → (∀ a, Rel (f a) (f' a)) → Rel (x >>= f) (x' >>= f')
  onBench : ∀ {β : Type} (f : Bench α → Except Fault β × Bench α), Rel (onBench f) (onBench f)
  logIfDue : ∀ phase step, Rel (logIfDue phase step) (logIfDue phase step)
  update : ∀ n y, Rel (update cb n y) (update cb' n y)
  reverse : ∀ n y, Rel (reverse cb n y) (reverse cb' n y)
  reach : ∀ verify target, (∀ last, Rel (recompute cb verify last) (recompute cb' verify last)) →
    Rel (reach cb verify target) (reach cb' verify target)

namespace Parallel

variable {cb : Callbacks ω α ε} {cb' : Callbacks ω' α ε}
  {Rel : ∀ {β : Type}, Sweep ω α ε β → Sweep ω' α ε β → Prop}

theorem verified (h : Parallel cb cb' Rel) (verify : Bool) :
    Rel (verified verify) (verified verify) := by
  unfold Sweep.verified
  split
  · exact h.onBench _
  · exact h.done ()

theorem start (h : Parallel cb cb' Rel) (verify : Bool) (y : α) :
    Rel (start verify y) (start verify y) :=
  h.andThen (h.onBench _) fun _ => h.verified verify

theorem advance (h : Parallel cb cb' Rel) (verify : Bool) (count n : Nat) (y : α) :
    Rel (advance cb verify count n y) (advance cb' verify count n y) := by
  induction count generalizing n y with
  | zero => exact h.done y
  | succ count ih =>
    refine h.andThen (h.update n y) fun next => ?_
    refine h.andThen (h.onBench _) fun _ => ?_
    refine h.andThen (h.verified verify) fun _ => ?_
    refine h.andThen (h.onBench _) fun _ => ?_
    exact h.andThen (h.logIfDue _ _) fun _ => ih (n + 1) next

theorem recompute (h : Parallel cb cb' Rel) (verify : Bool) (last : Int) :
    Rel (recompute cb verify last) (recompute cb' verify last) := by
  refine h.andThen (h.onBench _) fun y => ?_
  refine h.andThen (h.update last y) fun next => ?_
  refine h.andThen (h.onBench _) fun _ => ?_
  exact h.andThen (h.verified verify) fun _ => h.onBench _

theorem stepBack (h : Parallel cb cb' Rel) (verify : Bool) (i : Nat) :
    Rel (stepBack cb verify i) (stepBack cb' verify i) := by
  refine h.andThen (h.reach verify i (h.recompute verify)) fun _ => ?_
  refine h.andThen (h.onBench _) fun y => ?_
  refine h.andThen (h.reverse i y) fun _ => ?_
  refine h.andThen (h.onBench _) fun _ => ?_
  refine h.andThen (h.verified verify) fun _ => ?_
  exact h.andThen (h.onBench _) fun _ => h.logIfDue _ _

theorem retreat (h : Parallel cb cb' Rel) (verify : Bool) (i : Nat) :
    Rel (retreat cb verify i) (retreat cb' verify i) := by
  induction i with
  | zero => exact h.stepBack verify 0
  | succ i ih => exact h.andThen (h.stepBack verify (i + 1)) fun _ => ih

theorem sweepOf (h : Parallel cb cb' Rel) (verify : Bool) (steps : Except Fault Nat) (y : α) :
    Rel (sweepOf cb verify steps y) (sweepOf cb' verify steps y) := by
  cases steps with
  | error fault => exact h.andThen (h.start verify y) fun _ => h.onBench _
  | ok steps =>
    refine h.andThen (h.start verify y) fun _ => ?_
    refine h.andThen (h.advance verify steps 0 y) fun _ => ?_
    exact h.andThen (h.retreat verify steps) fun _ => h.done _

end Parallel

theorem reach_of_error {cb : Callbacks ω α ε} {verify : Bool} {target last : Int} {r t : Run ω α}
    {e : Stop ε} (h : r.bench.schedule.latest? = some last) (hl : last < target)
    (hr : recompute cb verify last r = (.error e, t)) :
    reach cb verify target r = (.error e, t) := by
  rw [reach]
  split
  · simp_all
  · rename_i last' h'
    obtain rfl : last = last' := Option.some.inj (h.symm.trans h')
    rw [if_pos hl]
    split <;> simp_all

theorem reach_of_empty {cb : Callbacks ω α ε} {verify : Bool} {target : Int} {r : Run ω α}
    (h : r.bench.schedule.latest? = none) :
    reach cb verify target r = (.error (.fault .emptySchedule), r) := by
  rw [reach]
  split <;> simp_all

/-- Whatever a part of a sweep does, a property of runs is kept. -/
def Keeps {β : Type} (P : Run ω α → Prop) (x : Sweep ω α ε β) : Prop := ∀ r, P r → P (x r).2

omit [Movable α] in
theorem Keeps.andThen {β γ : Type} {P : Run ω α → Prop} {x : Sweep ω α ε β}
    {f : β → Sweep ω α ε γ} (hx : Keeps P x) (hf : ∀ a, Keeps P (f a)) : Keeps P (x >>= f) := by
  intro r h
  have ht := hx r h
  rw [bind_apply]
  split
  · rename_i a t hr
    rw [hr] at ht
    exact hf a t ht
  · rename_i e t hr
    rwa [hr] at ht

/-- A property of what was called, and of the world of the callbacks, is kept by a sweep if it is
kept by its calls. -/
theorem parallel_keeps {cb : Callbacks ω α ε} {P : Run ω α → Prop}
    (hbench : ∀ r b logged, P r → P ⟨r.world, b, r.latestCalls, logged⟩)
    (hupdate : ∀ n y, Keeps P (update cb n y)) (hreverse : ∀ n y, Keeps P (reverse cb n y)) :
    Parallel cb cb fun _ x => Keeps P x where
  done := fun _ _ h => h
  andThen := Keeps.andThen
  onBench := fun _ r => hbench r _ r.logged
  logIfDue := by
    intro phase step r h
    unfold logIfDue
    split
    · exact hbench r _ _ h
    · exact h
  update := hupdate
  reverse := hreverse
  reach := by
    intro verify target hrec r
    -- along the search itself, which ends since the latest step moves on
    induction r using reach.induct cb verify target with
    | case1 r hnone => exact fun h => by rwa [reach_of_empty hnone]
    | case2 r last hlast hlt t hr ih =>
      intro h
      rw [reach_of_lt hlast hlt hr]
      have ht := hrec last r h
      rw [hr] at ht
      exact ih ht
    | case3 r last hlast hlt e t hr =>
      intro h
      rw [reach_of_error hlast hlt hr]
      have ht := hrec last r h
      rwa [hr] at ht
    | case4 r last hlast hle => exact fun h => by rwa [reach_of_le hlast (by omega)]

end Sweep

/-- What a call makes of the world, where that does not depend on anything but the call. -/
structure Callbacks.Tells (cb : Callbacks ω α ε) (f : ω → Call α → ω) : Prop where
  update : ∀ n y w b, (cb.update n y w b).2.1 = f w ⟨.update, n, y, b⟩
  reverse : ∀ n y w b, (cb.reverse n y w b).2.1 = f w ⟨.reverse, n, y, b⟩

theorem Setup.exists_bench_of_run {s : Setup α} {cb : Callbacks ω α ε} {w : ω}
    {p : Except (Stop ε) α × Run ω α} (h : s.run cb w = .ok p) :
    ∃ b, s.bench = .ok b ∧
      Sweep.sweepOf cb s.verify s.steps.count s.state ⟨w, b, [], 0⟩ = p := by
  unfold run at h
  cases hb : s.bench with
  | error fault => simp [hb, Except.map] at h
  | ok b =>
    rw [hb] at h
    exact ⟨b, rfl, Except.ok.inj h⟩

theorem Setup.world_eq_foldl {cb : Callbacks ω α ε} {f : ω → Call α → ω} (h : cb.Tells f)
    {s : Setup α} {w : ω} {result : Except (Stop ε) α} {t : Run ω α}
    (hrun : s.run cb w = .ok (result, t)) : t.world = t.calls.foldl f w := by
  let P (r : Run ω α) : Prop := r.world = r.latestCalls.foldr (fun call w => f w call) w
  have hupdate : ∀ n y, Sweep.Keeps P (Sweep.update cb n y) := by
    intro n y r hr
    exact (h.update n y r.world r.bench).trans (congrArg (f · _) hr)
  have hreverse : ∀ n y, Sweep.Keeps P (Sweep.reverse cb n y) := by
    intro n y r hr
    exact (h.reverse n y r.world r.bench).trans (congrArg (f · _) hr)
  have hkeeps := Sweep.parallel_keeps (fun _ _ _ hr => hr) hupdate hreverse
  obtain ⟨b, _, hsweep⟩ := exists_bench_of_run hrun
  have ht := hkeeps.sweepOf s.verify s.steps.count s.state ⟨w, b, [], 0⟩ rfl
  rw [hsweep] at ht
  rw [Run.calls, List.foldl_reverse]
  exact ht

end ReverseSweep
