import ReverseSweep.Proofs.Recall
import ReverseSweep.Proofs.Trajectory

/-! Callbacks that make the schedule forget steps, without the store. What is lost costs updates,
but each call still receives the state of its step. -/

namespace ReverseSweep

variable {ω α ε : Type}

namespace Schedule

variable {s : Schedule} {spared : Int → Prop}

/-- A request that does nothing but drop steps, and none that is spared. -/
def Request.Forgets (spared : Int → Prop) : Request → Prop
  | .remove step | .erase step => ¬ spared step
  | .reset => ∀ step, ¬ spared step
  | _ => False

theorem thins_remove (s : Schedule) {step : Int} (h : ¬ spared step) :
    Thins spared s (s.remove step).2 := by
  have hr := s.removed step
  generalize s.remove step = p at hr
  cases hr with
  | notHeld => exact .refl spared s
  | persistent => exact .refl spared s
  | removed before after hslots =>
    refine ⟨?_, ?_, rfl⟩
    · rw [hslots]
      exact (List.sublist_cons_self _ _).append_left before
    · intro slot hm hstays
      have hne : slot ≠ ⟨step, false⟩ := by
        rintro rfl
        simp_all
      simpa [hslots, hne] using hm

theorem thins_reset (s : Schedule) (h : ∀ step, ¬ spared step) : Thins spared s s.reset where
  sublist := List.filter_sublist
  stays := fun slot hm hstays =>
    List.mem_filter.mpr ⟨hm, hstays.resolve_right (h slot.step)⟩
  capacity := rfl

theorem Request.Forgets.thins {r : Request} (h : r.Forgets spared) (s : Schedule) :
    Thins spared s (s.perform r).2 := by
  cases r with
  | remove step => exact thins_remove s h
  | erase step => exact thins_remove s h
  | reset => exact thins_reset s h
  | _ => exact absurd h id

theorem thins_after (s : Schedule) (history : List Request)
    (h : ∀ r ∈ history, r.Forgets spared) : Thins spared s (s.after history) := by
  induction history generalizing s with
  | nil => exact .refl spared s
  | cons r history ih =>
    have hfirst := (h r List.mem_cons_self).thins s
    exact hfirst.trans (ih (s.perform r).2 fun r hr => h r (List.mem_cons_of_mem _ hr))

end Schedule

/-- The schedule was made to forget steps, and the store was left alone. -/
structure Bench.Forgets (spared : Int → Prop) (b b' : Bench α) : Prop where
  schedule : ∃ history : List Schedule.Request, (∀ r ∈ history, r.Forgets spared) ∧
    b'.schedule = b.schedule.after history
  store : b'.store = b.store

theorem Bench.Forgets.thins {spared : Int → Prop} {b b' : Bench α} (h : b.Forgets spared b') :
    b.schedule.Thins spared b'.schedule := by
  obtain ⟨history, hforgets, hs⟩ := h.schedule
  rw [hs]
  exact b.schedule.thins_after history hforgets

/-- The updates compute the next state and may make the schedule forget any steps, the reverse calls
any but their own. -/
structure Callbacks.Forgets (cb : Callbacks ω α ε) (f : Nat → α → α) : Prop where
  update : ∀ (n : Nat) y w b, ∃ w' b', cb.update n y w b = (.ok (f n y), w', b') ∧
    b.Forgets (fun _ => False) b'
  reverse : ∀ (n : Nat) y w b, ∃ w' b', cb.reverse n y w b = (.ok (), w', b') ∧
    b.Forgets (fun step => step = n) b'

namespace Setup

variable [Movable α] {s : Setup α} {cb : Callbacks ω α ε} {n budget : Nat}

theorem lossy_of_forgets {f : Nat → α → α} (hcb : cb.Forgets f) (hb : 1 ≤ budget)
    (hn : (n : Int) < noStep) (hstore : ∀ y, s.store.settle y = .ok y) :
    (s.course cb n budget (fun k y => y = trajectory f s.state k)
      fun k y => y = trajectory f s.state k).Lossy where
  room := fun _ => hb
  steps_lt := hn
  settle := fun store hdevice k _ y hy => ⟨y, (Store.settle_of_device_eq hdevice y).trans
    (hstore y), hy⟩
  update := by
    intro k _ y hy w b
    obtain ⟨w', b', hu, hforgets⟩ := hcb.update k y w b
    obtain rfl : y = trajectory f s.state k := hy.elim id id
    exact ⟨_, w', b', hu, rfl, hforgets.thins, hforgets.store⟩
  reverse := by
    intro k _ y _ w b
    obtain ⟨w', b', hr, hforgets⟩ := hcb.reverse k y w b
    exact ⟨w', b', hr, hforgets.thins, hforgets.store⟩

/-- Lost steps cost updates only. Whatever the callbacks make the schedule forget, a sweep ends
unless it has too many steps. Each call receives the state of its step, and the states are told backward
once each. The updates are at most those of a sweep that recomputes every state from step 0. -/
theorem Asks.forgotten_recalled (h : s.Asks n budget) (hb : 1 ≤ budget) (hv : s.verify = false)
    {f : Nat → α → α} (hcb : cb.Forgets f) (hstore : ∀ y, s.store.settle y = .ok y) (w : ω) :
    ((∃ y t, s.run cb w = .ok (.ok y, t)) ↔ (n : Int) < noStep) ∧
      ((n : Int) < noStep → ∃ t, s.run cb w = .ok (.ok (trajectory f s.state n), t) ∧
        (t.calls.filter (·.kind == .reverse)).map (fun call => (call.step, call.state)) =
          (List.range (n + 1)).reverse.map (fun (i : Nat) =>
            ((i : Int), trajectory f s.state i)) ∧
        (∀ call ∈ t.calls, ∃ k : Nat, call.step = k ∧ call.state = trajectory f s.state k) ∧
        t.updateCount ≤ n + n * (n - 1) / 2) := by
  have hends (hn : (n : Int) < noStep) := exists_run_recalls h.steps hv (h.bench_eq hb)
    (Schedule.sound_of_create (show (Number.whole budget).whole? = _ from rfl) rfl)
    (lossy_of_forgets hcb hb hn hstore) rfl w
  constructor
  · refine ⟨fun ⟨y, t, hrun⟩ => h.lt_noStep hb hrun, fun hn => ?_⟩
    obtain ⟨z, t, hrun, _⟩ := hends hn
    exact ⟨z, t, hrun⟩
  · intro hn
    obtain ⟨_, t, hrun, rfl, hrecalls⟩ := hends hn
    have hsees (call : Call α) (hcall : call ∈ t.calls) :
        ∃ k : Nat, call.step = k ∧ call.state = trajectory f s.state k := by
      obtain ⟨k, hstep, hstate⟩ := hrecalls.sees call (List.mem_reverse.mp hcall)
      exact ⟨k, hstep, hstate.elim id id⟩
    refine ⟨t, hrun, Run.reverse_calls_eq ?_ ?_, hsees, hrecalls.updateCount_le⟩
    · intro call hcall
      obtain ⟨k, hstep, hstate⟩ := hsees call hcall
      rw [hstate, hstep, Int.toNat_natCast]
    · rw [hrecalls.reversed, List.range_eq_range']
      rfl

/-- Each update makes the schedule forget all that it can, each step back the step two before. -/
def forgetting : Callbacks Unit Nat Empty where
  update _ x world b := (.ok (x + 1), world, b.withSchedule b.schedule.reset)
  reverse n _ world b := (.ok (), world, b.withSchedule (b.schedule.erase (n - 2)).2)

theorem forgets_forgetting : forgetting.Forgets fun _ x => x + 1 where
  update := fun _ _ _ b => ⟨_, _, rfl, ⟨[.reset], by simp [Schedule.Request.Forgets], rfl⟩, rfl⟩
  reverse := fun n _ _ b => ⟨_, _, rfl, ⟨[.erase ((n : Int) - 2)],
    by simp [Schedule.Request.Forgets], rfl⟩, rfl⟩

theorem forgotten_recalled_five_three :
    ∃ t, (counted 5 3).run forgetting () = .ok (.ok 5, t) ∧
      (t.calls.filter (·.kind == .reverse)).map (fun call => (call.step, call.state)) =
        [(5, 5), (4, 4), (3, 3), (2, 2), (1, 1), (0, 0)] ∧ t.updateCount ≤ 15 := by
  obtain ⟨_, hends⟩ := (asks_counted 5 3).forgotten_recalled (by decide) rfl forgets_forgetting
    (fun _ => rfl) ()
  obtain ⟨t, hrun, hreverse, _, hle⟩ := hends (by decide)
  exact ⟨t, hrun, hreverse, hle⟩

/-- With more steps than there are indices nothing comes out, although nothing is lost either. -/
theorem not_forgotten_recalled_of_many_steps :
    (counted (2 ^ 63) 1).Asks (2 ^ 63) 1 ∧ (counted (2 ^ 63) 1).verify = false ∧
      forgetting.Forgets (fun _ x => x + 1) ∧
      (∀ y, (counted (2 ^ 63) 1).store.settle y = .ok y) ∧
      ¬ ∃ y t, (counted (2 ^ 63) 1).run forgetting () = .ok (.ok y, t) := by
  refine ⟨asks_counted _ _, rfl, forgets_forgetting, fun _ => rfl, ?_⟩
  rintro ⟨y, t, hrun⟩
  have hlt := (asks_counted _ _).lt_noStep (Nat.le_refl 1) hrun
  exact absurd hlt (by decide)

end Setup
end ReverseSweep
