import ReverseSweep.Experiment.BudgetGrid
import ReverseSweep.Proofs.WayBack

/-! Sweeps as a caller asks for them: a number of steps, a budget, and an empty store. -/

namespace ReverseSweep

variable {ω α ε : Type}

namespace Sweep

variable [Movable α] {cb : Callbacks ω α ε} {verify : Bool} {r t : Run ω α} {y z : α}

/-- Whatever the callbacks do, a way forward that ends has not come to the step that is none. -/
theorem lt_noStep_of_advance {count n : Nat} (hn : (n : Int) < noStep)
    (h : advance cb verify count n y r = (.ok z, t)) : ((n + count : Nat) : Int) < noStep := by
  induction count generalizing n y r with
  | zero => exact hn
  | succ count ih =>
    rw [advance] at h
    obtain ⟨next, r₁, _, h⟩ := exists_of_bind_eq_ok h
    obtain ⟨taken, r₂, hoffer, h⟩ := exists_of_bind_eq_ok h
    obtain ⟨_, r₃, _, h⟩ := exists_of_bind_eq_ok h
    obtain ⟨_, r₄, _, h⟩ := exists_of_bind_eq_ok h
    obtain ⟨_, r₅, _, h⟩ := exists_of_bind_eq_ok h
    have hne : ((n + 1 : Nat) : Int) ≠ noStep := by
      intro he
      rw [show ((n : Int) + 1) = noStep from he] at hoffer
      simp [onBench, Bench.offer, Schedule.offer_noStep, Except.mapError] at hoffer
    have hlt := ih (by omega) h
    rwa [Nat.add_assoc, Nat.add_comm 1] at hlt

end Sweep

/-- No callback fails or touches schedule and store, and `next` says what the updates give. -/
structure Callbacks.Follows {ω α ε : Type} (cb : Callbacks ω α ε) (next : Nat → α → α → Prop) :
    Prop where
  update : ∀ (n : Nat) y w b, ∃ z w' b', cb.update n y w b = (.ok z, w', b') ∧ next n y z ∧
    b'.schedule = b.schedule ∧ b'.store = b.store
  reverse : ∀ (n : Nat) y w b, ∃ w' b', cb.reverse n y w b = (.ok (), w', b') ∧
    b'.schedule = b.schedule ∧ b'.store = b.store

def Callbacks.Computes (cb : Callbacks ω α ε) (f : Nat → α → α) : Prop :=
  cb.Follows fun n y z => z = f n y

def Callbacks.Harmless (cb : Callbacks ω α ε) : Prop := cb.Follows fun _ _ _ => True

theorem Callbacks.Follows.mono {cb : Callbacks ω α ε} {next next' : Nat → α → α → Prop}
    (h : cb.Follows next) (himp : ∀ n y z, next n y z → next' n y z) : cb.Follows next' where
  update := by
    intro n y w b
    obtain ⟨z, w', b', hu, hz, hsame⟩ := h.update n y w b
    exact ⟨z, w', b', hu, himp n y z hz, hsame⟩
  reverse := h.reverse

theorem Callbacks.Follows.harmless {cb : Callbacks ω α ε} {next : Nat → α → α → Prop}
    (h : cb.Follows next) : cb.Harmless := h.mono fun _ _ _ _ => trivial

namespace Setup

/-- A sweep that is not refused starts on a schedule and a store that hold nothing. -/
theorem bench_eq_ok {s : Setup α} {b : Bench α} (h : s.bench = .ok b) :
    s.schedule = .ok b.schedule ∧ b.schedule.slots = [] ∧ b.store.entries = [] := by
  unfold bench at h
  cases hsteps : s.steps.number with
  | error fault => simp [hsteps, Bind.bind, Except.bind] at h
  | ok steps =>
    cases hschedule : s.schedule with
    | error fault =>
      simp only [hsteps, hschedule, Bind.bind, Except.bind] at h
      split at h <;> cases h
    | ok schedule =>
      simp only [hsteps, hschedule, Bind.bind, Except.bind] at h
      split at h
      · cases h
      split at h
      · cases h
      · rename_i hfresh
        cases h
        simpa [Schedule.size, Store.size, List.length_eq_zero_iff] using hfresh

theorem bench_eq_of_steps {s : Setup α} {n : Nat} {fresh : Schedule} (hn : s.steps = .int n)
    (hs : s.schedule = .ok fresh) :
    s.bench = if fresh.size ≠ 0 ∨ s.store.size ≠ 0 then .error .notFresh
      else .ok ⟨fresh, s.store, s.journal, s.now⟩ := by
  have hnonneg : ¬ (n : Int) < 0 := by omega
  simp [bench, hn, hs, Json.number, Json.number?, Number.below, hnonneg, Bind.bind, Except.bind]

theorem count_int {n : Nat} (hn : (n : Int) ≤ Json.greatestIndex) :
    (Json.int n).count = .ok n := by
  simp [Json.count, Json.whole?, Json.number?, Number.whole?, Int.not_lt.mpr hn]

theorem count_int_of_lt {n : Int} (hn : Json.greatestIndex < n) :
    (Json.int n).count = .error .tooManySteps := by
  simp [Json.count, Json.whole?, Json.number?, Number.whole?, hn]

/-- A sweep over `n` steps with a budget, from an empty store. The schedule is a new one: it is
supplied, or made for the storage size. -/
structure Asks (s : Setup α) (n budget : Nat) : Prop where
  steps : s.steps = .int n
  supply : s.supply = .schedule (.ofBudget budget) ∨
    s.supply = .fromStorageSize ∧ s.storageSize = .int budget
  entries : s.store.entries = []

def begin (s : Setup α) (budget : Nat) : Bench α := ⟨.ofBudget budget, s.store, s.journal, s.now⟩

def course (s : Setup α) (cb : Callbacks ω α ε) (n budget : Nat) (made kept : Nat → α → Prop) :
    Course ω α ε where
  callbacks := cb
  verify := s.verify
  steps := n
  budget := budget
  device := s.store.device
  made := made
  kept := kept
  puts := s.store.puts
  discards := s.store.discards
  journal := s.journal

variable {s : Setup α} {cb : Callbacks ω α ε} {n budget : Nat} {made kept : Nat → α → Prop} {w : ω}

theorem Asks.begins {m : Nat} (h : s.Asks m budget) :
    (s.course cb n budget made kept).Begins (s.begin budget) :=
  ⟨rfl, h.entries, rfl, rfl, rfl, rfl⟩

theorem Asks.schedule_eq (h : s.Asks n budget) (hb : 1 ≤ budget) :
    s.schedule = .ok (.ofBudget budget) := by
  rcases h.supply with hs | ⟨hs, hsize⟩
  · rw [Setup.schedule, hs]
  · have hlarge : ¬ (budget : Int) < 1 := by omega
    have hnonneg : ¬ (budget : Int) < 0 := by omega
    simp only [Setup.schedule, hs, hsize]
    simp [Json.number, Json.number?, Number.below, Schedule.create, hlarge, hnonneg,
      Schedule.ofBudget, Bind.bind, Except.bind]

theorem Asks.bench_eq (h : s.Asks n budget) (hb : 1 ≤ budget) :
    s.bench = .ok (s.begin budget) := by
  rw [bench_eq_of_steps h.steps (h.schedule_eq hb)]
  simp [Schedule.ofBudget, Schedule.size, Store.size, h.entries, begin]

variable [Movable α]

theorem course_steady {next : Nat → α → α → Prop} (hcb : cb.Follows next) (hb : 1 ≤ budget)
    (hn : (n : Int) < noStep)
    (hsettle : ∀ k y, made k y → ∃ z, s.store.settle y = .ok z ∧ kept k z)
    (hnext : ∀ k y z, made k y ∨ kept k y → next k y z → made (k + 1) z) :
    (s.course cb n budget made kept).Steady where
  budget_pos := hb
  steps_lt := hn
  settle := by
    intro store hdevice k _ y hy
    rw [Store.settle_of_device_eq hdevice y]
    exact hsettle k y hy
  update := by
    intro k _ y hy w b
    obtain ⟨z, w', b', hu, hz, hsame⟩ := hcb.update k y w b
    exact ⟨z, w', b', hu, hnext k y z hy hz, hsame⟩
  reverse := fun k _ y _ w b => hcb.reverse k y w b

theorem course_steady_of_harmless (hcb : cb.Harmless) (hb : 1 ≤ budget) (hn : (n : Int) < noStep)
    (hsettle : ∀ y, ∃ z, s.store.settle y = .ok z) :
    (s.course cb n budget (fun _ _ => True) fun _ _ => True).Steady :=
  course_steady hcb hb hn (fun _ y _ => (hsettle y).imp fun _ hz => ⟨hz, trivial⟩)
    fun _ _ _ _ _ => trivial

theorem Asks.run_eq (h : s.Asks n budget) (hb : 1 ≤ budget) (hn : (n : Int) ≤ Json.greatestIndex) :
    s.run cb w =
      .ok (Sweep.sweep cb s.verify n s.state ⟨w, s.begin budget, [], 0⟩) := by
  have hcount : s.steps.count = .ok n := h.steps ▸ count_int hn
  simp [Setup.run, h.bench_eq hb, Except.map, hcount, Sweep.sweepOf]

theorem Asks.run_eq_of_greatestIndex_lt (h : s.Asks n budget) (hb : 1 ≤ budget)
    (hn : Json.greatestIndex < (n : Int)) :
    s.run cb w = .ok (Sweep.sweepOf cb s.verify (.error .tooManySteps) s.state
      ⟨w, s.begin budget, [], 0⟩) := by
  have hcount : s.steps.count = .error .tooManySteps := h.steps ▸ count_int_of_lt hn
  simp [Setup.run, h.bench_eq hb, Except.map, hcount]

theorem Asks.exists_run_tooManySteps_of_steady (h : s.Asks n budget)
    (hn : Json.greatestIndex < (n : Int)) (hc : (s.course cb 0 budget made kept).Steady)
    (hy : made 0 s.state) (w : ω) :
    ∃ t, s.run cb w = .ok (.error (.fault .tooManySteps), t) ∧
      t.bench.schedule.counters.recomputations = 0 ∧ t.calls = [] := by
  obtain ⟨t, ht, hreached, hcalls⟩ := h.begins.reached_start hc hy w
  refine ⟨t, ?_, hreached.counts.recomputations, List.map_eq_nil_iff.mp hcalls⟩
  rw [h.run_eq_of_greatestIndex_lt hc.budget_pos hn, Sweep.sweepOf]
  exact congrArg _ (Sweep.bind_of_ok ht _)

theorem Asks.exists_run_tooManySteps (h : s.Asks n budget) (hb : 1 ≤ budget)
    (hn : Json.greatestIndex < (n : Int)) (hcb : cb.Harmless)
    (hsettle : ∀ y, ∃ z, s.store.settle y = .ok z) (w : ω) :
    ∃ t, s.run cb w = .ok (.error (.fault .tooManySteps), t) ∧
      t.bench.schedule.counters.recomputations = 0 ∧ t.calls = [] :=
  h.exists_run_tooManySteps_of_steady hn (course_steady_of_harmless hcb hb (by decide) hsettle)
    trivial w

/-- A sweep that ends has not come to the step that is none. -/
theorem Asks.lt_noStep (h : s.Asks n budget) (hb : 1 ≤ budget) {y : α} {t : Run ω α}
    (hrun : s.run cb w = .ok (.ok y, t)) : (n : Int) < noStep := by
  by_cases hn : (n : Int) ≤ Json.greatestIndex
  · rw [h.run_eq hb hn] at hrun
    have hsweep := Except.ok.inj hrun
    rw [Sweep.sweep] at hsweep
    obtain ⟨_, _, _, hsweep⟩ := Sweep.exists_of_bind_eq_ok hsweep
    obtain ⟨_, _, hadvance, _⟩ := Sweep.exists_of_bind_eq_ok hsweep
    have hlt := Sweep.lt_noStep_of_advance (by decide) hadvance
    rwa [Nat.zero_add] at hlt
  · rw [h.run_eq_of_greatestIndex_lt hb (by omega)] at hrun
    have hsweep := Except.ok.inj hrun
    obtain ⟨_, _, _, hask⟩ := Sweep.exists_of_bind_eq_ok hsweep
    cases hask

theorem Asks.exists_completes (h : s.Asks n budget)
    (hc : (s.course cb n budget made kept).Steady) (hy : made 0 s.state) (w : ω) :
    ∃ z t held, s.run cb w = .ok (.ok z, t) ∧ made n z ∧
      (s.course cb n budget made kept).Completes (s.begin budget) w s.state held t := by
  obtain ⟨z, t, held, hsweep, hz, hcompletes⟩ := h.begins.exists_completes hc hy w
  refine ⟨z, t, held, ?_, hz, hcompletes⟩
  rw [h.run_eq hc.budget_pos (Int.le_of_lt hc.steps_lt)]
  exact congrArg _ hsweep

theorem Asks.exists_run_eq_ok_iff (h : s.Asks n budget) (hb : 1 ≤ budget) (hcb : cb.Harmless)
    (hsettle : ∀ y, ∃ z, s.store.settle y = .ok z) (w : ω) :
    (∃ z t, s.run cb w = .ok (.ok z, t)) ↔ (n : Int) < noStep := by
  refine ⟨fun ⟨z, t, hrun⟩ => h.lt_noStep hb hrun, fun hn => ?_⟩
  have hc := course_steady_of_harmless hcb hb hn hsettle
  obtain ⟨z, t, _, hrun, _⟩ := h.exists_completes hc trivial w
  exact ⟨z, t, hrun⟩

/-- A sweep whose states count its steps. -/
def counted (n budget : Nat) (journal : Option Journal := none) : Setup Nat where
  steps := .int n
  storageSize := .int budget
  state := 0
  journal := journal

theorem asks_counted (n budget : Nat) (journal : Option Journal := none) :
    (counted n budget journal).Asks n budget :=
  ⟨rfl, .inr ⟨rfl, rfl⟩, rfl⟩

theorem computes_counting : BudgetGrid.counting.Computes fun _ x => x + 1 where
  update := fun _ _ _ b => ⟨_, _, b, rfl, rfl, rfl, rfl⟩
  reverse := fun _ _ _ b => ⟨_, b, rfl, rfl, rfl⟩

end Setup
end ReverseSweep
