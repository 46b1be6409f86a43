import ReverseSweep.Proofs.Costs
import ReverseSweep.Proofs.Verdicts

/-! One cell of a grid: a sweep over a chain whose states only count. Either there is a reason that
it is refused or fails for, or its counters follow from what was recomputed. -/

namespace ReverseSweep.BudgetGrid

open Setup

variable {n m : Int} {budget : Nat} {fault : Fault} {z : Nat} {t : Run Unit Nat}

/-- Why there is no cell for a number of steps and a storage size. -/
def fault? (n m : Int) : Option Fault :=
  if m < 0 then some (.negativeBudget (.whole m))
  else if n < 0 then some (.negativeSteps (.whole n))
  else if noStep < n then some .tooManySteps
  else if n = noStep then some (.invalidStep noStep)
  else if m = 0 ∧ 1 ≤ n then some (.replayDropped 1)
  else none

theorem fault?_eq_none_iff :
    fault? n m = none ↔ 0 ≤ n ∧ n < noStep ∧ 0 ≤ m ∧ (m = 0 → n = 0) := by
  unfold fault?
  split_ifs <;> simp <;> omega

def measured (n m : Int) : Except Fault Cell :=
  measure (.str Schedule.knownStrategy) (.int n) (.int m)

/-- The sweep that is measured. -/
def sweepOf (n : Int) (budget : Nat) : Setup Nat where
  steps := .int n
  storageSize := .int budget
  state := 0
  supply := .schedule (.ofBudget budget)

theorem measured_of_negative (hm : m < 0) : measured n m = .error (.negativeBudget (.whole m)) := by
  simp [measured, measure, Schedule.choose, Json.str?, Json.number, Json.number?, Schedule.create,
    Number.below, hm, Bind.bind, Except.bind]

theorem measured_eq (n : Int) (budget : Nat) :
    measured n budget = (do
      match ← (sweepOf n budget).run counting () with
      | (.error (.fault fault), _) => .error fault
      | (.ok _, t) =>
        let counters := t.bench.schedule.counters
        .ok ⟨.int n, .int budget, counters, Journal.ratio counters.recomputations n.toNat⟩) := by
  simp [measured, measure, Schedule.choose, Json.str?, Json.number, Json.number?, Schedule.create,
    Number.below, Bind.bind, Except.bind]
  rfl

theorem measured_of_refused (h : (sweepOf n budget).run counting () = .error fault) :
    measured n budget = .error fault := by
  rw [measured_eq, h]
  rfl

theorem measured_of_stops
    (h : (sweepOf n budget).run counting () = .ok (.error (.fault fault), t)) :
    measured n budget = .error fault := by
  rw [measured_eq, h]
  rfl

theorem measured_of_ends (h : (sweepOf n budget).run counting () = .ok (.ok z, t)) :
    measured n budget = .ok ⟨.int n, .int budget, t.bench.schedule.counters,
      Journal.ratio t.bench.schedule.counters.recomputations n.toNat⟩ := by
  rw [measured_eq, h]
  rfl

theorem asks_sweepOf (n budget : Nat) : (sweepOf n budget).Asks n budget :=
  ⟨rfl, .inl rfl, rfl⟩

theorem opens_sweepOf (hn : 0 ≤ n) (budget : Nat) :
    (sweepOf n budget).Opens counting (fun _ => True) budget (.ofBudget budget) where
  verify := rfl
  bench := by
    rw [bench_of_int (N := n) rfl, if_neg (by omega)]
    rfl
  sound := Schedule.sound_of_create (show (Number.whole budget).whole? = _ from rfl) (by
    simp [Schedule.create, Number.below, Schedule.ofBudget])
  follows := computes_counting.mono fun _ _ _ _ _ => trivial
  state := trivial
  settle := fun y _ => ⟨y, rfl, trivial⟩

/-- A reason is what the measurement ends with. -/
theorem measured_of_fault (h : fault? n m = some fault) : measured n m = .error fault := by
  unfold fault? at h
  split_ifs at h with hm hn hmany hnone hdrop <;> obtain rfl := Option.some.inj h
  · exact measured_of_negative hm
  all_goals
    obtain ⟨budget, rfl⟩ := Int.eq_ofNat_of_zero_le (Int.not_lt.mp hm)
  · refine measured_of_refused (Setup.run_of_refused _ ?_ counting ())
    rw [bench_of_int (N := n) rfl, if_pos hn]
  · obtain ⟨t, hrun⟩ := (opens_sweepOf (by omega) budget).exists_run_tooManySteps rfl hmany ()
    exact measured_of_stops hrun
  · obtain rfl := hnone
    obtain ⟨t, hrun⟩ := (opens_sweepOf (by decide) budget).exists_run_invalidStep rfl ()
    exact measured_of_stops hrun
  · obtain ⟨hzero, hpos⟩ := hdrop
    obtain rfl : budget = 0 := by omega
    obtain ⟨steps, rfl⟩ := Int.eq_ofNat_of_zero_le (by omega : 0 ≤ n)
    obtain ⟨t, hrun, _⟩ := (opens_sweepOf (by omega) 0).exists_run_drops (n := steps) rfl
      (by omega) (by omega) ()
    exact measured_of_stops hrun

/-- The cell of a sweep that ends: what was evicted was recomputed, and stored once more. -/
structure Cell.Accounts (c : Cell) (n m : Int) : Prop where
  range : 0 ≤ n ∧ n < noStep
  steps : c.steps = .int n
  storageSize : c.storageSize = .int m
  evictions : c.counters.evictions = c.counters.recomputations
  stores : c.counters.stores = n + 1 + c.counters.recomputations
  ratio : c.ratio = nearestQuotient c.counters.recomputations (max n 1).toNat
  free_iff : c.counters.recomputations = 0 ↔ n ≤ m
  nonneg : 0 ≤ c.counters.recomputations
  most : 2 * c.counters.recomputations ≤ n * (n - 1)

theorem ratio_toNat (recomputed n : Int) :
    Journal.ratio recomputed n.toNat = nearestQuotient recomputed (max n 1).toNat := by
  have hmax : max n.toNat 1 = (max n 1).toNat := by omega
  rw [Journal.ratio, hmax]

/-- Without steps there is nothing to recompute, and no budget is needed. -/
theorem exists_run_zero : ∃ z t, (sweepOf 0 0).run counting () = .ok (.ok z, t) ∧
    t.bench.schedule.counters = ⟨1, 0, 0⟩ := by
  let b : Bench Nat := (sweepOf 0 0).begin 0
  let r : Run Unit Nat := ⟨(), (b.keep 0 0).2, [], 0⟩
  have hstart : (Sweep.start false 0 : Sweep Unit Nat Empty Unit) ⟨(), b, [], 0⟩ = (.ok (), r) :=
    rfl
  have hreach : Sweep.reach counting false 0 r = (.ok (), r) :=
    Sweep.reach_of_le (show _ = some 0 from rfl) (Int.le_refl 0)
  obtain ⟨t, hback, hcounters⟩ : ∃ t, Sweep.stepBack counting false 0 r = (.ok (), t) ∧
      t.bench.schedule.counters = ⟨1, 0, 0⟩ := ⟨_, Sweep.bind_of_ok hreach _, rfl⟩
  refine ⟨0, t, ?_, hcounters⟩
  rw [(sweepOf 0 0).run_of_bench (b := b) rfl]
  refine congrArg Except.ok ((Sweep.bind_of_ok hstart _).trans ?_)
  exact Sweep.bind_of_ok hback _

/-- A measurement that there is no reason against gives a cell. -/
theorem exists_measured (h : fault? n m = none) : ∃ c, measured n m = .ok c ∧ c.Accounts n m := by
  obtain ⟨hn, hlt, hm, hzero⟩ := fault?_eq_none_iff.mp h
  obtain ⟨n, rfl⟩ := Int.eq_ofNat_of_zero_le hn
  obtain ⟨budget, rfl⟩ := Int.eq_ofNat_of_zero_le hm
  rcases Nat.eq_zero_or_pos budget with rfl | hb
  · obtain rfl : n = 0 := by omega
    obtain ⟨z, t, hrun, hcounters⟩ := exists_run_zero
    exact ⟨_, measured_of_ends hrun, ⟨hn, hlt⟩, rfl, rfl, by simp [hcounters], by simp [hcounters],
      ratio_toNat _ _, by simp [hcounters], by simp [hcounters], by simp [hcounters]⟩
  · have hc := course_steady_of_harmless (s := sweepOf n budget) computes_counting.harmless hb hlt
      fun y => ⟨y, rfl⟩
    obtain ⟨z, t, held, hrun, _, hcompletes⟩ := (asks_sweepOf n budget).exists_completes hc trivial ()
    have hrecomputations : t.bench.schedule.counters.recomputations = replays held n :=
      hcompletes.reached.counts.recomputations
    have hevictions : t.bench.schedule.counters.evictions = replays held n := hcompletes.evictions
    have hstores : t.bench.schedule.counters.stores = 1 + n + replays held n :=
      hcompletes.reached.counts.stores
    have hfree : replays held n = 0 ↔ n ≤ budget := hcompletes.replays_eq_zero_iff
    have hmost : 2 * replays held n ≤ n * (n - 1) := by
      have hle : replays held n ≤ n * (n - 1) / 2 := replays_le hcompletes.held_steps
      omega
    have hpairs : ((n * (n - 1) : Nat) : Int) = n * (n - 1) := by
      cases n <;> simp
    refine ⟨_, measured_of_ends hrun, ⟨hn, hlt⟩, rfl, rfl, ?_, ?_, ratio_toNat _ _, ?_, ?_, ?_⟩
    all_goals dsimp only
    · rw [hevictions, hrecomputations]
    · rw [hstores, hrecomputations, Int.add_comm 1]
    · rw [hrecomputations]
      omega
    · rw [hrecomputations]
      exact Int.natCast_nonneg _
    · rw [hrecomputations, ← hpairs]
      exact_mod_cast hmost

end ReverseSweep.BudgetGrid
