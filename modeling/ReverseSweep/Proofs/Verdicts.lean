import ReverseSweep.Proofs.Cramped
import ReverseSweep.Proofs.Observers

/-! When a sweep is refused, when it fails, and when it ends. Most refusals come before anything is
touched. What fails later are sweeps with too many steps, and sweeps whose schedule has no room for
anything to be recomputed. -/

namespace ReverseSweep

variable {ω α ε : Type}

namespace Sweep

variable [Movable α] {cb : Callbacks ω α ε} {P : Run ω α → Prop} {n : Nat} {y : α}

/-- The step that is none is refused. -/
def Overruns {ω α ε : Type} (e : Stop ε) (_ : Run ω α) : Prop := e = .fault (.invalidStep noStep)

theorem ensures_forward_noStep (hcb : cb.Harmless) (hn : ((n + 1 : Nat) : Int) = noStep) :
    Ensures P (forward cb false n y) (fun _ _ => False) Overruns := by
  have hoffer (b : Bench α) (z : α) :
      b.offer ((n : Int) + 1) z = (.error (.invalidStep noStep), b.withSchedule b.schedule) := by
    rw [show (n : Int) + 1 = noStep from hn]
    simp only [Bench.offer, Schedule.offer_noStep]
  have hupdate : Ensures P (update cb n y) (fun _ _ => True) Overruns := by
    refine Ensures.callback_of fun r _ => ?_
    obtain ⟨z, w, b, hu, _⟩ := hcb.update n y r.world r.bench
    exact ⟨z, w, b, hu, trivial⟩
  refine hupdate.andThen fun z => Ensures.stops (Ensures.onBench_refused fun r _ => ?_)
  exact ⟨_, _, hoffer r.bench z, rfl⟩

/-- A way forward that is kept up to the step that is none ends there. -/
theorem ensures_advance_noStep (hcb : cb.Harmless) {J : Nat → α → Run ω α → Prop}
    (h : ∀ n : Nat, ((n + 1 : Nat) : Int) < noStep → ∀ y,
      Ensures (J n y) (forward cb false n y) (fun z => J (n + 1) z) Overruns) (y : α) :
    Ensures (J 0 y) (advance cb false noStep.toNat 0 y) (fun _ _ => False) Overruns := by
  have hstep : ∀ n < noStep.toNat, ∀ y,
      Ensures (fun r => (n : Int) < noStep ∧ J n y r) (forward cb false n y)
        (fun z r => ((n + 1 : Nat) : Int) < noStep ∧ J (n + 1) z r) Overruns := by
    intro n hn y
    by_cases hlt : ((n + 1 : Nat) : Int) < noStep
    · exact (h n hlt y).mono (fun _ hr => hr.2) (fun _ _ hr => ⟨hlt, hr⟩) fun _ _ h => h
    · exact (ensures_forward_noStep hcb (by omega)).mono (fun _ hr => hr)
        (fun _ _ h => absurd h id) fun _ _ h => h
  refine (Ensures.advanceTo hstep noStep.toNat 0 y (Nat.le_of_eq (Nat.zero_add _))).mono
    (fun _ hr => ⟨by decide, hr⟩) ?_ fun _ _ h => h
  rintro _ _ ⟨hlt, _⟩
  omega

theorem ensures_sweep_noStep (hcb : cb.Harmless) {J : Nat → α → Run ω α → Prop}
    (hstart : Ensures P (start false y : Sweep ω α ε Unit) (fun _ => J 0 y) Overruns)
    (h : ∀ n : Nat, ((n + 1 : Nat) : Int) < noStep → ∀ y,
      Ensures (J n y) (forward cb false n y) (fun z => J (n + 1) z) Overruns) :
    Ensures P (sweep cb false noStep.toNat y) (fun _ _ => False) Overruns :=
  hstart.andThen fun _ => (ensures_advance_noStep hcb h y).stops

end Sweep

namespace Setup

variable [Movable α] {s : Setup α} {cb : Callbacks ω α ε} {n budget : Nat} {N M : Int}
  {good : α → Prop} {fresh : Schedule}

theorem exists_run_error {b : Bench α} {count : Except Fault Nat} {P : Run ω α → Prop}
    {E : Stop ε → Run ω α → Prop} (hbench : s.bench = .ok b) (hcount : s.steps.count = count)
    (h : Sweep.Ensures P (Sweep.sweepOf cb s.verify count s.state) (fun _ _ => False) E) {w : ω}
    (hP : P ⟨w, b, [], 0⟩) : ∃ e t, s.run cb w = .ok (.error e, t) ∧ E e t := by
  rw [s.run_of_bench hbench, hcount]
  obtain ⟨e, t, hstops, he⟩ := h.exists_eq_error hP
  exact ⟨e, t, congrArg Except.ok hstops, he⟩

/-- A sweep whose first state the store refuses ends with that refusal. -/
theorem exists_run_unsettled {b : Bench α} (hbench : s.bench = .ok b)
    (hsound : b.schedule.Sound budget) (hcount : s.steps.count = .ok n) {fault : Fault}
    (hsettle : b.store.settle s.state = .error fault) (cb : Callbacks ω α ε) (w : ω) :
    ∃ t, s.run cb w = .ok (.error (.fault fault), t) := by
  obtain ⟨t, ho, _⟩ := hsound.offer_root (bench_eq_ok hbench).2.1
  have hkeep : b.keep 0 s.state = (.error fault, b.withSchedule t) := by
    have hsettle' : (b.withSchedule t).store.settle s.state = .error fault := hsettle
    simp only [Bench.keep, ho, Bench.put, Store.put, hsettle', Except.map]
  have hsweep : Sweep.Ensures (fun r : Run ω α => r.bench = b)
      (Sweep.sweepOf cb s.verify (.ok n) s.state) (fun _ _ => False)
      fun e _ => e = .fault fault := by
    refine Sweep.Ensures.stops (Sweep.Ensures.stops (Sweep.Ensures.onBench_refused ?_))
    rintro r rfl
    exact ⟨fault, _, hkeep, rfl⟩
  obtain ⟨_, t, hrun, rfl⟩ := exists_run_error hbench hcount hsweep rfl
  exact ⟨t, hrun⟩

theorem lossy_of_good (hcb : cb.Follows fun _ y z => good y → good z)
    (hstore : ∀ y, good y → ∃ z, s.store.settle y = .ok z ∧ good z)
    (hroom : 0 < n → 1 ≤ budget) (hn : (n : Int) < noStep) :
    (s.course cb n budget (fun _ => good) fun _ => good).Lossy where
  room := hroom
  steps_lt := hn
  settle := by
    intro store hdevice _ _ y hy
    rw [Store.settle_of_device_eq hdevice y]
    exact hstore y hy
  update := by
    intro k _ y hy w b
    obtain ⟨z, w', b', hu, hz, hs, ht⟩ := hcb.update k y w b
    exact ⟨z, w', b', hu, hz (hy.elim id id), hs ▸ .refl _ _, ht⟩
  reverse := by
    intro k _ y _ w b
    obtain ⟨w', b', hr, hs, ht⟩ := hcb.reverse k y w b
    exact ⟨w', b', hr, hs ▸ .refl _ _, ht⟩

/-- A sweep that is not refused, on states that the store takes. -/
structure Opens (s : Setup α) (cb : Callbacks ω α ε) (good : α → Prop) (budget : Nat)
    (fresh : Schedule) : Prop where
  verify : s.verify = false
  bench : s.bench = .ok ⟨fresh, s.store, s.journal, s.now⟩
  sound : fresh.Sound budget
  follows : cb.Follows fun _ y z => good y → good z
  state : good s.state
  settle : ∀ y, good y → ∃ z, s.store.settle y = .ok z ∧ good z

namespace Opens

theorem starts (h : s.Opens cb good budget fresh) (n : Nat) (w : ω) :
    (s.course cb n budget (fun _ => good) fun _ => good).Starts
      ⟨w, ⟨fresh, s.store, s.journal, s.now⟩, [], 0⟩ := by
  obtain ⟨_, hslots, hentries⟩ := bench_eq_ok h.bench
  exact ⟨rfl, hslots, h.sound, hentries, rfl⟩

theorem tight (h : s.Opens cb good 0 fresh) (w : ω) :
    Sweep.Tight fresh s.state ⟨w, ⟨fresh, s.store, s.journal, s.now⟩, [], 0⟩ := by
  obtain ⟨_, hslots, hentries⟩ := bench_eq_ok h.bench
  obtain ⟨z, hz, _⟩ := h.settle _ h.state
  exact ⟨rfl, hslots, h.sound, hentries, ⟨z, hz⟩, rfl⟩

theorem exists_run_tooManySteps (h : s.Opens cb good budget fresh) (hsteps : s.steps = .int N)
    (hN : noStep < N) (w : ω) : ∃ t, s.run cb w = .ok (.error (.fault .tooManySteps), t) := by
  have hcount : s.steps.count = .error .tooManySteps := hsteps ▸ count_int_of_lt hN
  let c := s.course cb 0 budget (fun _ => good) fun _ => good
  have hc : c.Lossy := lossy_of_good h.follows h.settle (by simp) (by decide)
  have hsweep : Sweep.Ensures c.Starts
      (Sweep.sweepOf cb s.verify (.error .tooManySteps) s.state) (fun _ _ => False)
      fun e _ => e = .fault .tooManySteps := by
    rw [h.verify]
    refine (Course.ensures_start hc h.state).andThen fun _ => ?_
    refine Sweep.Ensures.askBench (fun _ _ _ hask => nomatch hask) fun _ _ _ hask => ?_
    cases hask
    rfl
  obtain ⟨_, t, hrun, rfl⟩ := exists_run_error h.bench hcount hsweep (h.starts 0 w)
  exact ⟨t, hrun⟩

theorem exists_run_invalidStep (h : s.Opens cb good budget fresh) (hsteps : s.steps = .int noStep)
    (w : ω) : ∃ t, s.run cb w = .ok (.error (.fault (.invalidStep noStep)), t) := by
  have hcb := h.follows.harmless
  have hcount : s.steps.count = .ok noStep.toNat := hsteps ▸ count_int (by decide)
  suffices ∃ e t, s.run cb w = .ok (.error e, t) ∧ Sweep.Overruns e t by
    obtain ⟨_, t, hrun, rfl⟩ := this
    exact ⟨t, hrun⟩
  rcases Nat.eq_zero_or_pos budget with rfl | hbudget
  · refine exists_run_error h.bench hcount ?_ (h.tight w)
    rw [h.verify]
    exact Sweep.ensures_sweep_noStep (J := fun n _ => Sweep.Crawls fresh n (updates 0 n)) hcb
      Sweep.ensures_start_crawls fun n hn y => Sweep.ensures_forward_crawls hcb hn
  · have hc := lossy_of_good (n := noStep.toNat - 1) h.follows h.settle (fun _ => hbudget)
      (by decide)
    refine exists_run_error h.bench hcount ?_ (h.starts (noStep.toNat - 1) w)
    rw [h.verify]
    exact Sweep.ensures_sweep_noStep (J := fun n y r => good y ∧ Course.Recalls _ r n _ n) hcb
      ((Course.ensures_start hc h.state).mono (fun _ hr => hr) (fun _ _ hr => ⟨h.state, hr⟩)
        fun _ _ h => h)
      fun n hn y => Course.ensures_forward hc (by change n < noStep.toNat - 1; omega)

theorem exists_run_drops (h : s.Opens cb good 0 fresh) (hsteps : s.steps = .int n) (hn : 1 ≤ n)
    (hlt : (n : Int) < noStep) (w : ω) :
    ∃ t, s.run cb w = .ok (.error (.fault (.replayDropped 1)), t) ∧
      Sweep.Crawls fresh (n + 1) (updates 0 n ++ [(.update, 0)]) t := by
  have hcount : s.steps.count = .ok n := hsteps ▸ count_int (Int.le_of_lt hlt)
  have hsweep : Sweep.Ensures (Sweep.Tight fresh s.state)
      (Sweep.sweepOf cb s.verify (.ok n) s.state) (fun _ _ => False) (Sweep.Drops fresh n) := by
    rw [h.verify]
    exact Sweep.ensures_sweep_crawls h.follows.harmless hn hlt
  obtain ⟨_, t, hrun, rfl, hcrawls⟩ := exists_run_error h.bench hcount hsweep (h.tight w)
  exact ⟨t, hrun, hcrawls⟩

end Opens
end Setup

namespace Supply

def isMissing : Supply → Bool
  | fromStorageSize => true
  | _ => false

def isForeign : Supply → Bool
  | foreign _ => true
  | _ => false

/-- How many steps are held already. -/
def held : Supply → Nat
  | schedule s => s.size
  | _ => 0

/-- The budget is that of the schedule, whatever it was asked before, or else the storage size. -/
def HasBudget (storageSize : Json) (budget : Int) : Supply → Prop
  | fromStorageSize => storageSize = .int budget
  | schedule s => s.Reachable budget
  | foreign _ => True

end Supply

/-- The kind of fault that a sweep is refused for or ends with, if any. -/
def faultKind? : Except Fault (Except (Stop ε) α × Run ω α) → Option Fault.Kind
  | .error fault => some fault.kind
  | .ok (.error (.fault fault), _) => some fault.kind
  | .ok _ => none

namespace Setup

variable {s : Setup α} {N M : Int}

/-- The kind of fault that `N` steps with a budget of `M` are refused for. -/
def refusal (s : Setup α) (N M : Int) : Option Fault.Kind :=
  if N < 0 ∨ s.supply.isMissing ∧ M < 1 then some .value
  else if s.supply.isForeign then some .type
  else if s.supply.held ≠ 0 ∨ s.store.size ≠ 0 then some .contract
  else none

/-- The kind of fault that a sweep ends with once it has started. -/
def failure (N M : Int) : Option Fault.Kind :=
  if noStep < N then some .overflow
  else if N = noStep then some .value
  else if M = 0 ∧ 1 ≤ N then some .contract
  else none

def verdict (s : Setup α) (N M : Int) : Option Fault.Kind := (s.refusal N M).or (failure N M)

theorem bench_of_int (hsteps : s.steps = .int N) :
    s.bench = if N < 0 then .error (.negativeSteps (.whole N))
      else s.schedule.bind fun fresh =>
        if fresh.size ≠ 0 ∨ s.store.size ≠ 0 then .error .notFresh
        else .ok ⟨fresh, s.store, s.journal, s.now⟩ := by
  simp [bench, hsteps, Json.number, Json.number?, Number.below, Bind.bind, Except.bind]

theorem schedule_of_missing (hs : s.supply = .fromStorageSize) (hsize : s.storageSize = .int M) :
    s.schedule = if M < 1 then .error (.storageTooSmall (.whole M))
      else .ok ⟨[], .whole M, {}⟩ := by
  by_cases hM : M < 1
  · simp [schedule, hs, hsize, Json.number, Json.number?, Number.below, hM, Bind.bind, Except.bind]
  · simp [schedule, hs, hsize, Json.number, Json.number?, Number.below, hM, Schedule.create,
      show ¬ M < 0 by omega, Bind.bind, Except.bind]

/-- A sweep is refused, or starts on an empty schedule and an empty store. -/
theorem refused_or_starts (hsteps : s.steps = .int N)
    (hbudget : s.supply.HasBudget s.storageSize M) :
    (∃ fault, s.bench = .error fault ∧ s.refusal N M = some fault.kind) ∨
      ∃ fresh, s.bench = .ok ⟨fresh, s.store, s.journal, s.now⟩ ∧ s.refusal N M = none ∧
        0 ≤ N ∧ fresh.Sound M ∧ (M = 0 → s.supply = .schedule fresh) := by
  rw [bench_of_int hsteps, refusal]
  by_cases hN : N < 0
  · exact .inl ⟨_, if_pos hN, by simp [hN, Fault.kind]⟩
  rw [if_neg hN]
  cases hs : s.supply with
  | foreign kind =>
    refine .inl ⟨.notASchedule kind, ?_, ?_⟩
    · simp [schedule, hs, Except.bind]
    · simp [hN, Supply.isMissing, Supply.isForeign, Fault.kind]
  | fromStorageSize =>
    rw [hs] at hbudget
    rw [schedule_of_missing hs hbudget]
    by_cases hM : M < 1
    · refine .inl ⟨.storageTooSmall (.whole M), ?_, ?_⟩
      · simp [hM, Except.bind]
      · simp [hM, Supply.isMissing, Fault.kind]
    · by_cases hstore : s.store.size = 0
      · refine .inr ⟨⟨[], .whole M, {}⟩, ?_, ?_, by omega, ?_, by omega⟩
        · simp [hM, hstore, Schedule.size, Except.bind]
        · simp [hN, hM, hstore, Supply.isForeign, Supply.held]
        · refine Schedule.sound_of_create (show (Number.whole M).whole? = some M from rfl) ?_
          simp [Schedule.create, Number.below, show ¬ M < 0 by omega]
      · refine .inl ⟨.notFresh, ?_, ?_⟩
        · simp [hM, hstore, Except.bind]
        · simp [hN, hM, hstore, Supply.isForeign, Fault.kind]
  | schedule fresh =>
    rw [hs] at hbudget
    have hschedule : s.schedule = .ok fresh := by rw [schedule, hs]
    rw [hschedule]
    by_cases hempty : fresh.size ≠ 0 ∨ s.store.size ≠ 0
    · refine .inl ⟨.notFresh, ?_, ?_⟩
      · simp [hempty, Except.bind]
      · simp [hN, hempty, Supply.isMissing, Supply.isForeign, Supply.held, Fault.kind]
    · refine .inr ⟨fresh, ?_, ?_, by omega, Schedule.Reachable.sound hbudget, fun _ => rfl⟩
      · simp [hempty, Except.bind]
      · simp [hN, hempty, Supply.isMissing, Supply.isForeign, Supply.held]

/-- The sweep is refused before anything is touched, whatever the callbacks are. -/
def Refuses [Movable α] (s : Setup α) (fault : Fault) : Prop :=
  ∀ (ω ε : Type) (cb : Callbacks ω α ε) (w : ω), s.run cb w = .error fault

end Setup

section Verdicts

open Setup

variable [Movable α] {cb : Callbacks ω α ε} {s : Setup α} {N M : Int} {good : α → Prop}
  {n budget : Nat} {fresh : Schedule} {r : Run ω α}

/-- Neither schedule nor store of the run can be used for another one. -/
def Run.Spent (r : Run ω α) : Prop :=
  ∀ (s : Setup α) (n : Nat) (fresh : Schedule), s.steps = .int n → s.schedule = .ok fresh →
    fresh = r.bench.schedule ∨ s.store = r.bench.store → s.Refuses .notFresh

theorem Run.spent_of_held (hs : r.bench.schedule.size ≠ 0) (ht : r.bench.store.size ≠ 0) :
    r.Spent := by
  intro s n fresh hsteps hfresh hused ω ε cb w
  refine s.run_of_refused ?_ cb w
  rw [bench_eq_of_steps hsteps hfresh]
  refine if_pos (hused.imp ?_ ?_)
  · rintro rfl
    exact hs
  · intro hstore
    rwa [hstore]

theorem Course.Recalls.spent {c : Course ω α ε} {k j m : Nat} (h : c.Recalls r k j m) :
    r.Spent := by
  have hroot := h.backs.rooted.zero_mem
  have hresident := h.backs.resident hroot
  apply Run.spent_of_held
  · intro hsize
    simp [Schedule.steps, List.length_eq_zero_iff.mp hsize] at hroot
  · intro hsize
    simp [Store.steps, List.length_eq_zero_iff.mp hsize] at hresident

/-- Once a sweep has started, its outcome depends on the number of steps and the budget only. -/
theorem Setup.Opens.faultKind?_run (h : s.Opens cb good budget fresh) (hsteps : s.steps = .int n)
    (w : ω) : faultKind? (s.run cb w) = failure n budget ∧
      (failure n budget = none → ∃ z t, s.run cb w = .ok (.ok z, t) ∧ t.Spent) := by
  unfold failure
  split
  · obtain ⟨t, hrun⟩ := h.exists_run_tooManySteps hsteps ‹_› w
    rw [hrun]
    exact ⟨rfl, by simp⟩
  split
  · obtain ⟨t, hrun⟩ := h.exists_run_invalidStep (hsteps.trans (congrArg Json.int ‹_›)) w
    rw [hrun]
    exact ⟨rfl, by simp⟩
  have hn : (n : Int) < noStep := by omega
  split
  · obtain ⟨hbudget, hpos⟩ := ‹_ ∧ _›
    obtain rfl : budget = 0 := by omega
    obtain ⟨t, hrun, _⟩ := h.exists_run_drops hsteps (by omega) hn w
    rw [hrun]
    exact ⟨rfl, by simp⟩
  · have hroom : 0 < n → 1 ≤ budget := by omega
    obtain ⟨z, t, hrun, _, hrecalls⟩ := exists_run_recalls hsteps h.verify h.bench h.sound
      (lossy_of_good h.follows h.settle hroom hn) h.state w
    rw [hrun]
    exact ⟨rfl, fun _ => ⟨z, t, rfl, hrecalls.spent⟩⟩

/-- When a sweep is refused, when it fails, and when it ends. A refusal leaves all untouched and
calls nothing. After a sweep that ends, schedule and store are refused. Without room besides step 0
a sweep fails at the first step back, after one update too many, and leaves step 0 alone. -/
theorem Setup.run_verdict (hsteps : s.steps = .int N)
    (hbudget : s.supply.HasBudget s.storageSize M)
    (hcb : cb.Follows fun _ y z => good y → good z)
    (hstore : ∀ b, s.bench = .ok b →
      good s.state ∧ ∀ y, good y → ∃ z, s.store.settle y = .ok z ∧ good z) (w : ω) :
    faultKind? (s.run cb w) = s.verdict N M ∧
      (s.verdict N M = none → ∃ z t, s.run cb w = .ok (.ok z, t) ∧ t.Spent) ∧
      (s.refusal N M ≠ none → ∃ fault, s.Refuses fault) ∧
      (s.refusal N M = none → N < noStep → M = 0 → 1 ≤ N →
        ∃ fresh t, s.supply = .schedule fresh ∧
          s.run cb w = .ok (.error (.fault (.replayDropped 1)), t) ∧
          t.headings = updates 0 N.toNat ++ [(.update, 0)] ∧
          t.bench.schedule.slots = [⟨0, true⟩] ∧ t.bench.store.steps = [0] ∧
          t.bench.schedule.counters.stores = fresh.counters.stores + N + 2 ∧
          t.bench.schedule.counters.evictions = fresh.counters.evictions ∧
          t.bench.schedule.counters.recomputations = fresh.counters.recomputations) := by
  rcases refused_or_starts hsteps hbudget with
    ⟨fault, hbench, hrefusal⟩ | ⟨fresh, hbench, hrefusal, hN, hsound, hsupply⟩
  · have hverdict : s.verdict N M = some fault.kind := by simp [verdict, hrefusal]
    refine ⟨?_, by simp [hverdict], fun _ => ⟨fault, fun _ _ cb w => s.run_of_refused hbench cb w⟩,
      by simp [hrefusal]⟩
    rw [s.run_of_refused hbench, hverdict]
    rfl
  · obtain ⟨n, rfl⟩ := Int.eq_ofNat_of_zero_le hN
    obtain ⟨budget, rfl⟩ := Int.eq_ofNat_of_zero_le hsound.budget_nonneg
    obtain ⟨hstate, hsettle⟩ := hstore _ hbench
    have hopens : (s.watched s.journal false s.now).Opens cb good budget fresh :=
      ⟨rfl, hbench, hsound, hcb, hstate, hsettle⟩
    have hchecked : (s.watched s.journal false s.now).run cb w = s.run cb w := by
      refine run_checked (fun t ht => ?_) hcb.bystands false w
      obtain rfl : fresh = t := Except.ok.inj ((bench_eq_ok hbench).1.symm.trans ht)
      exact ⟨budget, hsound⟩
    have hverdict : s.verdict n budget = failure n budget := by simp [verdict, hrefusal]
    have houtcome := hopens.faultKind?_run hsteps w
    rw [hchecked, ← hverdict] at houtcome
    refine ⟨houtcome.1, houtcome.2, absurd hrefusal, fun _ hlt hM hpos => ?_⟩
    obtain rfl : budget = 0 := by omega
    obtain ⟨t, hrun, hcrawls⟩ := hopens.exists_run_drops hsteps (by omega) hlt w
    rw [hchecked] at hrun
    refine ⟨fresh, t, hsupply hM, hrun, hcrawls.headings, hcrawls.bench.slots,
      hcrawls.bench.resident, ?_, hcrawls.bench.evictions, hcrawls.bench.recomputations⟩
    have hstores := hcrawls.bench.stores
    omega

/-- Three steps over a number that the store moves to a device. -/
def offloading (device : String) (budget : Nat) : Setup (Placed Nat) where
  steps := .int 3
  storageSize := .int 1
  state := .data 1
  supply := .schedule (.ofBudget budget)
  store := { device := some device }

def raising : Callbacks Unit (Placed Nat) Empty where
  update _ x world b := (.ok (x.map (· + 1)), world, b)
  reverse _ _ world b := (.ok (), world, b)

theorem follows_raising :
    raising.Follows fun _ y z => y.device = .host → z.device = .host where
  update := by
    intro _ y _ b
    refine ⟨_, _, b, rfl, fun hy => ?_, rfl, rfl⟩
    cases y with
    | data _ => rfl
    | shape => exact hy
  reverse := fun _ _ _ b => ⟨_, b, rfl, rfl, rfl⟩

theorem settle_offloading_cpu (budget : Nat) {y : Placed Nat} (hy : y.device = .host) :
    (offloading "cpu" budget).store.settle y = .ok y := by
  have hname : Device.ofName "cpu" = .ok .host := by decide +kernel
  cases y with
  | data x =>
    simp [offloading, Store.settle, Movable.moveTo, Placed.moveTo, hname, Placed.move,
      Placed.onHost, Except.bind, Except.map]
  | shape => cases hy

theorem Setup.run_verdict_offloading :
    faultKind? ((offloading "cpu" 0).run raising ()) = some .contract ∧
      (∃ t, (offloading "cpu" 0).run raising () = .ok (.error (.fault (.replayDropped 1)), t) ∧
        t.headings = [(.update, 0), (.update, 1), (.update, 2), (.update, 0)] ∧
        t.bench.schedule.slots = [⟨0, true⟩] ∧ t.bench.store.steps = [0] ∧
        t.bench.schedule.counters.stores = 5 ∧ t.bench.schedule.counters.evictions = 0 ∧
        t.bench.schedule.counters.recomputations = 0) ∧
      ∃ z t, (offloading "cpu" 2).run raising () = .ok (.ok z, t) ∧ t.Spent := by
  have hreach (budget : Nat) : (Schedule.ofBudget budget).Reachable budget := by
    refine ⟨.whole budget, .ofBudget budget, [], rfl, ?_, rfl⟩
    simp [Schedule.create, Number.below, Schedule.ofBudget]
  have hverdict (budget : Nat) := (offloading "cpu" budget).run_verdict (N := 3) rfl
    (hreach budget) follows_raising
    (fun _ _ => ⟨rfl, fun y hy => ⟨y, settle_offloading_cpu budget hy, hy⟩⟩) ()
  obtain ⟨hkind, _, _, hdrops⟩ := hverdict 0
  obtain ⟨_, t, hsupply, hleft⟩ := hdrops rfl (by decide) rfl (by decide)
  obtain rfl := Supply.schedule.inj hsupply
  exact ⟨hkind, ⟨t, hleft⟩, (hverdict 2).2.1 rfl⟩

/-- A sweep that is not refused, with a budget, may fail nevertheless: when it has too many steps,
and when the store is meant for a device that there is not. -/
theorem Setup.not_run_verdict_of_many_steps :
    ((counted (2 ^ 63) 1).refusal (2 ^ 63) 1 = none ∧ BudgetGrid.counting.Harmless ∧
        ¬ ∃ z t, (counted (2 ^ 63) 1).run BudgetGrid.counting () = .ok (.ok z, t)) ∧
      (offloading "bogus" 1).refusal 3 1 = none ∧ raising.Harmless ∧
        ¬ ∃ z t, (offloading "bogus" 1).run raising () = .ok (.ok z, t) := by
  refine ⟨⟨rfl, computes_counting.harmless, ?_⟩, rfl, follows_raising.harmless, ?_⟩
  · rintro ⟨z, t, hrun⟩
    have hlt := (asks_counted (2 ^ 63) 1).lt_noStep (Nat.le_refl 1) hrun
    exact absurd hlt (by decide)
  · rintro ⟨z, t, hrun⟩
    have hname : Device.ofName "bogus" = .error (.unknownDevice "bogus") := by decide +kernel
    have hsettle : (offloading "bogus" 1).store.settle (offloading "bogus" 1).state =
        .error (.unknownDevice "bogus") := by
      simp [offloading, Store.settle, Movable.moveTo, Placed.moveTo, hname, Except.bind]
    have hsound : (Schedule.ofBudget 1).Sound (1 : Nat) :=
      Schedule.sound_of_create (show (Number.whole 1).whole? = _ from rfl) rfl
    obtain ⟨_, hfails⟩ := exists_run_unsettled (s := offloading "bogus" 1) rfl hsound
      (count_int (n := 3) (by decide)) hsettle raising ()
    cases hrun.symm.trans hfails

end Verdicts
end ReverseSweep
