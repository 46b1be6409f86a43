import Mathlib.Algebra.BigOperators.Intervals
import ReverseSweep.Proofs.Passes

/-! A sweep from its start to its end. The way back is cut before each of its steps: the latest step
that is held there tells how many states the step recomputes. -/

namespace ReverseSweep

namespace Sweep

variable {ω α ε : Type} [Movable α]

/-- The first `count` steps back from the step `top`. -/
def stepsBack (cb : Callbacks ω α ε) (verify : Bool) (top : Nat) : Nat → Sweep ω α ε Unit
  | 0 => pure ()
  | count + 1 => do
    stepsBack cb verify top count
    stepBack cb verify (top - count)

/-- The latest step that is held before the step back over `i`. -/
def latestBefore (cb : Callbacks ω α ε) (verify : Bool) (top : Nat) (r : Run ω α) (i : Nat) : Nat :=
  ((stepsBack cb verify top (top - i) r).2.bench.schedule.latest?.getD 0).toNat

/-- A sweep as far as the step back over `i`. -/
def upTo (cb : Callbacks ω α ε) (verify : Bool) (steps : Nat) (state : α) (i : Nat) :
    Sweep ω α ε Unit := do
  start verify state
  let _ ← advance cb verify steps 0 state
  stepsBack cb verify steps (steps - i)

variable (cb : Callbacks ω α ε) (verify : Bool)

theorem retreat_eq_stepsBack_bind (top count : Nat) (h : count ≤ top) :
    retreat cb verify top = stepsBack cb verify top count >>= fun _ =>
      retreat cb verify (top - count) := by
  induction count with
  | zero => rw [stepsBack, pure_bind, Nat.sub_zero]
  | succ count ih =>
    have hnext : top - count = top - (count + 1) + 1 := by omega
    rw [ih (by omega), stepsBack, bind_assoc, hnext, retreat]

theorem retreat_eq_stepsBack (top : Nat) :
    retreat cb verify top = stepsBack cb verify top (top + 1) := by
  rw [retreat_eq_stepsBack_bind cb verify top top (Nat.le_refl top), stepsBack, Nat.sub_self]
  rfl

end Sweep

/-- How many states are recomputed on the way back from `n`, when the states up to `held i` are held
before the step back over `i`. -/
def replays (held : Nat → Nat) (n : Nat) : Nat := ∑ i ∈ Finset.range (n + 1), (i - held i)

namespace Course

variable {ω α ε : Type} [Movable α]

/-- Where a course begins: a new schedule and an empty store. -/
structure Begins (c : Course ω α ε) (b : Bench α) : Prop where
  schedule : b.schedule = .ofBudget c.budget
  entries : b.store.entries = []
  device : b.store.device = c.device
  puts : b.store.puts = c.puts
  discards : b.store.discards = c.discards
  journal : b.journal = c.journal

variable {c : Course ω α ε} {b : Bench α} {r : Run ω α} {k : Nat} {y : α}

theorem Begins.reached_start (h : c.Begins b) (hc : c.Steady) (hy : c.made 0 y) (w : ω) :
    ∃ t, (Sweep.start c.verify y : Sweep ω α ε Unit) ⟨w, b, [], 0⟩ = (.ok (), t) ∧
      c.Reached t 0 {} ∧ t.headings = [] := by
  obtain ⟨z, hz, hkept⟩ := hc.settle b.store h.device 0 (Nat.zero_le _) y hy
  let s : Schedule := ⟨[⟨0, true⟩], .whole (c.budget + 1), ⟨1, 0, 0⟩⟩
  let b' : Bench α := (b.withSchedule s).withStore (b.store.insert 0 z)
  have ho : b.schedule.offer 0 true = (.ok .kept, s) := by rw [h.schedule, Schedule.offer_root]
  have hkeep : b.keep 0 y = (.ok (), b') := Bench.keep_of_offer ho hz
  have hentries : b'.store.entries = [(0, z)] := by
    simp [b', Bench.withStore, Store.insert, h.entries, Store.insertEntry]
  have hlock : b'.Lockstep := by
    rw [Bench.Lockstep, Store.steps, hentries]
    rfl
  have hholds : c.Holds b' 0 := by
    refine ⟨Schedule.rooted_root _ _, rfl, hlock, ?_, h.device⟩
    intro entry he
    rw [hentries] at he
    simpa [List.mem_singleton.mp he] using hkept
  have hsize : b'.schedule.size = 1 := rfl
  have hevictions : b'.schedule.counters.evictions = 0 := rfl
  have hputs : b'.store.puts = b.store.puts + 1 := rfl
  have hdiscards : b'.store.discards = b.store.discards := rfl
  have hcounts : c.Counts b' 0 0 0 := by
    rw [h.puts] at hputs
    rw [h.discards] at hdiscards
    exact ⟨rfl, rfl, by omega, by omega, by omega, by omega, fun _ => rfl, fun _ _ => by omega⟩
  have htold : c.Told b' {} := by
    intro hj
    have hb' : b'.journal = c.journal := h.journal
    rw [hb']
    cases hjournal : c.journal with
    | none => rfl
    | some j => simp [hj.fresh j hjournal]
  refine ⟨⟨w, b', [], 0⟩, ?_, ⟨hholds, hcounts, htold, by simp⟩, rfl⟩
  rw [Sweep.start, Sweep.bind_of_ok (Sweep.onBench_of_ok hkeep)]
  exact Sweep.verified_of_lockstep hlock _

theorem Reached.advance (hc : c.Steady) (count : Nat) (h : c.Reached r k ⟨k, 0, 0⟩)
    (hk : k + count ≤ c.steps) (hy : c.made k y) :
    ∃ z t, Sweep.advance c.callbacks c.verify count k y r = (.ok z, t) ∧ c.made (k + count) z ∧
      c.Reached t (k + count) ⟨k + count, 0, 0⟩ ∧ t.headings = r.headings ++ updates k count := by
  induction count generalizing r k y with
  | zero => exact ⟨y, r, rfl, hy, h, by simp [updates]⟩
  | succ count ih =>
    obtain ⟨z₁, r₁, hpass, hz₁, h₁, hcalls₁⟩ := h.forward hc (by omega) hy count
    obtain ⟨z, t, ht, hz, hreached, hcalls⟩ := ih h₁ (by omega) hz₁
    have hnext : k + 1 + count = k + (count + 1) := by omega
    rw [hnext] at hz hreached
    refine ⟨z, t, hpass.trans ht, hz, hreached, ?_⟩
    rw [hcalls, hcalls₁, updates_succ]
    simp

theorem Reached.stepsBack (h : c.Reached r c.steps ⟨c.steps, 0, 0⟩) (hc : c.Steady)
    {held : Nat → Nat} (hheld : held = Sweep.latestBefore c.callbacks c.verify c.steps r)
    (count : Nat) (hcount : count ≤ c.steps + 1) :
    ∃ t j, Sweep.stepsBack c.callbacks c.verify c.steps count r = (.ok (), t) ∧
      j ≤ c.steps - count ∧
      c.Reached t j ⟨c.steps, ∑ a ∈ Finset.range count, (c.steps - a - held (c.steps - a)), count⟩ ∧
      (0 < count → t.bench.schedule.size ≤ c.budget) ∧
      t.headings = r.headings ++
        (List.range count).flatMap fun a => backCalls held (c.steps - a) := by
  induction count with
  | zero => exact ⟨r, c.steps, rfl, Nat.le_refl _, h, by simp, by simp⟩
  | succ count ih =>
    obtain ⟨r₁, k, hr, hk, h₁, _, hcalls₁⟩ := ih (by omega)
    -- `held` looks at the run before this step, which is the one that `ih` gives
    have hkheld : held (c.steps - count) = k := by
      have hcut : c.steps - (c.steps - count) = count := by omega
      simp [hheld, Sweep.latestBefore, hcut, hr, h₁.holds.latest]
    have hleft : count + (c.steps - count) = c.steps := by omega
    obtain ⟨t, j, ht, hj, hreached, hsize, hcalls⟩ := h₁.stepBack hc hk hleft
    refine ⟨t, j, ?_, by omega, ?_, fun _ => ?_, ?_⟩
    · rw [Sweep.stepsBack, Sweep.bind_of_ok hr]
      exact ht
    · rwa [Finset.sum_range_succ, hkheld]
    · by_cases hlast : c.steps - count = 0
      · obtain rfl : j = 0 := by omega
        rw [hreached.holds.rooted.size_of_latest_zero hreached.holds.latest]
        exact hc.budget_pos
      · omega
    · rw [hcalls, hcalls₁, List.range_succ, List.flatMap_append, ← List.append_assoc]
      simp [backCalls, hkheld]

theorem Reached.before (h : c.Reached r c.steps ⟨c.steps, 0, 0⟩) (hc : c.Steady)
    {held : Nat → Nat} (hheld : held = Sweep.latestBefore c.callbacks c.verify c.steps r)
    {i : Nat} (hi : i ≤ c.steps) :
    ∃ t, Sweep.stepsBack c.callbacks c.verify c.steps (c.steps - i) r = (.ok (), t) ∧
      c.Holds t.bench (held i) ∧ held i ≤ i ∧
      (i < c.steps → t.bench.schedule.size ≤ c.budget) := by
  obtain ⟨t, j, ht, hj, hreached, hsize, _⟩ := h.stepsBack hc hheld (c.steps - i) (by omega)
  have hj' : held i = j := by simp [hheld, Sweep.latestBefore, ht, hreached.holds.latest]
  refine ⟨t, ht, ?_, by omega, fun hlt => hsize (by omega)⟩
  rw [hj']
  exact hreached.holds

theorem Reached.held_pos (h : c.Reached r c.steps ⟨c.steps, 0, 0⟩) (hc : c.Steady)
    {held : Nat → Nat} (hheld : held = Sweep.latestBefore c.callbacks c.verify c.steps r)
    (hb : 2 ≤ c.budget) (hn : 2 ≤ c.steps) : 0 < held (c.steps - 1) := by
  obtain ⟨t, ht, hholds, _, _⟩ := h.before hc hheld (Nat.sub_le c.steps 1)
  obtain ⟨t', j, ht', _, _, hsize, _⟩ := h.stepBack hc (Nat.le_refl _) (Nat.zero_add _)
  rw [show c.steps - (c.steps - 1) = 1 by omega] at ht
  obtain rfl : t' = t := by
    have hfirst := ht'.symm.trans ht
    exact congrArg Prod.snd hfirst
  -- at least three steps are held at first, and the first step back gives up one of them
  have hfull : r.bench.schedule.size = min c.steps c.budget + 1 := h.counts.filled rfl rfl
  rw [Nat.pos_iff_ne_zero]
  intro hzero
  have hlatest := hholds.latest
  rw [hzero] at hlatest
  have hone := hholds.rooted.size_of_latest_zero hlatest
  omega

/-- What a sweep comes to, when the states up to `held i` are held before the step back over `i`. -/
structure Completes (c : Course ω α ε) (b : Bench α) (w : ω) (y : α) (held : Nat → Nat)
    (t : Run ω α) : Prop where
  upTo : ∀ i ≤ c.steps, ∃ q, Sweep.upTo c.callbacks c.verify c.steps y i ⟨w, b, [], 0⟩ =
    (.ok (), q) ∧ q.bench.schedule.latest? = some (held i : Int)
  held_le : ∀ i ≤ c.steps, held i ≤ i
  held_steps : held c.steps = c.steps
  held_eq_zero : c.budget = 1 → ∀ i < c.steps, held i = 0
  held_pos : 2 ≤ c.budget → 2 ≤ c.steps → 0 < held (c.steps - 1)
  reached : c.Reached t 0 ⟨c.steps, replays held c.steps, c.steps + 1⟩
  headings : t.headings =
    updates 0 c.steps ++ (List.range (c.steps + 1)).reverse.flatMap (backCalls held)

theorem Begins.exists_completes (h : c.Begins b) (hc : c.Steady) (hy : c.made 0 y) (w : ω) :
    ∃ z t held, Sweep.sweep c.callbacks c.verify c.steps y ⟨w, b, [], 0⟩ = (.ok z, t) ∧
      c.made c.steps z ∧ c.Completes b w y held t := by
  obtain ⟨r₀, hstart, h₀, hcalls₀⟩ := h.reached_start hc hy w
  obtain ⟨z, r, hadvance, hz, hr, hcalls⟩ := Reached.advance hc c.steps h₀ (by omega) hy
  rw [Nat.zero_add] at hz hr
  let held := Sweep.latestBefore c.callbacks c.verify c.steps r
  have hheld : held = Sweep.latestBefore c.callbacks c.verify c.steps r := rfl
  have hback := hr.stepsBack hc hheld
  obtain ⟨t, j, ht, hj, hreached, _, hcallst⟩ := hback (c.steps + 1) (Nat.le_refl _)
  obtain rfl : j = 0 := by omega
  have hbefore {i : Nat} (hi : i ≤ c.steps) := hr.before hc hheld hi
  refine ⟨z, t, held, ?_, hz, ?_, ?_, ?_, ?_, hr.held_pos hc hheld, ?_, ?_⟩
  · rw [Sweep.sweep, Sweep.bind_of_ok hstart, Sweep.bind_of_ok hadvance,
      Sweep.retreat_eq_stepsBack, Sweep.bind_of_ok ht]
    rfl
  · intro i hi
    obtain ⟨q, hq, hholds, _, _⟩ := hbefore hi
    refine ⟨q, ?_, hholds.latest⟩
    rw [Sweep.upTo, Sweep.bind_of_ok hstart, Sweep.bind_of_ok hadvance]
    exact hq
  · intro i hi
    obtain ⟨_, _, _, hle, _⟩ := hbefore hi
    exact hle
  · obtain ⟨q, hq, hholds, _, _⟩ := hbefore (Nat.le_refl c.steps)
    rw [Nat.sub_self] at hq
    obtain rfl : r = q := congrArg Prod.snd hq
    have hsame := hholds.latest.symm.trans hr.holds.latest
    exact Int.ofNat.inj (Option.some.inj hsame)
  · intro hone i hi
    obtain ⟨q, _, hholds, _, hsize⟩ := hbefore (Nat.le_of_lt hi)
    have hroom := hsize hi
    exact hholds.rooted.eq_zero_of_size_le_one hholds.latest (by omega)
  · have hsum := Finset.sum_range_reflect (fun i => i - held i) (c.steps + 1)
    simp only [Nat.add_sub_cancel] at hsum
    rwa [hsum, ← replays] at hreached
  · have hrange : (List.range (c.steps + 1)).reverse =
        (List.range (c.steps + 1)).map (c.steps - ·) := by
      rw [List.range_eq_range', List.reverse_range']
      simp [List.range_eq_range']
    rw [hcallst, hcalls, hcalls₀, hrange, List.flatMap_map]
    rfl

end Course

end ReverseSweep
