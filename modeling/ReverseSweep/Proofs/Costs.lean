import Mathlib.Algebra.Order.BigOperators.Group.Finset
import ReverseSweep.Proofs.Setup

/-! What a sweep costs. The recomputed states are counted over the steps back, and every count that
schedule, store and journal make follows from the steps and the recomputed states. -/

namespace ReverseSweep

variable {ω α ε : Type}

theorem countP_updates (start count : Nat) :
    (updates start count).countP (·.1 == .update) = count := by
  have hall : (updates start count).countP (·.1 == .update) = (updates start count).length :=
    List.countP_eq_length.mpr fun heading hm => by simp [fst_of_mem_updates hm]
  rw [hall]
  simp [updates]

theorem countP_backCalls (held : Nat → Nat) (i : Nat) :
    (backCalls held i).countP (·.1 == .update) = i - held i := by
  rw [backCalls, List.countP_append, countP_updates]
  rfl

theorem countP_flatMap_backCalls (held : Nat → Nat) (n : Nat) :
    ((List.range n).reverse.flatMap (backCalls held)).countP (·.1 == .update) =
      ∑ i ∈ Finset.range n, (i - held i) := by
  induction n with
  | zero => rfl
  | succ n ih =>
    rw [List.range_succ, List.reverse_append, List.flatMap_append, List.countP_append, ih,
      Finset.sum_range_succ, Nat.add_comm]
    simp [countP_backCalls]

section Replays

variable {held : Nat → Nat} {n : Nat}

theorem replays_eq_sum (hn : held n = n) :
    replays held n = ∑ i ∈ Finset.range n, (i - held i) := by
  rw [replays, Finset.sum_range_succ, hn, Nat.sub_self, Nat.add_zero]

theorem replays_le (hn : held n = n) : replays held n ≤ n * (n - 1) / 2 := by
  rw [replays_eq_sum hn, ← Finset.sum_range_id]
  exact Finset.sum_le_sum fun i _ => Nat.sub_le i (held i)

theorem replays_eq_iff (hn : held n = n) (hle : ∀ i ≤ n, held i ≤ i) :
    replays held n = n * (n - 1) / 2 ↔ ∀ i < n, held i = 0 := by
  rw [replays_eq_sum hn, ← Finset.sum_range_id,
    Finset.sum_eq_sum_iff_of_le fun i _ => Nat.sub_le i (held i)]
  constructor
  · intro h i hi
    have hi' := h i (Finset.mem_range.mpr hi)
    have := hle i (Nat.le_of_lt hi)
    omega
  · intro h i hi
    rw [h i (Finset.mem_range.mp hi), Nat.sub_zero]

end Replays

namespace Course.Completes

variable [Movable α] {c : Course ω α ε} {b : Bench α} {w : ω} {y : α} {held : Nat → Nat}
  {t : Run ω α}

theorem slots (h : c.Completes b w y held t) : t.bench.schedule.slots = [⟨0, true⟩] :=
  h.reached.holds.rooted.slots_of_latest_zero h.reached.holds.latest

theorem evictions (h : c.Completes b w y held t) :
    t.bench.schedule.counters.evictions = replays held c.steps := by
  have hsize := h.reached.holds.rooted.size_of_latest_zero h.reached.holds.latest
  have hbalance := h.reached.counts.balance
  simp only [hsize] at hbalance
  omega

theorem replays_eq_zero_iff (h : c.Completes b w y held t) :
    replays held c.steps = 0 ↔ c.steps ≤ c.budget := by
  have hevictions := h.evictions
  constructor
  · intro hzero
    -- each step that there is no room for is evicted, and what is evicted is recomputed
    have hspilled : (c.steps : Int) ≤ c.budget + t.bench.schedule.counters.evictions :=
      h.reached.counts.spilled
    omega
  · intro hle
    have hfits := h.reached.counts.fits hle
    omega

theorem replays_eq_most_iff (h : c.Completes b w y held t) (hb : 1 ≤ c.budget) :
    replays held c.steps = c.steps * (c.steps - 1) / 2 ↔ c.budget = 1 ∨ c.steps ≤ 1 := by
  rw [replays_eq_iff h.held_steps h.held_le]
  constructor
  · intro hzero
    by_contra hmore
    -- a second slot saves the first step back some work
    have hpos := h.held_pos (by omega) (by omega)
    rw [hzero (c.steps - 1) (by omega)] at hpos
    exact Nat.lt_irrefl 0 hpos
  · rintro (hone | hfew) i hi
    · exact h.held_eq_zero hone i hi
    · have := h.held_le i (Nat.le_of_lt hi)
      omega

theorem exists_entries (h : c.Completes b w y held t) :
    ∃ z, t.bench.store.entries = [(0, z)] ∧ c.kept 0 z := by
  have hsteps : t.bench.store.entries.map (·.1) = [0] := by
    have hlock := h.reached.holds.lockstep
    rwa [Bench.Lockstep, Schedule.steps, h.slots] at hlock
  obtain ⟨⟨step, z⟩, hentries, rfl⟩ := List.map_eq_singleton_iff.mp hsteps
  exact ⟨z, hentries, h.reached.holds.kept (0, z) (by simp [hentries])⟩

/-- What the journal reports in the end, if there is one. -/
theorem summary (h : c.Completes b w y held t) (hc : c.Journaled) :
    t.bench.journal.isSome = c.journal.isSome ∧
      ∀ j, t.bench.journal = some j → ∀ now, (j.summary now).forward = c.steps ∧
        (j.summary now).reverse = c.steps + 1 ∧
        (j.summary now).recomputed = replays held c.steps := by
  have htold : t.bench.journal.map Journal.progress =
      c.journal.map fun _ => ⟨c.steps, replays held c.steps, c.steps + 1⟩ := h.reached.told hc
  constructor
  · simpa using congrArg Option.isSome htold
  · intro j hj now
    have hprogress : j.progress = ⟨c.steps, replays held c.steps, c.steps + 1⟩ := by
      rw [hj] at htold
      cases hs : c.journal <;> simp_all
    simp only [Journal.progress, Progress.mk.injEq] at hprogress
    exact ⟨hprogress.1, hprogress.2.2, hprogress.2.1⟩

theorem countP_update (h : c.Completes b w y held t) :
    t.calls.countP (·.kind == .update) = c.steps + replays held c.steps := by
  have hheadings : t.calls.countP (·.kind == .update) = t.headings.countP (·.1 == .update) := by
    rw [Run.headings, List.countP_map]
    rfl
  rw [hheadings, h.headings, List.countP_append, countP_updates, countP_flatMap_backCalls, replays]

end Course.Completes

structure Callbacks.LeavesJournal (cb : Callbacks ω α ε) : Prop where
  update : ∀ n y w b, (cb.update n y w b).2.2.journal = b.journal
  reverse : ∀ n y w b, (cb.reverse n y w b).2.2.journal = b.journal

namespace Setup

variable [Movable α] {s : Setup α} {cb : Callbacks ω α ε} {n budget : Nat}

/-- How much is recomputed: nothing just when all steps fit into the budget, and the most, each step
back starting from step 0, just when the budget is 1 or there is nothing to recompute. -/
theorem Asks.replay_costs (h : s.Asks n budget) (hb : 1 ≤ budget) (hn : (n : Int) < noStep)
    (hcb : cb.Harmless) (hsettle : ∀ y, ∃ z, s.store.settle y = .ok z) (w : ω) :
    ∃ z t, s.run cb w = .ok (.ok z, t) ∧
      ∃ replays : Nat, t.bench.schedule.counters.recomputations = replays ∧
        replays ≤ n * (n - 1) / 2 ∧
        (replays = 0 ↔ n ≤ budget) ∧
        (replays = n * (n - 1) / 2 ↔ budget = 1 ∨ n ≤ 1) ∧
        t.calls.countP (·.kind == .update) = n + replays := by
  have hc := course_steady_of_harmless hcb hb hn hsettle
  obtain ⟨z, t, held, hrun, _, hcompletes⟩ := h.exists_completes hc trivial w
  exact ⟨z, t, hrun, _, hcompletes.reached.counts.recomputations,
    replays_le hcompletes.held_steps, hcompletes.replays_eq_zero_iff,
    hcompletes.replays_eq_most_iff hb, hcompletes.countP_update⟩

theorem replay_costs_seven_three :
    ∃ z t, (counted 7 3).run BudgetGrid.counting () = .ok (.ok z, t) ∧
      ∃ replays : Nat, t.bench.schedule.counters.recomputations = replays ∧
        0 < replays ∧ replays < 21 ∧ t.calls.countP (·.kind == .update) = 7 + replays := by
  obtain ⟨z, t, hrun, replays, hrecomputations, hle, hzero, hmost, hcalls⟩ :=
    (asks_counted 7 3).replay_costs (by decide) (by decide) computes_counting.harmless
      (fun y => ⟨y, rfl⟩) ()
  have hpos : replays ≠ 0 := fun h => absurd (hzero.mp h) (by decide)
  have hless : replays ≠ 21 := fun h => absurd (hmost.mp h) (by decide)
  exact ⟨z, t, hrun, replays, hrecomputations, by omega, by omega, hcalls⟩

/-- With more steps than there are indices nothing is recomputed, whatever the budget is. -/
theorem not_replay_costs_of_many_steps :
    (counted (2 ^ 63) 1).Asks (2 ^ 63) 1 ∧ BudgetGrid.counting.Harmless ∧
      ∃ result t, (counted (2 ^ 63) 1).run BudgetGrid.counting () = .ok (result, t) ∧
        t.bench.schedule.counters.recomputations = 0 ∧ ¬ 2 ^ 63 ≤ 1 ∧
        t.calls.countP (·.kind == .update) = 0 := by
  obtain ⟨t, hrun, hrecomputations, hcalls⟩ :=
    (asks_counted (2 ^ 63) 1).exists_run_tooManySteps (Nat.le_refl 1) (by decide)
      computes_counting.harmless (fun y => ⟨y, rfl⟩) ()
  exact ⟨asks_counted _ _, computes_counting.harmless, _, t, hrun, hrecomputations, by decide,
    by rw [hcalls]; rfl⟩

structure Fresh (s : Setup α) : Prop where
  puts : s.store.puts = 0
  discards : s.store.discards = 0
  journal : ∀ j, s.journal = some j → j.progress = {}

/-- The counts of a sweep that ends, and what it leaves. -/
theorem Asks.counts_balance (h : s.Asks n budget) (hb : 1 ≤ budget) (hfresh : s.Fresh)
    (hcb : cb.Harmless) (hjournal : cb.LeavesJournal)
    (hsettle : ∀ y, ∃ z, s.store.settle y = .ok z) (w : ω) :
    ((∃ z t, s.run cb w = .ok (.ok z, t)) ↔ (n : Int) < noStep) ∧
      ∀ z t, s.run cb w = .ok (.ok z, t) → ∃ replays : Nat,
        t.bench.schedule.counters.recomputations = replays ∧
        t.bench.schedule.counters.evictions = replays ∧
        t.bench.schedule.counters.stores = n + 1 + replays ∧
        t.bench.store.puts = n + 1 + replays ∧
        t.bench.store.discards = n + replays ∧
        t.bench.schedule.slots = [⟨0, true⟩] ∧
        t.bench.schedule.capacity = .whole (budget + 1) ∧
        (∃ y, s.store.settle s.state = .ok y ∧ t.bench.store.entries = [(0, y)]) ∧
        t.bench.journal.isSome = s.journal.isSome ∧
        ∀ j, t.bench.journal = some j → ∀ now, (j.summary now).forward = n ∧
          (j.summary now).reverse = n + 1 ∧ (j.summary now).recomputed = replays := by
  refine ⟨h.exists_run_eq_ok_iff hb hcb hsettle w, fun z t hrun => ?_⟩
  -- only the state of step 0 has to be known, for it is the one that is left
  let made (k : Nat) (y : α) : Prop := k = 0 → y = s.state
  let kept (k : Nat) (y : α) : Prop := k = 0 → s.store.settle s.state = .ok y
  have hc : (s.course cb n budget made kept).Steady := by
    refine course_steady hcb hb (h.lt_noStep hb hrun) ?_ ?_
    · intro k y hy
      obtain ⟨z, hz⟩ := hsettle y
      exact ⟨z, hz, fun hk => hy hk ▸ hz⟩
    · exact fun k _ _ _ _ hk => absurd hk (Nat.succ_ne_zero k)
  obtain ⟨z', t', held, hrun', _, hcompletes⟩ := h.exists_completes hc (fun _ => rfl) w
  obtain ⟨rfl, rfl⟩ : z' = z ∧ t' = t := by
    have hsame := Except.ok.inj (hrun'.symm.trans hrun)
    exact ⟨Except.ok.inj (Prod.mk.inj hsame).1, (Prod.mk.inj hsame).2⟩
  have hcounts := hcompletes.reached.counts
  have hevictions : t'.bench.schedule.counters.evictions = replays held n := hcompletes.evictions
  have hstores : t'.bench.schedule.counters.stores = 1 + n + replays held n := hcounts.stores
  have hputs : t'.bench.store.puts = s.store.puts + 1 + n + replays held n := hcounts.puts
  have hdiscards : (t'.bench.store.discards : Int) =
      s.store.discards + t'.bench.schedule.counters.evictions + min (n + 1) n := hcounts.discards
  have hp := hfresh.puts
  have hd := hfresh.discards
  obtain ⟨y, hentries, hy⟩ := hcompletes.exists_entries
  exact ⟨replays held n, hcounts.recomputations, hevictions, by omega, by omega, by omega,
    hcompletes.slots, hcompletes.reached.holds.rooted.capacity, ⟨y, hy rfl, hentries⟩,
    hcompletes.summary ⟨hfresh.journal, hjournal.update, hjournal.reverse⟩⟩

theorem counts_balance_six_two :
    ∃ z t, ∃ replays : Nat,
      (counted 6 2 (some ⟨.whole 100, 0, 0, 0, 0, []⟩)).run BudgetGrid.counting () =
        .ok (.ok z, t) ∧
      t.bench.schedule.counters.evictions = replays ∧
      t.bench.schedule.counters.stores = 7 + replays ∧
      t.bench.schedule.slots = [⟨0, true⟩] ∧ t.bench.store.entries = [(0, 0)] ∧
      t.bench.store.discards = 6 + replays ∧ t.bench.journal.isSome := by
  have hfresh : (counted 6 2 (some ⟨.whole 100, 0, 0, 0, 0, []⟩)).Fresh :=
    ⟨rfl, rfl, fun _ hj => Option.some.inj hj ▸ rfl⟩
  obtain ⟨hends, hcounts⟩ := (asks_counted 6 2 _).counts_balance (by decide) hfresh
    computes_counting.harmless ⟨fun _ _ _ _ => rfl, fun _ _ _ _ => rfl⟩ (fun y => ⟨y, rfl⟩) ()
  obtain ⟨z, t, hrun⟩ := hends.mpr (by decide)
  obtain ⟨replays, _, hevictions, hstores, _, hdiscards, hslots, _, ⟨y, hy, hentries⟩,
    hjournal, _⟩ := hcounts z t hrun
  obtain rfl : 0 = y := Except.ok.inj hy
  exact ⟨z, t, replays, hrun, hevictions, hstores, hslots, hentries, hdiscards, hjournal⟩

end Setup
end ReverseSweep
