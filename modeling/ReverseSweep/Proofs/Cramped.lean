import ReverseSweep.Proofs.Recall

/-! Sweeps whose schedule has room for step 0 only. All other states are dropped on the way forward,
and the first one that is recomputed is dropped as well, which ends the sweep. -/

namespace ReverseSweep

variable {ω α ε : Type}

theorem updates_concat (start count : Nat) : updates start (count + 1) =
    updates start count ++ [(.update, ((start + count : Nat) : Int))] := by
  simp [updates, List.range'_concat]

namespace Bench

variable {b b' : Bench α} {fresh : Schedule} {m n : Nat}

/-- Step 0 is held, there is no room for any other, and so many have been dropped. -/
structure Cramped (fresh : Schedule) (dropped : Nat) (b : Bench α) : Prop where
  slots : b.schedule.slots = [⟨0, true⟩]
  capacity : b.schedule.capacity = .whole 1
  stores : b.schedule.counters.stores = fresh.counters.stores + 1 + dropped
  evictions : b.schedule.counters.evictions = fresh.counters.evictions
  recomputations : b.schedule.counters.recomputations = fresh.counters.recomputations
  resident : b.store.steps = [0]

namespace Cramped

theorem of_eq (h : b.Cramped fresh n) (hs : b'.schedule = b.schedule) (ht : b'.store = b.store) :
    b'.Cramped fresh n := by
  obtain ⟨h1, h2, h3, h4, h5, h6⟩ := h
  exact ⟨hs ▸ h1, hs ▸ h2, hs ▸ h3, hs ▸ h4, hs ▸ h5, ht ▸ h6⟩

theorem latest (h : b.Cramped fresh n) : b.schedule.latest? = some 0 := by
  simp [Schedule.latest?, Schedule.steps, h.slots]

theorem exists_get_eq_ok (h : b.Cramped fresh n) : ∃ y, b.store.get 0 = .ok y := by
  obtain ⟨y, hy, _⟩ := Store.exists_get_eq_ok (show (0 : Int) ∈ b.store.steps by simp [h.resident])
  exact ⟨y, hy⟩

theorem offer [Movable α] (h : b.Cramped fresh n) (hm : 0 < m) (hlt : (m : Int) < noStep)
    (y : α) : ∃ b', b.offer m y = (.ok false, b') ∧ b'.Cramped fresh (n + 1) := by
  have hnew : (m : Int) ∉ b.schedule.steps := by
    simp only [Schedule.steps, h.slots, List.map_cons, List.map_nil, List.mem_singleton]
    omega
  obtain ⟨admission, s, ho⟩ :=
    Schedule.exists_offer_eq_ok (Int.natCast_nonneg m) (by omega) hnew
  obtain ⟨_, hadmits, hcapacity, hcounters⟩ := Schedule.offer_eq_ok ho
  have hfull : b.schedule.capacity.above b.schedule.size = false := by
    simp [h.capacity, Schedule.size, h.slots, Number.above]
  generalize hslots : s.slots = slots at hadmits
  cases hadmits with
  | kept hroom => cases hroom.symm.trans hfull
  | evicted _ i hi hc =>
    obtain ⟨_, hfree, _⟩ := Slot.candidate?_eq_some hc
    simp [h.slots] at hfree
  | dropped =>
    refine ⟨b.withSchedule s, by simp only [Bench.offer, ho], ?_⟩
    refine ⟨hslots.trans h.slots, hcapacity.trans h.capacity, ?_, ?_, ?_, h.resident⟩
    · change s.counters.stores = _
      rw [hcounters, Counters.count_stores, h.stores]
      omega
    · change s.counters.evictions = _
      rw [hcounters]
      exact h.evictions
    · change s.counters.recomputations = _
      rw [hcounters]
      exact h.recomputations

end Cramped
end Bench

namespace Sweep

/-- A run that has made these calls, with room for step 0 only. -/
structure Crawls {ω α : Type} (fresh : Schedule) (dropped : Nat) (calls : List (CallKind × Int))
    (r : Run ω α) : Prop where
  bench : r.bench.Cramped fresh dropped
  headings : r.headings = calls

/-- A recomputed state is dropped. -/
def Drops {ω α ε : Type} (fresh : Schedule) (n : Nat) (e : Stop ε) (r : Run ω α) : Prop :=
  e = .fault (.replayDropped 1) ∧ Crawls fresh (n + 1) (updates 0 n ++ [(.update, 0)]) r

variable {cb : Callbacks ω α ε} {fresh : Schedule} {n k : Nat} {y : α}
  {calls : List (CallKind × Int)} {E : Stop ε → Run ω α → Prop}

theorem ensures_update_crawls (hcb : cb.Harmless) (n : Nat) (y : α) :
    Ensures (Crawls fresh k calls) (update cb n y)
      (fun _ => Crawls fresh k (calls ++ [(.update, (n : Int))])) E := by
  refine Ensures.callback_of fun r hr => ?_
  obtain ⟨z, w, b, hu, _, hs, ht⟩ := hcb.update n y r.world r.bench
  refine ⟨z, w, b, hu, hr.bench.of_eq hs ht, ?_⟩
  rw [Run.headings_cons, hr.headings]
  rfl

variable [Movable α]

/-- A new schedule for no step besides step 0, and an empty store that takes the first state. -/
structure Tight (fresh : Schedule) (y : α) (r : Run ω α) : Prop where
  schedule : r.bench.schedule = fresh
  slots : fresh.slots = []
  sound : fresh.Sound (0 : Nat)
  entries : r.bench.store.entries = []
  settle : ∃ z, r.bench.store.settle y = .ok z
  calls : r.latestCalls = []

theorem ensures_start_crawls :
    Ensures (Tight fresh y) (start false y : Sweep ω α ε Unit)
      (fun _ => Crawls fresh 0 (updates 0 0)) E := by
  refine Ensures.andThen (Q := fun _ => Crawls fresh 0 (updates 0 0)) ?_ fun _ =>
    Ensures.unverified
  refine Ensures.onBench_of fun r hr => ?_
  obtain ⟨z, hz⟩ := hr.settle
  obtain ⟨s, ho, hrooted, hslots, hcounters⟩ := hr.sound.offer_root hr.slots
  rw [← hr.schedule] at ho
  refine ⟨(), _, Bench.keep_of_offer ho hz, ⟨hslots, hrooted.capacity, ?_, ?_, ?_, ?_⟩, ?_⟩
  · change s.counters.stores = _
    simp [hcounters]
  · change s.counters.evictions = _
    simp [hcounters, Counters.count]
  · change s.counters.recomputations = _
    simp [hcounters]
  · change (r.bench.store.insert 0 z).steps = [0]
    simp [Store.insert, Store.steps, hr.entries, Store.insertEntry]
  · simp [Run.headings, Run.calls, Run.withBench, hr.calls, updates]

theorem ensures_forward_crawls (hcb : cb.Harmless) (hn : ((n + 1 : Nat) : Int) < noStep) :
    Ensures (Crawls fresh n (updates 0 n)) (forward cb false n y)
      (fun _ => Crawls fresh (n + 1) (updates 0 (n + 1))) E := by
  refine (ensures_update_crawls hcb n y).andThen fun z => ?_
  refine Ensures.andThen (Q := fun _ => Crawls fresh (n + 1) (updates 0 (n + 1))) ?_ fun _ => ?_
  · refine Ensures.onBench_of fun r hr => ?_
    obtain ⟨b, hb, hcramped⟩ := hr.bench.offer (Nat.succ_pos n) hn z
    refine ⟨false, b, hb, hcramped, ?_⟩
    rw [updates_concat, Nat.zero_add]
    exact hr.headings
  refine Ensures.unverified.andThen fun _ => ?_
  have hrecord : Ensures (Crawls fresh (n + 1) (updates 0 (n + 1)))
      (changeBench fun b => b.mapJournal Journal.recordForward)
      (fun _ => Crawls fresh (n + 1) (updates 0 (n + 1))) E :=
    Ensures.changeBench fun _ hr => ⟨hr.bench.of_eq rfl rfl, hr.headings⟩
  refine hrecord.andThen fun _ => ?_
  refine (Ensures.logIfDue (fun _ _ _ hr => ⟨hr.bench.of_eq rfl rfl, hr.headings⟩)
    fun _ hr => hr).andThen fun _ => ?_
  exact Ensures.done z fun _ hr => hr

/-- The first state that is recomputed is dropped. -/
theorem ensures_recompute_crawls (hcb : cb.Harmless) :
    Ensures (Crawls fresh n (updates 0 n)) (recompute cb false 0) (fun _ _ => False)
      (Drops fresh n) := by
  refine Ensures.andThen (Q := fun _ => Crawls fresh n (updates 0 n)) ?_ fun y => ?_
  · refine Ensures.askBench_of fun r hr => ?_
    obtain ⟨y, hy⟩ := hr.bench.exists_get_eq_ok
    exact ⟨y, hy, hr⟩
  refine (ensures_update_crawls hcb 0 y).andThen fun z => ?_
  refine Ensures.stops (Ensures.onBench_refused fun r hr => ?_)
  obtain ⟨b, hb, hcramped⟩ := hr.bench.offer Nat.one_pos (by decide) z
  have hoffer : r.bench.offer (0 + 1) z = (.ok false, b) := hb
  refine ⟨.replayDropped 1, b, ?_, rfl, hcramped, hr.headings⟩
  simp only [Bench.offerAgain, hoffer]
  rfl

theorem ensures_stepBack_crawls (hcb : cb.Harmless) (hn : 1 ≤ n) :
    Ensures (Crawls fresh n (updates 0 n)) (stepBack cb false n) (fun _ _ => False)
      (Drops fresh n) := by
  refine Ensures.stops ?_
  refine Ensures.mono (Q := fun _ r => Crawls fresh n (updates 0 n) r ∧
    ∃ last, r.bench.schedule.latest? = some last ∧ (n : Int) ≤ last)
    (Ensures.reach ?_ ?_) (fun _ hr => hr) ?_ fun _ _ h => h
  · rintro last r ⟨hr, hlast, _⟩
    obtain rfl : 0 = last := Option.some.inj (hr.bench.latest.symm.trans hlast)
    exact (ensures_recompute_crawls hcb).mono (fun _ hr => hr) (fun _ _ h => absurd h id)
      (fun _ _ h => h) r hr
  · intro r hr hnone
    cases hnone.symm.trans hr.bench.latest
  · rintro _ r ⟨hr, last, hlast, hle⟩
    obtain rfl : 0 = last := Option.some.inj (hr.bench.latest.symm.trans hlast)
    omega

theorem ensures_sweep_crawls (hcb : cb.Harmless) (hn : 1 ≤ n) (hlt : (n : Int) < noStep) :
    Ensures (Tight fresh y) (sweep cb false n y) (fun _ _ => False) (Drops fresh n) := by
  refine ensures_start_crawls.andThen fun _ => ?_
  have hforward (k : Nat) (hk : k < n) (y : α) : Ensures (Crawls fresh k (updates 0 k))
      (forward cb false k y) (fun _ => Crawls fresh (k + 1) (updates 0 (k + 1))) (Drops fresh n) :=
    ensures_forward_crawls hcb (by omega)
  have hadvance := Ensures.advanceTo hforward n 0 y (by omega)
  rw [Nat.zero_add] at hadvance
  refine hadvance.andThen fun z => ?_
  refine Ensures.stops ?_
  obtain ⟨i, rfl⟩ : ∃ i, n = i + 1 := ⟨n - 1, by omega⟩
  exact (ensures_stepBack_crawls hcb hn).stops

end Sweep
end ReverseSweep
