import ReverseSweep.Proofs.Lockstep
import ReverseSweep.Proofs.Rooted
import ReverseSweep.Sweep.Setup

/-! The course of a sweep whose callbacks do not fail and leave schedule and store alone. At every
moment the latest step is known, schedule and store agree, and what was counted on either side
follows from how far the sweep has come. -/

namespace ReverseSweep

structure Progress where
  forward : Nat := 0
  replayed : Nat := 0
  reversed : Nat := 0
deriving DecidableEq

def Journal.progress (j : Journal) : Progress := ⟨j.forward, j.recomputed, j.reverse⟩

structure Course (ω α ε : Type) where
  callbacks : Callbacks ω α ε
  verify : Bool
  steps : Nat
  budget : Nat
  device : Option String
  /-- The states that the updates give for a step. -/
  made : Nat → α → Prop
  /-- The states that the store keeps for a step. -/
  kept : Nat → α → Prop
  /-- What the store had counted before. -/
  puts : Nat
  discards : Nat
  journal : Option Journal

namespace Course

variable {ω α ε : Type}

/-- The callbacks do not fail and leave schedule and store alone, the store takes every state, and
there is room besides step 0. -/
structure Steady [Movable α] (c : Course ω α ε) : Prop where
  budget_pos : 1 ≤ c.budget
  steps_lt : (c.steps : Int) < noStep
  settle : ∀ s : Store α, s.device = c.device → ∀ n ≤ c.steps, ∀ y, c.made n y →
    ∃ z, s.settle y = .ok z ∧ c.kept n z
  update : ∀ n < c.steps, ∀ y, c.made n y ∨ c.kept n y → ∀ w b, ∃ z w' b',
    c.callbacks.update n y w b = (.ok z, w', b') ∧ c.made (n + 1) z ∧
      b'.schedule = b.schedule ∧ b'.store = b.store
  reverse : ∀ n ≤ c.steps, ∀ y, c.kept n y → ∀ w b, ∃ w' b',
    c.callbacks.reverse n y w b = (.ok (), w', b') ∧
      b'.schedule = b.schedule ∧ b'.store = b.store

structure Journaled (c : Course ω α ε) : Prop where
  fresh : ∀ j, c.journal = some j → j.progress = {}
  update : ∀ n y w b, (c.callbacks.update n y w b).2.2.journal = b.journal
  reverse : ∀ n y w b, (c.callbacks.reverse n y w b).2.2.journal = b.journal

/-- The step up to which states are held, and what schedule and store have in common. -/
structure Holds (c : Course ω α ε) (b : Bench α) (latest : Nat) : Prop where
  rooted : b.schedule.Rooted c.budget
  latest : b.schedule.latest? = some (latest : Int)
  lockstep : b.Lockstep
  kept : ∀ entry ∈ b.store.entries, c.kept entry.1.toNat entry.2
  device : b.store.device = c.device

/-- What schedule and store have counted. Each step back but the last one gives up a step. -/
structure Counts (c : Course ω α ε) (b : Bench α) (forward replayed reversed : Nat) : Prop where
  stores : b.schedule.counters.stores = 1 + forward + replayed
  recomputations : b.schedule.counters.recomputations = replayed
  balance : b.schedule.size + b.schedule.counters.evictions + min reversed c.steps =
    1 + forward + replayed
  puts : b.store.puts = c.puts + 1 + forward + replayed
  discards : (b.store.discards : Int) =
    c.discards + b.schedule.counters.evictions + min reversed c.steps
  spilled : (forward : Int) ≤ c.budget + b.schedule.counters.evictions
  fits : c.steps ≤ c.budget → b.schedule.counters.evictions = 0
  filled : replayed = 0 → reversed = 0 → b.schedule.size = min forward c.budget + 1

structure Adds (c : Course ω α ε) (b b' : Bench α) : Prop where
  size : b'.schedule.size = min (b.schedule.size + 1) (c.budget + 1)
  stores : b'.schedule.counters.stores = b.schedule.counters.stores + 1
  recomputations : b'.schedule.counters.recomputations = b.schedule.counters.recomputations
  evictions_le : b.schedule.counters.evictions ≤ b'.schedule.counters.evictions
  balance : b'.schedule.size + b'.schedule.counters.evictions =
    b.schedule.size + b.schedule.counters.evictions + 1
  puts : b'.store.puts = b.store.puts + 1
  discards : (b'.store.discards : Int) - b'.schedule.counters.evictions =
    b.store.discards - b.schedule.counters.evictions
  journal : b'.journal = b.journal

/-- How a release of the latest step changes what is counted. Only step 0 stays. -/
structure Gives (b b' : Bench α) (latest : Nat) : Prop where
  size : b'.schedule.size + min latest 1 = b.schedule.size
  counters : b'.schedule.counters = b.schedule.counters
  puts : b'.store.puts = b.store.puts
  discards : b'.store.discards = b.store.discards + min latest 1
  journal : b'.journal = b.journal

variable {c : Course ω α ε} {b b' : Bench α} {k m f r v : Nat}

theorem Holds.of_eq (h : c.Holds b k) (hs : b'.schedule = b.schedule) (ht : b'.store = b.store) :
    c.Holds b' k := by
  obtain ⟨h1, h2, h3, h4, h5⟩ := h
  refine ⟨hs ▸ h1, hs ▸ h2, ?_, ht ▸ h4, ht ▸ h5⟩
  rw [Bench.Lockstep, hs, ht]
  exact h3

theorem Counts.of_eq (h : c.Counts b f r v) (hs : b'.schedule = b.schedule)
    (ht : b'.store = b.store) : c.Counts b' f r v := by
  obtain ⟨h1, h2, h3, h4, h5, h6, h7, h8⟩ := h
  exact ⟨hs ▸ h1, hs ▸ h2, hs ▸ h3, ht ▸ h4, hs ▸ ht ▸ h5, hs ▸ h6, hs ▸ h7, hs ▸ h8⟩

theorem Holds.latest_mem (h : c.Holds b k) : (k : Int) ∈ b.store.steps := by
  rw [h.lockstep]
  exact (Schedule.latest?_eq_some_iff.mp h.latest).1

theorem Holds.exists_get_eq_ok (h : c.Holds b k) :
    ∃ y, b.store.get k = .ok y ∧ c.kept k y := by
  obtain ⟨y, hy, hm⟩ := Store.exists_get_eq_ok h.latest_mem
  exact ⟨y, hy, by simpa using h.kept _ hm⟩

theorem Holds.offer [Movable α] (h : c.Holds b k) (hc : c.Steady) (hk : k < m) (hm : m ≤ c.steps)
    {y : α} (hy : c.made m y) :
    ∃ b', b.offer m y = (.ok true, b') ∧ c.Holds b' m ∧ c.Adds b b' := by
  have hlt := hc.steps_lt
  obtain ⟨z, hz, hkept⟩ := hc.settle b.store h.device m hm y hy
  obtain ⟨admission, s, ho, hd, hrooted, hlatest, hsize⟩ :=
    h.rooted.offer_later hc.budget_pos h.latest hk (by omega)
  obtain ⟨b', hb', rfl, ht⟩ := Bench.exists_offer_eq_ok h.lockstep h.rooted.ascending ho hd hz
  obtain ⟨_, hadm, _, hcount⟩ := Schedule.offer_eq_ok ho
  have hbal := hadm.length_add_evictions hd
  rw [← hcount] at hbal
  refine ⟨b', hb', ⟨hrooted, hlatest, ht.lockstep, ?_, by rw [ht.device, h.device]⟩,
    ⟨hsize, by simp [hcount], by simp [hcount], ?_, hbal, ht.puts, ht.discards, ht.journal⟩⟩
  · intro entry he
    rcases ht.mem_entries entry he with rfl | he
    · simpa using hkept
    · exact h.kept entry he
  · rw [hcount]
    exact Counters.evictions_le_count _ _

theorem Holds.release (h : c.Holds b k) :
    ∃ b' j, b.release k = (.ok (), b') ∧ j ≤ k - 1 ∧ c.Holds b' j ∧ Gives b b' k := by
  obtain ⟨slot, hslot, hstep⟩ := List.mem_map.mp (Schedule.latest?_eq_some_iff.mp h.latest).1
  obtain ⟨b', hb', hg⟩ := Bench.exists_release_eq_ok h.lockstep h.rooted.ascending hslot
  have hkept : ∀ entry ∈ b'.store.entries, c.kept entry.1.toNat entry.2 :=
    fun entry he => h.kept entry (hg.mem_entries entry he)
  have hdevice : b'.store.device = c.device := hg.device.trans h.device
  have hs := hg.schedule
  have hd := hg.discards
  have hp := h.rooted.persistent_iff hslot
  rw [hstep] at hb' hs hp
  by_cases hk : k = 0
  · subst hk
    rw [show ((0 : Nat) : Int) = 0 from rfl, h.rooted.remove_root] at hs
    rw [if_pos (hp.mpr rfl)] at hd
    refine ⟨b', 0, hb', Nat.le_refl 0, ⟨?_, ?_, hg.lockstep, hkept, hdevice⟩,
      by simp [hs], by rw [hs], hg.puts, hd, hg.journal⟩
    · rw [hs]
      exact h.rooted
    · rw [hs]
      exact h.latest
  · have hpos : 0 < k := Nat.pos_of_ne_zero hk
    obtain ⟨s, hr, _, hcount, hrooted, hsize, j, hj, hlatest⟩ :=
      h.rooted.remove_latest h.latest hpos
    rw [hr] at hs
    rw [if_neg (by rw [hp]; omega)] at hd
    have hone : min k 1 = 1 := by omega
    refine ⟨b', j, hb', by omega, ⟨by rwa [hs], by rwa [hs], hg.lockstep, hkept, hdevice⟩,
      ?_, by rwa [hs], hg.puts, by rwa [hone], hg.journal⟩
    rw [hs, hone]
    exact hsize

theorem Holds.countRecomputation (h : c.Holds b k) :
    c.Holds (b.withSchedule b.schedule.countRecomputation) k :=
  ⟨⟨h.rooted.root, h.rooted.ascending, h.rooted.capacity, h.rooted.size_le⟩, h.latest, h.lockstep,
    h.kept, h.device⟩

theorem Counts.forward (h : c.Counts b f r 0) (ha : c.Adds b b')
    (hb : b'.schedule.size ≤ c.budget + 1)
    (hfits : c.steps ≤ c.budget → b.schedule.size ≤ c.budget) : c.Counts b' (f + 1) r 0 := by
  obtain ⟨h1, h2, h3, h4, h5, h6, h7, h8⟩ := h
  obtain ⟨a1, a2, a3, a4, a5, a6, a7, _⟩ := ha
  refine ⟨by omega, by omega, by omega, by omega, by omega, by omega, ?_, ?_⟩
  · intro hle
    have := h7 hle
    have := hfits hle
    omega
  · intro hr hv
    -- what has not been evicted is held, up to the step that fills the schedule
    have := h8 hr hv
    omega

theorem Counts.replay (h : c.Counts b f r v) (ha : c.Adds b b')
    (hfits : c.steps ≤ c.budget → b.schedule.size ≤ c.budget) :
    c.Counts (b'.withSchedule b'.schedule.countRecomputation) f (r + 1) v := by
  obtain ⟨h1, h2, h3, h4, h5, h6, h7, h8⟩ := h
  obtain ⟨a1, a2, a3, a4, a5, a6, a7, _⟩ := ha
  have hrecomputed : b'.schedule.counters.recomputations + 1 = (r + 1 : Nat) := by omega
  have hbalance : b'.schedule.size + b'.schedule.counters.evictions + min v c.steps =
      1 + f + (r + 1 : Nat) := by omega
  have hfree : c.steps ≤ c.budget → b'.schedule.counters.evictions = 0 := by
    intro hle
    have := h7 hle
    have := hfits hle
    omega
  have hspilled : (f : Int) ≤ c.budget + b'.schedule.counters.evictions := by omega
  have hdiscards : (b'.store.discards : Int) =
      c.discards + b'.schedule.counters.evictions + min v c.steps := by omega
  have hstores : b'.schedule.counters.stores = 1 + f + (r + 1 : Nat) := by omega
  exact ⟨hstores, hrecomputed, hbalance, by show b'.store.puts = _; omega, hdiscards, hspilled,
    hfree, fun hr => absurd hr (Nat.succ_ne_zero r)⟩

theorem Counts.back (h : c.Counts b f r v) (hg : Gives b b' k) (hv : v + k = c.steps) :
    c.Counts b' f r (v + 1) := by
  obtain ⟨h1, h2, h3, h4, h5, h6, h7, _⟩ := h
  obtain ⟨g1, g2, g3, g4, _⟩ := hg
  refine ⟨by rw [g2, h1], by rw [g2, h2], ?_, by rw [g3, h4], ?_, by rw [g2]; exact h6,
    by rw [g2]; exact h7, fun _ hv => absurd hv (Nat.succ_ne_zero v)⟩
  · rw [g2]
    omega
  · rw [g2]
    omega

end Course
end ReverseSweep
