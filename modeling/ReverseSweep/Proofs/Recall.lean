import Mathlib.Algebra.BigOperators.Intervals
import ReverseSweep.Proofs.Histories
import ReverseSweep.Proofs.Progress

/-! Sweeps whose schedule may forget steps at any call. The store then holds more than the schedule,
but what is held is resident, and what has been forgotten is recomputed from what is left. -/

namespace ReverseSweep

variable {ω α β ε : Type}

theorem Number.succ_of_whole? {n : Number} {m : Int} (h : n.whole? = some m) :
    n.succ = .whole (m + 1) := by
  cases n with
  | float x => cases h
  | whole k => rw [succ, Option.some.inj h]
  | truth b => rw [succ, Option.some.inj h]

namespace Schedule

/-- What is left of a schedule that forgets steps: all persistent ones, and all that are spared. -/
structure Thins (spared : Int → Prop) (s t : Schedule) : Prop where
  sublist : t.slots.Sublist s.slots
  stays : ∀ slot ∈ s.slots, slot.persistent = true ∨ spared slot.step → slot ∈ t.slots
  capacity : t.capacity = s.capacity

variable {s t u : Schedule} {spared : Int → Prop} {budget k : Nat}

theorem Thins.refl (spared : Int → Prop) (s : Schedule) : Thins spared s s :=
  ⟨.refl _, fun _ hm _ => hm, rfl⟩

theorem Thins.trans (h : Thins spared s t) (h' : Thins spared t u) : Thins spared s u where
  sublist := h'.sublist.trans h.sublist
  stays := fun slot hm hs => h'.stays slot (h.stays slot hm hs) hs
  capacity := h'.capacity.trans h.capacity

theorem Thins.steps_subset (h : Thins spared s t) : t.steps ⊆ s.steps := by
  intro a ha
  obtain ⟨slot, hm, rfl⟩ := List.mem_map.mp ha
  exact List.mem_map_of_mem (h.sublist.subset hm)

theorem Rooted.of_thins (h : s.Rooted budget) (ht : Thins spared s t) : t.Rooted budget := by
  obtain ⟨rest, hs, hrest⟩ := h.root
  have hroot : (⟨0, true⟩ : Slot) ∈ t.slots := ht.stays _ (by simp [hs]) (.inl rfl)
  refine ⟨?_, h.ascending.sublist ht.sublist, ht.capacity.trans h.capacity, ?_⟩
  · rcases List.sublist_cons_iff.mp (hs ▸ ht.sublist) with hsub | ⟨left, hleft, hsub⟩
    -- the root is not among the slots that follow it
    · simpa using hrest _ (hsub.subset hroot)
    · exact ⟨left, hleft, fun a ha => hrest a (hsub.subset ha)⟩
  · exact Nat.le_trans ht.sublist.length_le h.size_le

theorem Rooted.latest_of_subset (h : t.Rooted budget) (hl : s.latest? = some (k : Int))
    (hsub : t.steps ⊆ s.steps) : ∃ j ≤ k, t.latest? = some (j : Int) := by
  obtain ⟨j, hj⟩ := h.exists_latest
  have hle := (latest?_eq_some_iff.mp hl).2 j (hsub (latest?_eq_some_iff.mp hj).1)
  exact ⟨j, by omega, hj⟩

theorem Thins.latest_of_spared (h : Thins spared s t) (hl : s.latest? = some (k : Int))
    (hk : spared k) : t.latest? = some (k : Int) := by
  obtain ⟨hm, hle⟩ := latest?_eq_some_iff.mp hl
  obtain ⟨slot, hslot, hstep⟩ := List.mem_map.mp hm
  have hmem := h.stays slot hslot (.inr (hstep ▸ hk))
  exact latest?_eq_some_iff.mpr
    ⟨hstep ▸ List.mem_map_of_mem hmem, fun a ha => hle a (h.steps_subset ha)⟩

/-- What is held after an admission was held before, besides the step itself. -/
theorem Admits.eq_or_mem {slot : Slot} {admission : Admission} {slots : List Slot}
    (h : s.Admits slot admission slots) (hs : Slot.Ascending s.slots) {a : Int}
    (ha : a ∈ slots.map (·.step)) :
    a = slot.step ∨ a ∈ s.steps ∧ ∀ old, admission = .evicted old → a ≠ old := by
  obtain ⟨held, hheld, rfl⟩ := List.mem_map.mp ha
  cases h with
  | kept =>
    refine (Slot.mem_insert_iff.mp hheld).imp (congrArg Slot.step) fun hheld => ?_
    exact ⟨List.mem_map_of_mem hheld, by simp⟩
  | evicted _ i hi =>
    refine (Slot.mem_insert_iff.mp hheld).imp (congrArg Slot.step) fun hheld => ?_
    obtain ⟨hheld, hne⟩ := (hs.mem_eraseIdx_iff hi held).mp hheld
    exact ⟨List.mem_map_of_mem hheld, by simpa using hne⟩
  | dropped => exact .inr ⟨ha, by simp⟩

/-- Step 0 is kept by a schedule that holds nothing yet, whatever it has counted. -/
theorem Sound.offer_root (h : s.Sound budget) (hs : s.slots = []) :
    ∃ t, s.offer 0 true = (.ok .kept, t) ∧ t.Rooted budget ∧ t.slots = [⟨0, true⟩] ∧
      t.counters = s.counters.count .kept := by
  have ho := s.offered 0 true
  generalize s.offer 0 true = p at ho
  cases ho with
  | invalid hinvalid => exact absurd hinvalid (by decide)
  | held hheld => simp [steps, hs] at hheld
  | overfull _ hfull => simp [h.not_overfull] at hfull
  | admitted admission slots hnew hadmits =>
    have hroom := h.above_roomFor
    have hcapacity : s.roomFor true = .whole (budget + 1) := by
      rw [roomFor_true]
      exact Number.succ_of_whole? (by simpa [hs] using h.capacity)
    cases hadmits with
    | evicted hfull => cases hroom.symm.trans hfull
    | dropped hfull => cases hroom.symm.trans hfull
    | kept =>
      refine ⟨_, rfl, ?_, by simp [hs, Slot.insert], rfl⟩
      simp only [hs, hcapacity, Slot.insert]
      exact rooted_root budget _

end Schedule

namespace Store

theorem mem_map_insertEntry {entries : List (Int × α)} {step a : Int} {state : α} :
    a ∈ (insertEntry step state entries).map (·.1) ↔ a = step ∨ a ∈ entries.map (·.1) := by
  induction entries with
  | nil => simp [insertEntry]
  | cons entry rest ih =>
    simp only [insertEntry]
    split
    · simp
    · split
      · simp_all
      · rw [List.map_cons, List.mem_cons, ih]
        simp only [List.map_cons, List.mem_cons]
        exact or_left_comm

theorem mem_steps_discard {s : Store α} {step a : Int} (h : a ∈ s.steps) (hne : a ≠ step) :
    a ∈ (s.discard step).2.steps := by
  unfold discard
  split
  · obtain ⟨entry, hm, rfl⟩ := List.mem_map.mp h
    exact List.mem_map.mpr ⟨entry, (List.mem_eraseP_of_neg (by simpa using hne)).mpr hm, rfl⟩
  · exact h

end Store

namespace Course

variable {c : Course ω α ε} {b b' : Bench α} {r : Run ω α} {i j k m n : Nat}

/-- The callbacks do not fail, but they may make the schedule forget steps. There is room besides
step 0 if there is anything to recompute. -/
structure Lossy [Movable α] (c : Course ω α ε) : Prop where
  room : 0 < c.steps → 1 ≤ c.budget
  steps_lt : (c.steps : Int) < noStep
  settle : ∀ s : Store α, s.device = c.device → ∀ n ≤ c.steps, ∀ y, c.made n y →
    ∃ z, s.settle y = .ok z ∧ c.kept n z
  update : ∀ n < c.steps, ∀ y, c.made n y ∨ c.kept n y → ∀ w b, ∃ z w' b',
    c.callbacks.update n y w b = (.ok z, w', b') ∧ c.made (n + 1) z ∧
      b.schedule.Thins (fun _ => False) b'.schedule ∧ b'.store = b.store
  reverse : ∀ n ≤ c.steps, ∀ y, c.kept n y → ∀ w b, ∃ w' b',
    c.callbacks.reverse n y w b = (.ok (), w', b') ∧
      b.schedule.Thins (fun step => step = n) b'.schedule ∧ b'.store = b.store

/-- What is held up to a step is resident. The store may hold other states besides. -/
structure Backs (c : Course ω α ε) (b : Bench α) (latest : Nat) : Prop where
  rooted : b.schedule.Rooted c.budget
  latest : b.schedule.latest? = some (latest : Int)
  resident : b.schedule.steps ⊆ b.store.steps
  kept : ∀ entry ∈ b.store.entries, c.kept entry.1.toNat entry.2
  device : b.store.device = c.device

namespace Backs

theorem of_eq (h : c.Backs b k) (hs : b'.schedule = b.schedule) (ht : b'.store = b.store) :
    c.Backs b' k := by
  obtain ⟨h1, h2, h3, h4, h5⟩ := h
  exact ⟨hs ▸ h1, hs ▸ h2, hs ▸ ht ▸ h3, ht ▸ h4, ht ▸ h5⟩

theorem countRecomputation (h : c.Backs b k) :
    c.Backs (b.withSchedule b.schedule.countRecomputation) k :=
  ⟨⟨h.rooted.root, h.rooted.ascending, h.rooted.capacity, h.rooted.size_le⟩, h.latest, h.resident,
    h.kept, h.device⟩

theorem of_thins {spared : Int → Prop} (h : c.Backs b k)
    (hthins : b.schedule.Thins spared b'.schedule) (ht : b'.store = b.store)
    (hj : b'.schedule.latest? = some (j : Int)) : c.Backs b' j where
  rooted := h.rooted.of_thins hthins
  latest := hj
  resident := fun _ ha => ht ▸ h.resident (hthins.steps_subset ha)
  kept := ht ▸ h.kept
  device := ht ▸ h.device

theorem exists_get_eq_ok (h : c.Backs b k) : ∃ y, b.store.get k = .ok y ∧ c.kept k y := by
  obtain ⟨y, hy, hm⟩ :=
    Store.exists_get_eq_ok (h.resident (Schedule.latest?_eq_some_iff.mp h.latest).1)
  exact ⟨y, hy, by simpa using h.kept _ hm⟩

/-- A step after the latest one is admitted. The step that it may evict is resident, and a state
that the store still has of it is replaced. -/
theorem offer [Movable α] (h : c.Backs b k) (hc : c.Lossy) (hk : k < m) (hm : m ≤ c.steps) {y : α}
    (hy : c.made m y) : ∃ b', b.offer m y = (.ok true, b') ∧ c.Backs b' m := by
  have hlt := hc.steps_lt
  obtain ⟨z, hz, hkept⟩ := hc.settle b.store h.device m hm y hy
  obtain ⟨admission, s, ho, hd, hrooted, hlatest, _⟩ :=
    h.rooted.offer_later (hc.room (by omega)) h.latest hk (by omega)
  obtain ⟨_, hadmits, _⟩ := Schedule.offer_eq_ok ho
  have hold (a : Int) (ha : a ∈ s.steps) := hadmits.eq_or_mem h.rooted.ascending ha
  have hmade (entries : List (Int × α)) (hentries : ∀ entry ∈ entries, entry ∈ b.store.entries) :
      ∀ entry ∈ Store.insertEntry m z entries, c.kept entry.1.toNat entry.2 := by
    intro entry hentry
    rcases Store.mem_insertEntry hentry with rfl | hentry
    · simpa using hkept
    · exact h.kept entry (hentries entry hentry)
  generalize s.slots = slots at hadmits
  cases hadmits with
  | dropped => exact absurd rfl hd
  | kept =>
    refine ⟨_, Bench.offer_kept ho hz, hrooted, hlatest, fun a ha => ?_, hmade _ fun _ he => he,
      h.device⟩
    exact Store.mem_map_insertEntry.mpr ((hold a ha).imp_right fun ha => h.resident ha.1)
  | evicted _ e he =>
    have hmem : b.schedule.slots[e].step ∈ b.store.steps :=
      h.resident (List.mem_map_of_mem (List.getElem_mem he))
    refine ⟨_, Bench.offer_evicted ho hmem hz, hrooted, hlatest, ?_, ?_, ?_⟩
    · intro a ha
      refine Store.mem_map_insertEntry.mpr ((hold a ha).imp_right fun ha => ?_)
      exact Store.mem_steps_discard (h.resident ha.1) (ha.2 _ rfl)
    · rw [Store.discard_of_mem hmem]
      exact hmade _ fun _ hentry => List.eraseP_subset hentry
    · rw [Store.discard_of_mem hmem]
      exact h.device

/-- The latest step is given up, unless it is step 0. -/
theorem release (h : c.Backs b k) :
    ∃ b' j, b.release k = (.ok (), b') ∧ j ≤ k - 1 ∧ c.Backs b' j := by
  by_cases hk : k = 0
  · subst hk
    have hb : b.release (0 : Nat) = (.ok (), b.withSchedule b.schedule) := by
      simp only [Bench.release, Int.ofNat_zero, h.rooted.remove_root]
    exact ⟨_, 0, hb, Nat.le_refl 0, h.of_eq rfl rfl⟩
  · obtain ⟨s, hr, hslots, _, hrooted, _, j, hj, hlatest⟩ :=
      h.rooted.remove_latest h.latest (by omega)
    have hb : b.release k =
        (.ok (), (b.withSchedule s).withStore (b.store.discard k).2) := by
      simp only [Bench.release, hr]
    refine ⟨_, j, hb, by omega, hrooted, hlatest, ?_, ?_, ?_⟩
    · intro a ha
      obtain ⟨slot, hslot, rfl⟩ := List.mem_map.mp (show a ∈ s.steps from ha)
      rw [hslots] at hslot
      exact Store.mem_steps_discard
        (h.resident (List.mem_map_of_mem (List.eraseP_subset hslot)))
        (h.rooted.ascending.ne_of_mem_eraseP hslot)
    · intro entry hentry
      refine h.kept entry ?_
      have hstore : entry ∈ (b.store.discard k).2.entries := hentry
      unfold Store.discard at hstore
      split at hstore
      · exact List.eraseP_subset hstore
      · exact hstore
    · change (b.store.discard k).2.device = c.device
      rw [← h.device]
      unfold Store.discard
      split <;> rfl

end Backs

/-- A run with states held up to a step. The steps from `back` on have been given back, each call has
received a state of its step, and the updates are as many as the steps back so far allow, besides
those for the steps up to `spent`. -/
structure Recalls (c : Course ω α ε) (r : Run ω α) (latest back spent : Nat) : Prop where
  backs : c.Backs r.bench latest
  sees : ∀ call ∈ r.latestCalls, ∃ n : Nat, call.step = n ∧
    (c.made n call.state ∨ c.kept n call.state)
  reversed : r.headings.filter (·.1 == .reverse) =
    (List.range' back (c.steps + 1 - back)).reverse.map fun (i : Nat) => (.reverse, (i : Int))
  updates_le : r.updateCount + ∑ i ∈ Finset.range back, i ≤
    ∑ i ∈ Finset.range (c.steps + 1), i + spent

namespace Recalls

theorem withBench (h : c.Recalls r k j m) (hb : c.Backs b i) : c.Recalls (r.withBench b) i j m :=
  ⟨hb, h.sees, h.reversed, h.updates_le⟩

theorem mono (h : c.Recalls r k j m) (hle : m ≤ n) : c.Recalls r k j n :=
  ⟨h.backs, h.sees, h.reversed, Nat.le_trans h.updates_le (Nat.add_le_add_left hle _)⟩

theorem logRow (h : c.Recalls r k j m) (f : Journal → Journal) (logged : Nat) :
    c.Recalls ⟨r.world, r.bench.mapJournal f, r.latestCalls, logged⟩ k j m :=
  ⟨h.backs.of_eq rfl rfl, h.sees, h.reversed, h.updates_le⟩

theorem sees_cons (h : c.Recalls r k j m) (kind : CallKind) {y : α}
    (hy : c.made n y ∨ c.kept n y) : ∀ call ∈ ⟨kind, n, y, r.bench⟩ :: r.latestCalls,
      ∃ n : Nat, call.step = n ∧ (c.made n call.state ∨ c.kept n call.state) := by
  intro call hcall
  rcases List.mem_cons.mp hcall with rfl | hcall
  · exact ⟨n, rfl, hy⟩
  · exact h.sees call hcall

theorem updated (h : c.Recalls r k j m) {y : α} (hy : c.made n y ∨ c.kept n y) (w : ω)
    (hb : c.Backs b i) :
    c.Recalls ⟨w, b, ⟨.update, n, y, r.bench⟩ :: r.latestCalls, r.logged⟩ i j (m + 1) := by
  refine ⟨hb, h.sees_cons .update hy, ?_, ?_⟩
  · rw [Run.headings_cons, List.filter_append, h.reversed]
    simp [Call.heading]
  · have hle := h.updates_le
    rw [Run.updateCount_eq, Run.headings_cons, List.countP_append, ← Run.updateCount_eq]
    have hone : [Call.heading ⟨.update, (n : Int), y, r.bench⟩].countP (·.1 == .update) = 1 := rfl
    omega

/-- A step back leaves the updates that recomputing its state could have taken. -/
theorem reversed_of_call (h : c.Recalls r i (i + 1) i) (hi : i ≤ c.steps) {y : α}
    (hy : c.kept i y) (w : ω) (hb : c.Backs b i) :
    c.Recalls ⟨w, b, ⟨.reverse, i, y, r.bench⟩ :: r.latestCalls, r.logged⟩ i i 0 := by
  refine ⟨hb, h.sees_cons .reverse (.inr hy), ?_, ?_⟩
  · rw [Run.headings_cons, List.filter_append, h.reversed,
      show c.steps + 1 - i = c.steps + 1 - (i + 1) + 1 by omega, List.range'_succ]
    simp [Call.heading]
  · have hle := h.updates_le
    rw [Finset.sum_range_succ] at hle
    rw [Run.updateCount_eq, Run.headings_cons, List.countP_append, ← Run.updateCount_eq]
    have hnone : [Call.heading ⟨.reverse, (i : Int), y, r.bench⟩].countP (·.1 == .update) = 0 := rfl
    omega

end Recalls

section Sweeps

open Sweep

variable [Movable α] {y : α} {E : Stop ε → Run ω α → Prop}

omit [Movable α] in
theorem ensures_get :
    Ensures (fun r => c.Recalls r k j m) (askBench fun b => b.store.get k)
      (fun y r => c.kept k y ∧ c.Recalls r k j m) E := by
  refine Ensures.askBench_of fun r hr => ?_
  obtain ⟨y, hy, hkept⟩ := hr.backs.exists_get_eq_ok
  exact ⟨y, hy, hkept, hr⟩

omit [Movable α] in
theorem ensures_record (f : Journal → Journal) :
    Ensures (fun r => c.Recalls r k j m) (changeBench fun b => b.mapJournal f)
      (fun _ r => c.Recalls r k j m) E :=
  Ensures.changeBench fun _ hr => hr.withBench (hr.backs.of_eq rfl rfl)

theorem ensures_update (hc : c.Lossy) (hk : k < c.steps) (hy : c.made k y ∨ c.kept k y) :
    Ensures (fun r => c.Recalls r k j k) (update c.callbacks k y)
      (fun z r => c.made (k + 1) z ∧ ∃ i ≤ k, c.Recalls r i j (k + 1)) E := by
  refine Ensures.callback_of fun r hr => ?_
  obtain ⟨z, w, b, hu, hz, hthins, hstore⟩ := hc.update k hk y hy r.world r.bench
  obtain ⟨i, hi, hlatest⟩ := (hr.backs.rooted.of_thins hthins).latest_of_subset hr.backs.latest
    hthins.steps_subset
  exact ⟨z, w, b, hu, hz, i, hi, hr.updated hy w (hr.backs.of_thins hthins hstore hlatest)⟩

theorem ensures_forward (hc : c.Lossy) (hk : k < c.steps) :
    Ensures (fun r => c.made k y ∧ c.Recalls r k j k) (forward c.callbacks false k y)
      (fun z r => c.made (k + 1) z ∧ c.Recalls r (k + 1) j (k + 1)) E := by
  refine Ensures.of_and fun hy => (ensures_update hc hk (.inl hy)).andThen fun z => ?_
  refine Ensures.of_and fun hz => ?_
  refine Ensures.andThen (Q := fun _ r => c.Recalls r (k + 1) j (k + 1)) ?_ fun _ => ?_
  · refine Ensures.onBench_of ?_
    rintro r ⟨i, hi, hr⟩
    obtain ⟨b, hb, hbacks⟩ := hr.backs.offer hc (Nat.lt_succ_of_le hi) hk hz
    exact ⟨true, b, hb, hr.withBench hbacks⟩
  refine Ensures.unverified.andThen fun _ => (ensures_record _).andThen fun _ => ?_
  refine (Ensures.logIfDue (fun _ f logged hr => hr.logRow f logged) fun _ hr => hr).andThen ?_
  exact fun _ => Ensures.done z fun _ hr => ⟨hz, hr⟩

theorem ensures_recompute (hc : c.Lossy) (hk : k < c.steps) :
    Ensures (fun r => c.Recalls r k j k) (recompute c.callbacks false k)
      (fun _ r => c.Recalls r (k + 1) j (k + 1)) E := by
  refine ensures_get.andThen fun y => Ensures.of_and fun hy => ?_
  refine (ensures_update hc hk (.inr hy)).andThen fun z => Ensures.of_and fun hz => ?_
  refine Ensures.andThen (Q := fun _ r => c.Recalls r (k + 1) j (k + 1)) ?_ fun _ => ?_
  · refine Ensures.onBench_of ?_
    rintro r ⟨i, hi, hr⟩
    obtain ⟨b, hb, hbacks⟩ := hr.backs.offer hc (Nat.lt_succ_of_le hi) hk hz
    have hb' : r.bench.offer ((k : Int) + 1) z = (.ok true, b) := hb
    refine ⟨(), b.withSchedule b.schedule.countRecomputation, ?_,
      hr.withBench hbacks.countRecomputation⟩
    simp only [Bench.offerAgain, hb']
  exact Ensures.unverified.andThen fun _ => ensures_record _

theorem ensures_reach (hc : c.Lossy) (hi : i ≤ c.steps) :
    Ensures (fun r => ∃ k ≤ i, c.Recalls r k j k) (reach c.callbacks false i)
      (fun _ r => c.Recalls r i j i) E := by
  refine Ensures.mono (Q := fun _ r => (∃ k ≤ i, c.Recalls r k j k) ∧
    ∃ last, r.bench.schedule.latest? = some last ∧ (i : Int) ≤ last)
    (Ensures.reach ?_ ?_) (fun _ hr => hr) ?_ fun _ _ h => h
  · rintro last r ⟨⟨k, _, hr⟩, hlast, hlt⟩
    obtain rfl : (k : Int) = last := Option.some.inj (hr.backs.latest.symm.trans hlast)
    have hk : k < i := by omega
    have hpass := ensures_recompute (j := j) (E := E) hc (by omega : k < c.steps) r hr
    generalize recompute c.callbacks false k r = p at hpass ⊢
    cases hpass with
    | ok _ t ht => exact .ok () t ⟨k + 1, hk, ht⟩
    | error e t he => exact .error e t he
  · rintro r ⟨k, _, hr⟩ hnone
    cases hnone.symm.trans hr.backs.latest
  · rintro _ r ⟨⟨k, hk, hr⟩, last, hlast, hle⟩
    obtain rfl : (k : Int) = last := Option.some.inj (hr.backs.latest.symm.trans hlast)
    obtain rfl : k = i := by omega
    exact hr

/-- What holds when the steps from `back` on have been given back. -/
def Returned (c : Course ω α ε) (back : Nat) (r : Run ω α) : Prop :=
  back ≤ c.steps + 1 ∧ ∃ k ≤ back - 1, c.Recalls r k back k

theorem ensures_stepBack (hc : c.Lossy) (i : Nat) :
    Ensures (c.Returned (i + 1)) (stepBack c.callbacks false i) (fun _ => c.Returned i) E := by
  refine Ensures.of_and fun hi => ?_
  have hi' : i ≤ c.steps := by omega
  refine (ensures_reach hc hi').andThen fun _ => ensures_get.andThen fun y => ?_
  refine Ensures.of_and fun hy => ?_
  refine Ensures.andThen (Q := fun _ r => c.Recalls r i i 0) ?_ fun _ => ?_
  · refine Ensures.callback_of fun r hr => ?_
    obtain ⟨w, b, hrev, hthins, hstore⟩ := hc.reverse i hi' y hy r.world r.bench
    have hlatest := hthins.latest_of_spared hr.backs.latest rfl
    exact ⟨(), w, b, hrev,
      hr.reversed_of_call hi' hy w (hr.backs.of_thins hthins hstore hlatest)⟩
  refine Ensures.andThen (Q := fun _ => c.Returned i) ?_ fun _ => ?_
  · refine Ensures.onBench_of fun r hr => ?_
    obtain ⟨b, k, hb, hk, hbacks⟩ := hr.backs.release
    exact ⟨(), b, hb, by omega, k, hk, (hr.withBench hbacks).mono (Nat.zero_le k)⟩
  refine Ensures.unverified.andThen fun _ => ?_
  rintro r ⟨hle, k, hk, hr⟩
  refine ((ensures_record _).andThen fun _ => Ensures.logIfDue ?_ ?_) r hr
  · exact fun _ f logged hr => ⟨hle, k, hk, hr.logRow f logged⟩
  · exact fun _ hr => ⟨hle, k, hk, hr⟩

/-- Where a sweep starts: nothing is held or resident, whatever has been counted. -/
structure Starts (c : Course ω α ε) (r : Run ω α) : Prop where
  calls : r.latestCalls = []
  slots : r.bench.schedule.slots = []
  sound : r.bench.schedule.Sound c.budget
  entries : r.bench.store.entries = []
  device : r.bench.store.device = c.device

omit [Movable α] in
theorem Starts.recalls (h : c.Starts r) {b : Bench α} (hb : c.Backs b 0) :
    c.Recalls (r.withBench b) 0 (c.steps + 1) 0 := by
  refine ⟨hb, ?_, ?_, ?_⟩
  · simp [Run.withBench, h.calls]
  · simp [Run.headings, Run.calls, Run.withBench, h.calls]
  · simp [Run.updateCount, Run.calls, Run.withBench, h.calls]

theorem ensures_start (hc : c.Lossy) (hy : c.made 0 y) :
    Ensures c.Starts (start false y : Sweep ω α ε Unit)
      (fun _ r => c.Recalls r 0 (c.steps + 1) 0) E := by
  refine Ensures.andThen (Q := fun _ r => c.Recalls r 0 (c.steps + 1) 0) ?_ fun _ =>
    Ensures.done () fun _ hr => hr
  refine Ensures.onBench_of fun r hr => ?_
  obtain ⟨z, hz, hkept⟩ := hc.settle r.bench.store hr.device 0 (Nat.zero_le _) y hy
  obtain ⟨s, ho, hrooted, hslots, _⟩ := hr.sound.offer_root hr.slots
  have hsteps : s.steps = [0] := by simp [Schedule.steps, hslots]
  have hentries : (r.bench.store.insert 0 z).entries = [(0, z)] := by
    simp [Store.insert, hr.entries, Store.insertEntry]
  refine ⟨(), _, Bench.keep_of_offer ho hz, hr.recalls ⟨hrooted, ?_, ?_, ?_, hr.device⟩⟩
  · exact Schedule.latest?_eq_some_iff.mpr (by simp [Bench.withSchedule, Bench.withStore, hsteps])
  · simp [Bench.withSchedule, Bench.withStore, hsteps, Store.steps, hentries]
  · simpa [Bench.withStore, hentries] using hkept

/-- A lossy sweep ends, and has told every step back once. -/
theorem ensures_sweep (hc : c.Lossy) (hy : c.made 0 y) :
    Ensures c.Starts (sweep c.callbacks false c.steps y)
      (fun z r => c.made c.steps z ∧ c.Recalls r 0 0 0) E := by
  refine (ensures_start hc hy).andThen fun _ => ?_
  have hforward := Ensures.advanceTo (fun k (hk : k < c.steps) y =>
    ensures_forward (y := y) (j := c.steps + 1) (E := E) hc hk) c.steps 0 y (by omega)
  rw [Nat.zero_add] at hforward
  refine (hforward.mono (fun _ hr => ⟨hy, hr⟩) (fun _ _ hr => hr) fun _ _ h => h).andThen
    fun z => ?_
  rintro r ⟨hz, hr⟩
  refine ((Ensures.retreat (ensures_stepBack hc) c.steps).andThen fun _ => ?_) r
    ⟨Nat.le_refl _, c.steps, Nat.le_refl _, hr⟩
  refine Ensures.done z ?_
  rintro t ⟨_, k, hk, ht⟩
  obtain rfl : k = 0 := by omega
  exact ⟨hz, ht⟩

end Sweeps

/-- Most of what is recomputed on the way back from the last step. -/
theorem Recalls.updateCount_le (h : c.Recalls r 0 0 0) :
    r.updateCount ≤ c.steps + c.steps * (c.steps - 1) / 2 := by
  have hle := h.updates_le
  rw [Finset.sum_range_zero, Finset.sum_range_succ, Finset.sum_range_id] at hle
  omega

end Course

namespace Setup

variable [Movable α] {s : Setup α} {cb : Callbacks ω α ε} {n budget : Nat}
  {made kept : Nat → α → Prop} {fresh : Schedule}

theorem exists_run_recalls (hsteps : s.steps = .int n) (hv : s.verify = false)
    (hbench : s.bench = .ok ⟨fresh, s.store, s.journal, s.now⟩) (hfresh : fresh.Sound budget)
    (hc : (s.course cb n budget made kept).Lossy) (hy : made 0 s.state) (w : ω) :
    ∃ z t, s.run cb w = .ok (.ok z, t) ∧ made n z ∧
      (s.course cb n budget made kept).Recalls t 0 0 0 := by
  obtain ⟨_, hslots, hentries⟩ := bench_eq_ok hbench
  obtain ⟨z, t, hsweep, hz, hrecalls⟩ := (Course.ensures_sweep hc hy).exists_eq_ok
    (r := ⟨w, ⟨fresh, s.store, s.journal, s.now⟩, [], 0⟩) ⟨rfl, hslots, hfresh, hentries, rfl⟩
  refine ⟨z, t, ?_, hz, hrecalls⟩
  have hcount : s.steps.count = .ok n := hsteps ▸ count_int (Int.le_of_lt hc.steps_lt)
  rw [run, hbench, Except.map, hcount, hv]
  exact congrArg Except.ok hsweep

end Setup
end ReverseSweep
