import Mathlib.Algebra.GroupWithZero.Nat
import Mathlib.Data.List.DropRight
import ReverseSweep.Proofs.Events

/-! The counters of a schedule and the number of its slots, as accounts of what has come of the
requests: each slot held was offered, and has been neither evicted, removed nor cleared since. -/

namespace ReverseSweep.Schedule

namespace Event

@[simp] def isOffer : Event → Bool
  | offered _ _ _ => true
  | _ => false

/-- An offer that was dropped. What it returns is what an offer that was kept returns. -/
@[simp] def isDrop : Event → Bool
  | offered _ _ .dropped => true
  | _ => false

/-- An offer that returned a step. -/
@[simp] def isEviction : Event → Bool
  | offered _ _ admission => isStep admission.code
  | _ => false

@[simp] def isRemoval : Event → Bool
  | removed _ => true
  | _ => false

@[simp] def slotsCleared : Event → Nat
  | cleared slots => slots
  | _ => 0

/-- The events since the counters were last reset. -/
def sinceReset (all : List Event) : List Event := all.rtakeWhile (· ≠ countersReset)

theorem sinceReset_countersReset (all : List Event) : sinceReset (all ++ [countersReset]) = [] :=
  List.rtakeWhile_concat_neg _ _ _ (by simp)

theorem sinceReset_concat (all : List Event) {e : Event} (h : e ≠ countersReset) :
    sinceReset (all ++ [e]) = sinceReset all ++ [e] :=
  List.rtakeWhile_concat_pos _ _ _ (by simpa using h)

end Event

/-- The accounts of a schedule. The counters go back to the last reset of them, the slots to the
beginning. -/
structure Accounted (all : List Event) (s : Schedule) : Prop where
  valid : ∀ slot ∈ s.slots, isStep slot.step = true
  stores : s.counters.stores = (Event.sinceReset all).countP Event.isOffer
  evictions : s.counters.evictions = (Event.sinceReset all).countP Event.isEviction
  recomputations : s.counters.recomputations = (Event.sinceReset all).count .recomputed
  size : s.size + all.countP Event.isDrop + all.countP Event.isEviction +
    all.countP Event.isRemoval + (all.map Event.slotsCleared).sum = all.countP Event.isOffer

/-- How one event but a reset of the counters changes the accounts. -/
structure Posts (s t : Schedule) (e : Event) : Prop where
  ne : e ≠ .countersReset
  valid : ∀ slot ∈ t.slots, isStep slot.step = true
  stores : t.counters.stores = s.counters.stores + [e].countP Event.isOffer
  evictions : t.counters.evictions = s.counters.evictions + [e].countP Event.isEviction
  recomputations : t.counters.recomputations = s.counters.recomputations + [e].count .recomputed
  size : t.size + [e].countP Event.isDrop + [e].countP Event.isEviction +
    [e].countP Event.isRemoval + e.slotsCleared = s.size + [e].countP Event.isOffer

variable {all : List Event} {s t : Schedule} {step : Int} {persistent : Bool}

theorem Accounted.concat (h : Accounted all s) {e : Event} (he : Posts s t e) :
    Accounted (all ++ [e]) t := by
  have hstores := h.stores
  have hevictions := h.evictions
  have hrecomputations := h.recomputations
  have hsize := h.size
  have hsize' := he.size
  refine ⟨he.valid, ?_, ?_, ?_, ?_⟩
  · rw [he.stores, Event.sinceReset_concat all he.ne, List.countP_append]
    omega
  · rw [he.evictions, Event.sinceReset_concat all he.ne, List.countP_append]
    omega
  · rw [he.recomputations, Event.sinceReset_concat all he.ne, List.count_append]
    omega
  · simp only [List.countP_append, List.map_append, List.sum_append, List.map_cons, List.map_nil,
      List.sum_singleton]
    omega

theorem posts_offered (hvalid : ∀ slot ∈ s.slots, isStep slot.step = true) (hnew : step ≠ noStep)
    {capacity : Number} {admission : Admission} {slots : List Slot}
    (ha : Admits ⟨s.slots, capacity, s.counters⟩ ⟨step, persistent⟩ admission slots) :
    Posts s ⟨slots, capacity, s.counters.count admission⟩ (.offered step persistent admission) := by
  have hslots : ∀ slot ∈ slots, isStep slot.step = true := by
    intro slot hm
    rcases ha.eq_or_mem_slots hm with rfl | hm
    · simpa [isStep] using hnew
    · exact hvalid slot hm
  have hnone : isStep noStep = false := rfl
  refine ⟨by simp, hslots, Counters.count_stores _ _, ?_, by simp, ?_⟩
  · cases ha with
    | kept => simp [Counters.count, Admission.code, hnone]
    | evicted _ i hi =>
      have hstep := hvalid _ (List.getElem_mem hi)
      simp [Counters.count, Admission.code, hstep]
    | dropped => simp [Counters.count, Admission.code, hnone]
  · cases ha with
    | kept => exact Slot.length_insert _ _
    | evicted _ i hi =>
      have hstep := hvalid _ (List.getElem_mem hi)
      have hlen : (s.slots.eraseIdx i).length + 1 = s.slots.length :=
        List.length_eraseIdx_add_one hi
      simp [Schedule.size, Slot.length_insert, Admission.code, hstep, hlen]
    | dropped => rfl

theorem posts_removed {before after : List Slot}
    (hvalid : ∀ slot ∈ s.slots, isStep slot.step = true)
    (hslots : s.slots = before ++ ⟨step, false⟩ :: after) :
    Posts s ⟨before ++ after, s.capacity, s.counters⟩ (.removed step) := by
  refine ⟨by simp, fun slot hm => hvalid slot ?_, by simp, by simp, by simp, ?_⟩
  · rw [hslots]
    exact List.mem_append.mpr ((List.mem_append.mp hm).imp_right fun h => List.mem_cons_of_mem _ h)
  · simp [Schedule.size, hslots, Nat.add_assoc]

theorem posts_cleared (hvalid : ∀ slot ∈ s.slots, isStep slot.step = true) :
    Posts s s.reset (.cleared (s.size - s.reset.size)) := by
  have hle : s.reset.size ≤ s.size := List.length_filter_le _ _
  refine ⟨by simp, fun slot hm => hvalid slot (List.mem_filter.mp hm).1, by simp [Schedule.reset],
    by simp [Schedule.reset], by simp [Schedule.reset], ?_⟩
  exact Nat.add_sub_of_le hle

theorem recorded_accounted : Recorded Accounted where
  offer := by
    intro all s step persistent h
    have ho := s.offered step persistent
    generalize s.offer step persistent = result at ho
    cases ho with
    | invalid => rwa [offerEvents, List.append_nil]
    | held => rwa [offerEvents, List.append_nil]
    | overfull =>
      rw [offerEvents, List.append_nil]
      exact ⟨h.valid, h.stores, h.evictions, h.recomputations, h.size⟩
    | admitted admission slots hnew ha => exact h.concat (posts_offered h.valid hnew.2.1 ha)
  remove := by
    intro all s step h
    have hr := s.removed step
    generalize s.remove step = result at hr
    cases hr with
    | notHeld => exact (List.append_nil all).symm ▸ h
    | persistent => exact (List.append_nil all).symm ▸ h
    | removed before after hslots => exact h.concat (posts_removed h.valid hslots)
  reset := fun _ _ h => h.concat (posts_cleared h.valid)
  countRecomputation := fun _ _ h =>
    h.concat ⟨by simp, h.valid, by simp [Schedule.countRecomputation],
      by simp [Schedule.countRecomputation], by simp [Schedule.countRecomputation], rfl⟩
  resetCounters := by
    intro all s h
    have hnone := Event.sinceReset_countersReset all
    refine ⟨h.valid, by rw [hnone]; rfl, by rw [hnone]; rfl, by rw [hnone]; rfl, ?_⟩
    simpa [resetCounters, Schedule.size] using h.size

theorem counters_of_offer_error {fault : Fault} (h : s.offer step persistent = (.error fault, t)) :
    t.counters = s.counters := by
  have ho := s.offered step persistent
  rw [h] at ho
  cases ho with
  | invalid => rfl
  | held => rfl
  | overfull => rfl

theorem exists_event_of_offerEach (s : Schedule) (steps : List Int)
    (h : (s.offerEach steps).2.counters ≠ s.counters) :
    ∃ e ∈ s.offerEachEvents steps, e.isOffer = true := by
  cases steps with
  | nil => exact absurd rfl h
  | cons step steps =>
    rcases ho : s.offer step with ⟨fault | admission, t⟩
    · simp only [Schedule.offerEach, ho] at h
      exact absurd (counters_of_offer_error ho) h
    · exact ⟨.offered step false admission, by simp [offerEachEvents, ho], rfl⟩

/-- Whatever changes a counter leaves an event of its own. -/
theorem exists_event_of_counters_ne (s : Schedule) (r : Request)
    (h : (s.perform r).2.counters ≠ s.counters) :
    ∃ e ∈ s.events r, e.isOffer = true ∨ e = .recomputed ∨ e = .countersReset := by
  cases r with
  | offer step persistent =>
    rcases ho : s.offer step persistent with ⟨fault | admission, t⟩
    · simp only [perform, ho] at h
      exact absurd (counters_of_offer_error ho) h
    · exact ⟨.offered step persistent admission, by simp [events, offerEvents, ho], .inl rfl⟩
  | offerRange first stop stride =>
    cases hp : progression first stop stride with
    | error fault => simp [perform, hp] at h
    | ok steps =>
      simp only [perform, hp] at h
      obtain ⟨e, he, hoffer⟩ := s.exists_event_of_offerEach steps h
      exact ⟨e, by simpa [events, hp] using he, .inl hoffer⟩
  | remove step =>
    have hr := s.removed step
    simp only [perform] at h
    generalize s.remove step = result at hr h
    cases hr <;> exact absurd rfl h
  | erase step =>
    have hr := s.removed step
    simp only [perform, erase] at h
    generalize s.remove step = result at hr h
    cases hr <;> exact absurd rfl h
  | countRecomputation => exact ⟨.recomputed, List.mem_singleton_self _, .inr (.inl rfl)⟩
  | resetCounters => exact ⟨.countersReset, List.mem_singleton_self _, .inr (.inr rfl)⟩
  | _ => exact absurd rfl h

theorem accounted_of_create {number : Number} (h : create number = .ok s) : Accounted [] s := by
  unfold create at h
  split at h
  · cases h
  · obtain rfl := Except.ok.inj h
    exact ⟨by simp, rfl, rfl, rfl, rfl⟩

/-- Since they were last reset the counters say how many offers were not refused, how many of them
returned a step and how many recomputations were counted, and nothing else changes them. The slots
held are those offers since the beginning that were not dropped, less what was evicted, removed and
cleared. -/
theorem accounts_balance {number : Number} {fresh : Schedule} (h : create number = .ok fresh)
    (history : List Request) :
    let all := fresh.eventsAfter history
    let recent := Event.sinceReset all
    let s := fresh.after history
    s.counters.stores = recent.countP Event.isOffer ∧
      s.counters.evictions = recent.countP Event.isEviction ∧
      s.counters.recomputations = recent.count .recomputed ∧
      s.counters.evictions ≤ s.counters.stores ∧
      (∀ r, (s.perform r).2.counters ≠ s.counters →
        ∃ e ∈ s.events r, e.isOffer = true ∨ e = .recomputed ∨ e = .countersReset) ∧
      (s.size : Int) = all.countP Event.isOffer - all.countP Event.isDrop -
        all.countP Event.isEviction - all.countP Event.isRemoval -
        (all.map Event.slotsCleared).sum := by
  intro all recent s
  obtain ⟨_, hstores, hevictions, hrecomputations, hsize⟩ : Accounted all s :=
    recorded_accounted.after history (accounted_of_create h)
  have hle : recent.countP Event.isEviction ≤ recent.countP Event.isOffer := by
    refine List.countP_mono_left fun e _ he => ?_
    cases e <;> simp_all
  refine ⟨hstores, hevictions, hrecomputations, ?_, s.exists_event_of_counters_ne, ?_⟩
  · rw [hstores, hevictions]
    exact_mod_cast hle
  · omega

theorem accounts_balance_two :
    let history : List Request :=
      [.offer 0 true, .offerRange 1 6 2, .offer 3 false, .resetCounters, .countRecomputation,
        .offer 9 false, .remove 0, .erase 9, .reset]
    let s := (ofBudget 2).after history
    s.counters.stores = 1 ∧ s.counters.evictions = 1 ∧ s.counters.recomputations = 1 ∧
      (s.size : Int) = 5 - 0 - 2 - 1 - 1 := by
  intro history s
  have hevents : (ofBudget 2).eventsAfter history =
      [.offered 0 true .kept, .offered 1 false .kept, .offered 3 false .kept,
        .offered 5 false (.evicted 1), .countersReset, .recomputed,
        .offered 9 false (.evicted 3), .removed 9, .cleared 1] := by decide
  have hcreate : create (.whole 2) = .ok (ofBudget 2) := rfl
  obtain ⟨hstores, hevictions, hrecomputations, _, _, hsize⟩ := accounts_balance hcreate history
  rw [hevents] at hstores hevictions hrecomputations hsize
  exact ⟨hstores, hevictions, hrecomputations, hsize⟩

end ReverseSweep.Schedule
