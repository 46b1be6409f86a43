import ReverseSweep.Schedule.Basic
import ReverseSweep.Proofs.Eviction
import ReverseSweep.Proofs.Slots

/-! What an admission and a removal make of a schedule: the slots change by at most one on either
side, and a step is evicted for each admission that finds no room. -/

namespace ReverseSweep

namespace Counters

@[simp] theorem count_stores (c : Counters) (a : Admission) :
    (c.count a).stores = c.stores + 1 := by
  cases a <;> rfl

@[simp] theorem count_recomputations (c : Counters) (a : Admission) :
    (c.count a).recomputations = c.recomputations := by
  cases a <;> rfl

theorem evictions_le_count (c : Counters) (a : Admission) :
    c.evictions ≤ (c.count a).evictions := by
  cases a <;> dsimp only [count] <;> omega

end Counters

namespace Schedule

theorem holds_iff {s : Schedule} {step : Int} : s.holds step = true ↔ step ∈ s.steps := by
  simp [holds, steps]

theorem holds_eq_false_iff {s : Schedule} {step : Int} :
    s.holds step = false ↔ step ∉ s.steps := by
  rw [← holds_iff, Bool.not_eq_true]

theorem latest?_eq_some_iff {s : Schedule} {step : Int} :
    s.latest? = some step ↔ step ∈ s.steps ∧ ∀ a ∈ s.steps, a ≤ step :=
  List.max?_eq_some_iff

theorem forall_mem_steps {s : Schedule} {p : Int → Prop} :
    (∀ a ∈ s.steps, p a) ↔ ∀ t ∈ s.slots, p t.step := by
  simp [steps]

/-- The slots after an admission: one more, one in place of another, or the same as before. -/
inductive Admits (s : Schedule) (slot : Slot) : Admission → List Slot → Prop
  | kept (h : s.capacity.above s.size = true) : Admits s slot .kept (slot.insert s.slots)
  | evicted (h : s.capacity.above s.size = false) (i : Nat) (hi : i < s.slots.length)
      (hc : Slot.candidate? slot.step s.slots = some i) :
      Admits s slot (.evicted s.slots[i].step) (slot.insert (s.slots.eraseIdx i))
  | dropped (h : s.capacity.above s.size = false) (hp : ∀ t ∈ s.slots, t.persistent = true) :
      Admits s slot .dropped s.slots

theorem admits_place (s : Schedule) (slot : Slot) :
    s.Admits slot (s.place slot).1 (s.place slot).2 := by
  unfold place
  split
  · exact .kept ‹_›
  · rename_i hfull
    have hf : s.capacity.above s.size = false := Bool.eq_false_iff.mpr hfull
    split
    · rename_i step rest he
      obtain ⟨i, hi, hc, rfl, rfl⟩ := Slot.evict?_eq_some he
      exact .evicted hf i hi hc
    · rename_i he
      exact .dropped hf (Slot.evict?_eq_none_iff.mp he)

/-- A slot more is a slot held or one evicted. -/
theorem Admits.length_add_evictions {s : Schedule} {slot : Slot} {admission : Admission}
    {slots : List Slot} (h : s.Admits slot admission slots) (hd : admission ≠ .dropped) :
    slots.length + (s.counters.count admission).evictions =
      s.slots.length + s.counters.evictions + 1 := by
  cases h with
  | kept =>
    simp only [Slot.length_insert, Counters.count]
    omega
  | evicted _ i hi =>
    have hlen := List.length_eraseIdx_of_lt hi
    simp only [Slot.length_insert, Counters.count]
    omega
  | dropped => exact absurd rfl hd

theorem Admits.eq_or_mem_slots {s : Schedule} {slot a : Slot} {admission : Admission}
    {slots : List Slot} (h : s.Admits slot admission slots) (ha : a ∈ slots) :
    a = slot ∨ a ∈ s.slots := by
  cases h with
  | kept => exact Slot.mem_insert_iff.mp ha
  | evicted _ i =>
    exact (Slot.mem_insert_iff.mp ha).imp_right fun hm => (List.eraseIdx_sublist _ _).subset hm
  | dropped => exact .inr ha

theorem Admits.ascending {s : Schedule} {slot : Slot} {admission : Admission} {slots : List Slot}
    (h : s.Admits slot admission slots) (ha : Slot.Ascending s.slots) (hn : slot.step ∉ s.steps) :
    Slot.Ascending slots := by
  have hne : ∀ t ∈ s.slots, t.step ≠ slot.step :=
    fun t ht he => hn (he ▸ List.mem_map_of_mem ht)
  cases h with
  | kept => exact ha.insert hne
  | evicted _ i =>
    have hrest := s.slots.eraseIdx_sublist i
    exact (ha.sublist hrest).insert fun t ht => hne t (hrest.subset ht)
  | dropped => exact ha

/-- An accepted step was valid and not held, and it was placed and counted. -/
theorem offer_eq_ok {s t : Schedule} {step : Int} {admission : Admission}
    (h : s.offer step = (.ok admission, t)) :
    (0 ≤ step ∧ step ≠ noStep ∧ step ∉ s.steps) ∧ s.Admits ⟨step, false⟩ admission t.slots ∧
      t.capacity = s.capacity ∧ t.counters = s.counters.count admission := by
  unfold offer at h
  split at h
  · cases h
  · rename_i hv
    split at h
    · cases h
    · rename_i hh
      have hn : step ∉ s.steps := holds_eq_false_iff.mp (Bool.eq_false_iff.mpr hh)
      cases h
      exact ⟨⟨by omega, fun he => hv (.inr he), hn⟩, admits_place s _, rfl, rfl⟩

theorem exists_offer_eq_ok {s : Schedule} {step : Int} (h0 : 0 ≤ step) (hn : step ≠ noStep)
    (hh : step ∉ s.steps) : ∃ admission t, s.offer step = (.ok admission, t) := by
  have hv : ¬ (step < 0 ∨ step = noStep) := by omega
  refine ⟨(s.store ⟨step, false⟩).1, (s.store ⟨step, false⟩).2, ?_⟩
  simp [offer, hv, holds_eq_false_iff.mpr hh]

theorem offer_noStep (s : Schedule) (persistent : Bool) :
    s.offer noStep persistent = (.error (.invalidStep noStep), s) := by
  simp [offer]

theorem remove_of_notMem {s : Schedule} {step : Int} (h : step ∉ s.steps) :
    s.remove step = (.notHeld, s) := by
  have hfind : s.slots.find? (·.step == step) = none := by
    rw [List.find?_eq_none]
    exact fun slot hm he => h (eq_of_beq he ▸ List.mem_map_of_mem hm)
  rw [remove, hfind]

theorem remove_of_mem {s : Schedule} (h : Slot.Ascending s.slots) {slot : Slot}
    (hm : slot ∈ s.slots) :
    s.remove slot.step =
      if slot.persistent then (.persistent, s)
      else (.removed, ⟨s.slots.eraseP (·.step == slot.step), s.capacity, s.counters⟩) := by
  have hf : s.slots.find? (·.step == slot.step) = some slot := by
    cases hf : s.slots.find? (·.step == slot.step) with
    | none => simpa using List.find?_eq_none.mp hf slot hm
    | some a =>
      have ha : a.step = slot.step := by simpa using List.find?_some hf
      rw [h.eq_of_step_eq (List.mem_of_find?_eq_some hf) hm ha]
  simp [remove, hf]

end Schedule
end ReverseSweep
