import ReverseSweep.Bench
import ReverseSweep.Proofs.Schedule

/-! Schedule and store in lockstep. As long as the store can take the states, admissions and
releases keep them so: what is evicted is resident, and what is admitted is resident afterwards. -/

namespace ReverseSweep

namespace Store

variable {α : Type}

theorem settle_of_device_eq [Movable α] {s t : Store α} (h : s.device = t.device) (state : α) :
    s.settle state = t.settle state := by
  simp only [settle, h]

theorem holds_iff {s : Store α} {step : Int} : s.holds step = true ↔ step ∈ s.steps := by
  simp [holds, steps]

theorem exists_get_eq_ok {s : Store α} {step : Int} (h : step ∈ s.steps) :
    ∃ state, s.get step = .ok state ∧ (step, state) ∈ s.entries := by
  obtain ⟨entry, hm, he⟩ := List.mem_map.mp h
  cases hf : s.entries.find? (·.1 == step) with
  | none => simpa [he] using List.find?_eq_none.mp hf entry hm
  | some found =>
    have hs : found.1 = step := by simpa using List.find?_some hf
    refine ⟨found.2, by simp [get, get?, hf], ?_⟩
    rw [← hs]
    exact List.mem_of_find?_eq_some hf

/-- A step that is new on both sides is inserted at the same place. -/
theorem steps_insertEntry {entries : List (Int × α)} {slots : List Slot} {slot : Slot}
    (h : entries.map (·.1) = slots.map (·.step)) (hn : slot.step ∉ slots.map (·.step))
    (state : α) :
    (insertEntry slot.step state entries).map (·.1) = (slot.insert slots).map (·.step) := by
  induction slots generalizing entries with
  | nil =>
    obtain rfl : entries = [] := by simpa using h
    rfl
  | cons s rest ih =>
    cases entries with
    | nil => simp at h
    | cons entry entries =>
      obtain ⟨he, hr⟩ := List.cons.inj h
      have hne : slot.step ≠ s.step := fun hs => hn (by simp [hs])
      have hi := ih hr fun hm => hn (by simp [hm])
      dsimp only at he
      simp only [insertEntry, Slot.insert, he]
      -- one insertion asks for less, the other for at most; the step is new, so they agree
      by_cases hlt : slot.step < s.step
      · simp [hlt, Int.le_of_lt hlt, h]
      · simp [hlt, hne, show ¬ slot.step ≤ s.step by omega, hi, he]

theorem mem_insertEntry {entries : List (Int × α)} {step : Int} {state : α} {entry : Int × α}
    (h : entry ∈ insertEntry step state entries) : entry = (step, state) ∨ entry ∈ entries := by
  induction entries with
  | nil => simpa [insertEntry] using h
  | cons first rest ih =>
    simp only [insertEntry] at h
    split at h
    · simpa using h
    · split at h
      · rcases List.mem_cons.mp h with h | h
        · exact .inl h
        · exact .inr (List.mem_cons_of_mem _ h)
      · rcases List.mem_cons.mp h with h | h
        · exact .inr (by simp [h])
        · rcases ih h with h | h
          · exact .inl h
          · exact .inr (List.mem_cons_of_mem _ h)

theorem discard_of_mem {s : Store α} {step : Int} (h : step ∈ s.steps) :
    s.discard step =
      (true, ⟨s.device, s.entries.eraseP (·.1 == step), s.puts, s.discards + 1⟩) := by
  simp [discard, holds_iff.mpr h]

theorem steps_eraseP {entries : List (Int × α)} {slots : List Slot}
    (h : entries.map (·.1) = slots.map (·.step)) (step : Int) :
    (entries.eraseP (·.1 == step)).map (·.1) = (slots.eraseP (·.step == step)).map (·.step) := by
  have he := congrArg (List.eraseP (· == step)) h
  simpa [List.eraseP_map, Function.comp_def] using he

end Store

namespace Bench

variable {α : Type}

def Lockstep (b : Bench α) : Prop := b.store.steps = b.schedule.steps

theorem Lockstep.size_eq {b : Bench α} (h : b.Lockstep) : b.store.size = b.schedule.size := by
  have hlen := congrArg List.length h
  simpa [Store.steps, Schedule.steps, Schedule.size, Store.size] using hlen

theorem Lockstep.requireLockstep {b : Bench α} (h : b.Lockstep) :
    b.requireLockstep = .ok () := by
  have hall : b.store.steps.all b.schedule.holds = true := by
    rw [List.all_eq_true, h]
    exact fun step hs => Schedule.holds_iff.mpr hs
  simp [Bench.requireLockstep, inLockstep, hall, h.size_eq]

/-- What becomes of a bench that takes a state for a step. -/
structure Takes (b c : Bench α) (step : Int) (state : α) : Prop where
  lockstep : c.Lockstep
  mem_entries : ∀ entry ∈ c.store.entries, entry = (step, state) ∨ entry ∈ b.store.entries
  device : c.store.device = b.store.device
  puts : c.store.puts = b.store.puts + 1
  discards : (c.store.discards : Int) - c.schedule.counters.evictions =
    b.store.discards - b.schedule.counters.evictions
  journal : c.journal = b.journal

theorem takes_kept {b : Bench α} {s : Schedule} {step : Int} (hl : b.Lockstep)
    (hn : step ∉ b.schedule.steps) (hs : s.slots = Slot.insert ⟨step, false⟩ b.schedule.slots)
    (hc : s.counters = b.schedule.counters.count .kept) (state : α) :
    b.Takes ((b.withSchedule s).withStore (b.store.insert step state)) step state where
  lockstep := by
    change (Store.insertEntry step state b.store.entries).map (·.1) = s.slots.map (·.step)
    rw [hs]
    exact @Store.steps_insertEntry α _ _ ⟨step, false⟩ hl hn state
  mem_entries := fun _ => Store.mem_insertEntry
  device := rfl
  puts := rfl
  discards := by simp [withSchedule, withStore, Store.insert, hc, Counters.count]
  journal := rfl

theorem takes_evicted {b : Bench α} {s : Schedule} {step old : Int} (hl : b.Lockstep)
    (hn : step ∉ b.schedule.steps) (hm : old ∈ b.store.steps)
    (hs : s.slots = Slot.insert ⟨step, false⟩ (b.schedule.slots.eraseP (·.step == old)))
    (hc : s.counters = b.schedule.counters.count (.evicted old)) (state : α) :
    b.Takes ((b.withSchedule s).withStore ((b.store.discard old).2.insert step state)) step
      state := by
  rw [Store.discard_of_mem hm]
  refine ⟨?_, ?_, rfl, rfl, ?_, rfl⟩
  · change (Store.insertEntry step state (b.store.entries.eraseP (·.1 == old))).map (·.1) =
      s.slots.map (·.step)
    rw [hs]
    refine @Store.steps_insertEntry α _ _ ⟨step, false⟩ (Store.steps_eraseP hl old) ?_ state
    intro hmem
    obtain ⟨a, ha, he⟩ := List.mem_map.mp hmem
    exact hn (List.mem_map.mpr ⟨a, List.eraseP_subset ha, he⟩)
  · intro entry hmem
    rcases Store.mem_insertEntry hmem with h | h
    · exact .inl h
    · exact .inr (List.eraseP_subset h)
  · simp only [withSchedule, withStore, Store.insert, hc, Counters.count]
    omega

structure GivesUp (b c : Bench α) (slot : Slot) : Prop where
  lockstep : c.Lockstep
  schedule : c.schedule = (b.schedule.remove slot.step).2
  mem_entries : ∀ entry ∈ c.store.entries, entry ∈ b.store.entries
  device : c.store.device = b.store.device
  puts : c.store.puts = b.store.puts
  discards : c.store.discards = b.store.discards + (if slot.persistent then 0 else 1)
  journal : c.journal = b.journal

theorem exists_release_eq_ok {b : Bench α} (hl : b.Lockstep)
    (ha : Slot.Ascending b.schedule.slots) {slot : Slot} (hm : slot ∈ b.schedule.slots) :
    ∃ c, b.release slot.step = (.ok (), c) ∧ b.GivesUp c slot := by
  have hr := Schedule.remove_of_mem ha hm
  cases hp : slot.persistent with
  | true =>
    rw [hp, if_pos rfl] at hr
    have hb : b.release slot.step = (.ok (), b) := by
      simp only [release, hr]
      rfl
    exact ⟨b, hb, hl, by rw [hr], fun _ h => h, rfl, rfl, by simp [hp], rfl⟩
  | false =>
    rw [hp, if_neg Bool.false_ne_true] at hr
    have hmem : slot.step ∈ b.store.steps := by
      rw [hl]
      exact List.mem_map_of_mem hm
    let store : Store α := ⟨b.store.device, b.store.entries.eraseP (·.1 == slot.step),
      b.store.puts, b.store.discards + 1⟩
    have hb : b.release slot.step =
        (.ok (), (b.withSchedule (b.schedule.remove slot.step).2).withStore store) := by
      simp only [release, hr, Store.discard_of_mem hmem, store]
    refine ⟨_, hb, ?_, rfl, fun _ h => List.eraseP_subset h, rfl, rfl, ?_, rfl⟩
    · rw [hr]
      exact Store.steps_eraseP hl slot.step
    · simp [hp, withStore, store]

variable [Movable α]

theorem putOffered_of_settle {b : Bench α} {step : Int} {state kept : α}
    (h : b.store.settle state = .ok kept) :
    b.putOffered step state = (.ok true, b.withStore (b.store.insert step kept)) := by
  simp only [putOffered, put, Store.put, h, Except.map]

theorem keep_of_offer {b : Bench α} {s : Schedule} {step : Int} {state kept : α}
    {admission : Admission} (ho : b.schedule.offer step true = (.ok admission, s))
    (hk : b.store.settle state = .ok kept) :
    b.keep step state = (.ok (), (b.withSchedule s).withStore (b.store.insert step kept)) := by
  have hk' : (b.withSchedule s).store.settle state = .ok kept := hk
  simp only [keep, ho, put, Store.put, hk', Except.map]
  rfl

theorem offer_kept {b : Bench α} {s : Schedule} {step : Int} {state kept : α}
    (ho : b.schedule.offer step = (.ok .kept, s)) (hk : b.store.settle state = .ok kept) :
    b.offer step state =
      (.ok true, (b.withSchedule s).withStore (b.store.insert step kept)) := by
  have hk' : (b.withSchedule s).store.settle state = .ok kept := hk
  simp only [offer, ho, putOffered_of_settle hk']
  rfl

theorem offer_evicted {b : Bench α} {s : Schedule} {step old : Int} {state kept : α}
    (ho : b.schedule.offer step = (.ok (.evicted old), s)) (hm : old ∈ b.store.steps)
    (hk : b.store.settle state = .ok kept) :
    b.offer step state =
      (.ok true, (b.withSchedule s).withStore ((b.store.discard old).2.insert step kept)) := by
  have hk' : ((b.withSchedule s).withStore (b.store.discard old).2).store.settle state =
      .ok kept := by
    rw [Store.discard_of_mem hm, ← hk]
    exact Store.settle_of_device_eq rfl state
  rw [Store.discard_of_mem hm] at hk' ⊢
  simp only [offer, ho, Store.discard_of_mem hm, putOffered_of_settle hk']
  rfl

/-- What the schedule admits the bench can take: an evicted step is resident. -/
theorem exists_offer_eq_ok {b : Bench α} {s : Schedule} {step : Int} {state kept : α}
    {admission : Admission} (hl : b.Lockstep) (ha : Slot.Ascending b.schedule.slots)
    (ho : b.schedule.offer step = (.ok admission, s)) (hd : admission ≠ .dropped)
    (hk : b.store.settle state = .ok kept) :
    ∃ c, b.offer step state = (.ok true, c) ∧ c.schedule = s ∧ b.Takes c step kept := by
  obtain ⟨⟨_, _, hnew⟩, hadm, _, hcount⟩ := Schedule.offer_eq_ok ho
  generalize hsl : s.slots = slots at hadm
  cases hadm with
  | kept => exact ⟨_, offer_kept ho hk, rfl, takes_kept hl hnew hsl hcount kept⟩
  | evicted _ i hi hc =>
    have hmem : b.schedule.slots[i].step ∈ b.store.steps := by
      rw [hl]
      exact List.mem_map_of_mem (List.getElem_mem hi)
    rw [ha.eraseIdx_eq_eraseP hi] at hsl
    exact ⟨_, offer_evicted ho hmem hk, rfl, takes_evicted hl hnew hmem hsl hcount kept⟩
  | dropped => exact absurd rfl hd

end Bench
end ReverseSweep
