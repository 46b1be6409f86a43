import ReverseSweep.Proofs.Halving

/-! What is returned tells what has happened. An offer adds its slot, puts it in the place of
another one, or is dropped; a removal takes out just its step. -/

namespace ReverseSweep.Schedule

/-- The slot is held besides the others, and the number for no step is returned. -/
structure Grows (s t : Schedule) (slot : Slot) (returned : Int) : Prop where
  code : returned = noStep
  mem_iff : ∀ a, a ∈ t.slots ↔ a = slot ∨ a ∈ s.slots

/-- The slot is held in place of the one whose step is returned. -/
structure Replaces (s t : Schedule) (slot : Slot) (returned : Int) : Prop where
  code : returned ≠ noStep
  mem : ⟨returned, false⟩ ∈ s.slots
  ne : returned ≠ slot.step
  mem_iff : ∀ a, a ∈ t.slots ↔ a = slot ∨ a ∈ s.slots ∧ a.step ≠ returned
  size : t.size = s.size
  capacity : t.capacity = s.capacity

structure Drops (s t : Schedule) (returned : Int) : Prop where
  code : returned = noStep
  slots : t.slots = s.slots

/-- What a removal has made of a schedule. -/
structure Removes (s t : Schedule) (step : Int) (removal : Removal) : Prop where
  removed_iff : removal = .removed ↔ ⟨step, false⟩ ∈ s.slots
  persistent_iff : removal = .persistent ↔ ⟨step, true⟩ ∈ s.slots
  notHeld_iff : removal = .notHeld ↔ step ∉ s.steps
  unchanged : removal ≠ .removed → t = s
  mem_iff : removal = .removed → ∀ a, a ∈ t.slots ↔ a ∈ s.slots ∧ a.step ≠ step
  capacity : t.capacity = s.capacity
  counters : t.counters = s.counters

variable {s t : Schedule} {budget step returned : Int} {persistent : Bool} {slot : Slot}

theorem Grows.not_replaces (h : Grows s t slot returned) : ¬ Replaces s t slot returned :=
  fun hr => hr.code h.code

theorem Replaces.not_drops (h : Replaces s t slot returned) : ¬ Drops s t returned :=
  fun hd => h.code hd.code

theorem Grows.not_drops (h : Grows s t slot returned) (hnew : slot.step ∉ s.steps) :
    ¬ Drops s t returned := by
  intro hd
  have hm : slot ∈ s.slots := hd.slots ▸ (h.mem_iff slot).mpr (.inl rfl)
  exact hnew (List.mem_map_of_mem hm)

/-- The three outcomes of an offer that is not refused, each with its condition. -/
theorem Sound.outcome (h : s.Sound budget) {admission : Admission}
    (ho : s.offer step persistent = (.ok admission, t)) :
    step ∉ s.steps ∧
      ((persistent = true ∨ s.capacity.above s.size = true) ∧ ¬ (persistent = false ∧ budget = 0) ∧
          Grows s t ⟨step, persistent⟩ admission.code ∨
        ¬ (persistent = true ∨ s.capacity.above s.size = true) ∧
          ¬ (persistent = false ∧ budget = 0) ∧
          Replaces s t ⟨step, persistent⟩ admission.code ∨
        ¬ (persistent = true ∨ s.capacity.above s.size = true) ∧ (persistent = false ∧ budget = 0) ∧
          Drops s t admission.code) := by
  have hoffered := s.offered step persistent
  rw [ho] at hoffered
  cases hoffered with
  | admitted _ slots hnew ha =>
    refine ⟨hnew.2.2, ?_⟩
    have hle := h.countP_le
    cases ha with
    | kept hroom =>
      refine .inl ⟨?_, ?_, rfl, fun a => Slot.mem_insert_iff⟩
      · cases persistent with
        | false => exact .inr hroom
        | true => exact .inl rfl
      · rintro ⟨rfl, hb⟩
        have hlt := h.above_iff.mp hroom
        omega
    | evicted hf i hi hc =>
      obtain rfl := h.eq_false_of_full hf
      obtain ⟨_, hfree, _⟩ := Slot.candidate?_eq_some hc
      have hslot : (⟨s.slots[i].step, false⟩ : Slot) = s.slots[i] := by
        rw [← show s.slots[i].persistent = false from hfree]
      have hmem : s.slots[i] ∈ s.slots := List.getElem_mem hi
      have hpos : 0 < s.slots.countP (!·.persistent) :=
        List.countP_pos_iff.mpr ⟨_, hmem, by simpa using hfree⟩
      have hroom : s.capacity.above s.size = false := hf
      refine .inr (.inl ⟨by simp [hroom], by omega, (h.valid _ hmem).2, ?_, ?_, ?_, ?_, rfl⟩)
      · rw [Admission.code]
        exact hslot ▸ hmem
      · intro he
        have hstep : s.slots[i].step = step := he
        exact hnew.2.2 (hstep ▸ List.mem_map_of_mem hmem)
      · intro a
        rw [Slot.mem_insert_iff]
        exact or_congr_right (h.ascending.mem_eraseIdx_iff hi a)
      · have hlen := List.length_eraseIdx_of_lt hi
        have hlt : i < s.slots.length := hi
        simp only [size, Slot.length_insert] at hlen ⊢
        omega
    | dropped hf hp =>
      obtain rfl := h.eq_false_of_full hf
      have hroom : s.capacity.above s.size = false := hf
      have hnone : s.slots.countP (!·.persistent) = 0 := by
        rw [List.countP_eq_zero]
        intro a ha
        simp [hp a ha]
      -- no slot counts against the budget, and still there is no room
      have hzero : budget = 0 := by
        have hnot : ¬ ((s.slots.countP (!·.persistent) : Int) < budget) := by
          rw [← h.above_iff, hroom]
          simp
        have hnonneg := h.budget_nonneg
        omega
      exact .inr (.inr ⟨by simp [hroom], ⟨rfl, hzero⟩, rfl, rfl⟩)

theorem Sound.removes (h : s.Sound budget) (step : Int) :
    Removes s (s.remove step).2 step (s.remove step).1 := by
  have hone {a b : Slot} (ha : a ∈ s.slots) (hb : b ∈ s.slots) (he : a.step = b.step) : a = b :=
    h.ascending.eq_of_step_eq ha hb he
  have hr := s.removed step
  generalize s.remove step = result at hr
  cases hr with
  | notHeld hn =>
    have hnot (p : Bool) : (⟨step, p⟩ : Slot) ∉ s.slots := fun hm => hn (List.mem_map_of_mem hm)
    exact ⟨by simp [hnot], by simp [hnot], by simp [hn], fun _ => rfl, by simp, rfl, rfl⟩
  | persistent hm =>
    have hnot : (⟨step, false⟩ : Slot) ∉ s.slots := fun hm' => by simpa using hone hm hm' rfl
    have hheld : step ∈ s.steps := List.mem_map_of_mem hm
    exact ⟨by simp [hnot], by simp [hm], by simp [hheld], fun _ => rfl, by simp, rfl, rfl⟩
  | removed before after hslots =>
    have hm : (⟨step, false⟩ : Slot) ∈ s.slots := by simp [hslots]
    have hnot : (⟨step, true⟩ : Slot) ∉ s.slots := fun hm' => by simpa using hone hm hm' rfl
    have hheld : step ∈ s.steps := List.mem_map_of_mem hm
    refine ⟨by simp [hm], by simp [hnot], by simp [hheld], by simp, fun _ a => ?_, rfl, rfl⟩
    have hi : before.length < s.slots.length := by simp [hslots]
    have he := h.ascending.mem_eraseIdx_iff hi a
    simpa [hslots, List.eraseIdx_append_of_length_le] using he

theorem Sound.latest?_eq (h : s.Sound budget) : s.latest? = s.slots.getLast?.map (·.step) := by
  cases hl : s.slots.getLast? with
  | none => simp [latest?, steps, List.getLast?_eq_none_iff.mp hl]
  | some slot =>
    obtain ⟨before, hslots⟩ := List.getLast?_eq_some_iff.mp hl
    have ha := h.ascending
    rw [hslots, Slot.Ascending, List.pairwise_append] at ha
    have hlast : ∀ a ∈ s.steps, a ≤ slot.step := by
      rw [forall_mem_steps, hslots]
      intro a hm
      rcases List.mem_append.mp hm with hm | hm
      · exact Int.le_of_lt (ha.2.2 a hm slot (List.mem_singleton_self slot))
      · exact Int.le_of_eq (congrArg _ (List.mem_singleton.mp hm))
    exact latest?_eq_some_iff.mpr ⟨by simp [steps, hslots], hlast⟩

/-- An offer that is not refused comes to just one of three things, and what it returns tells which.
The step is held besides the others, just if it is persistent or there is room; or in the place of
a step that was held and not persistent; or not at all, just if there is no budget for it. A removal
says whether its step was held and took it away unless it is persistent. What a search by halving
finds, and where it puts and removes a slot, is what these operations find, put and remove. -/
theorem Reachable.answers_tell_changes (h : s.Reachable budget) :
    (∀ step persistent admission t, s.offer step persistent = (.ok admission, t) →
      (Grows s t ⟨step, persistent⟩ admission.code ↔
        persistent = true ∨ s.capacity.above s.size = true) ∧
      (Drops s t admission.code ↔ persistent = false ∧ budget = 0) ∧
      (Replaces s t ⟨step, persistent⟩ admission.code ↔
        ¬ Grows s t ⟨step, persistent⟩ admission.code ∧ ¬ Drops s t admission.code) ∧
      ¬ (Grows s t ⟨step, persistent⟩ admission.code ∧ Drops s t admission.code)) ∧
    (∀ step, Removes s (s.remove step).2 step (s.remove step).1 ∧
      s.erase step = (decide ((s.remove step).1 = .removed), (s.remove step).2)) ∧
    (∀ a, a ∈ s.reset.slots ↔ a ∈ s.slots ∧ a.persistent = true) ∧
    (∀ step, s.holds step = true ↔ step ∈ s.steps) ∧
    s.latest? = s.slots.getLast?.map (·.step) ∧
    (∀ step, s.holds step = (s.index? step).isSome ∧ s.remove step = s.removeAt (s.index? step)) ∧
    ∀ slot : Slot, slot.insert s.slots = s.slots.insertIdx (Slot.place slot.step s.slots) slot := by
  have hsound := h.sound
  have hascending := hsound.ascending
  refine ⟨?_, fun step => ⟨hsound.removes step, ?_⟩, fun a => List.mem_filter,
    fun step => holds_iff, hsound.latest?_eq, fun step => ⟨holds_eq_isSome_index? hascending step,
      remove_eq_removeAt hascending step⟩, hascending.insert_eq_insertIdx_place⟩
  · intro step persistent admission t ho
    obtain ⟨hnew, ⟨hc, hb, hg⟩ | ⟨hc, hb, hr⟩ | ⟨hc, hb, hd⟩⟩ := hsound.outcome ho
    · have hnd := hg.not_drops hnew
      exact ⟨iff_of_true hg hc, iff_of_false hnd hb,
        iff_of_false hg.not_replaces fun hn => hn.1 hg, fun hgd => hnd hgd.2⟩
    · have hng : ¬ Grows s t ⟨step, persistent⟩ admission.code := fun hg => hg.not_replaces hr
      exact ⟨iff_of_false hng hc, iff_of_false hr.not_drops hb,
        iff_of_true hr ⟨hng, hr.not_drops⟩, fun hgd => hng hgd.1⟩
    · have hng : ¬ Grows s t ⟨step, persistent⟩ admission.code := fun hg => hg.not_drops hnew hd
      exact ⟨iff_of_false hng hc, iff_of_true hd hb,
        iff_of_false (fun hr => hr.not_drops hd) fun hn => hn.2 hd, fun hgd => hng hgd.1⟩
  · rw [erase]
    rcases s.remove step with ⟨removal, t⟩
    cases removal <;> rfl

theorem answers_tell_changes_one :
    let s := (ofBudget 1).after [.offer 6 true, .offer 4 false, .offer 6 false]
    ∃ t, s.offer 2 = (.ok (.evicted 4), t) ∧ Replaces s t ⟨2, false⟩ 4 ∧
      (s.remove 6).1 = .persistent ∧ s.index? 6 = some 1 ∧ s.holds 6 = true := by
  intro s
  have hreach : s.Reachable 1 := ⟨.whole 1, ofBudget 1, _, rfl, rfl, rfl⟩
  obtain ⟨hoffer, hremove, _, _, _, hhalving, _⟩ := hreach.answers_tell_changes
  have hslots : s.slots = [⟨4, false⟩, ⟨6, true⟩] := rfl
  have hindex : s.index? 6 = some 1 :=
    (index?_eq_some_iff hreach.sound.ascending).mpr ⟨⟨6, true⟩, rfl, rfl⟩
  have hheld : s.holds 6 = true := by
    rw [(hhalving 6).1, hindex]
    rfl
  have ho : s.offer 2 =
      (.ok (.evicted 4), ⟨[⟨2, false⟩, ⟨6, true⟩], .whole 2, ⟨3, 1, 0⟩⟩) := rfl
  obtain ⟨hgrows, hdrops, hreplaces, _⟩ := hoffer 2 false _ _ ho
  have hng := mt hgrows.mp (by decide)
  have hnd := mt hdrops.mp (by decide)
  exact ⟨_, ho, hreplaces.mpr ⟨hng, hnd⟩, (hremove 6).1.persistent_iff.mpr (by simp [hslots]),
    hindex, hheld⟩

end ReverseSweep.Schedule
