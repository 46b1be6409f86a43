import ReverseSweep.Proofs.Histories

/-! Search by halving. In ascending slots it finds the place that a search from the front finds, so
that steps can be looked up, put in and taken out at that place. -/

namespace ReverseSweep

namespace Slot

/-- The first place from `lo` on whose slot is not below the step, `hi` if there is none before. -/
def placeBetween (step : Int) (slots : List Slot) (lo hi : Nat) : Nat :=
  if lo < hi then
    if (slots[(lo + hi) / 2]?).any (·.step < step) then
      placeBetween step slots ((lo + hi) / 2 + 1) hi
    else placeBetween step slots lo ((lo + hi) / 2)
  else lo
termination_by hi - lo

def place (step : Int) (slots : List Slot) : Nat := placeBetween step slots 0 slots.length

variable {slots : List Slot} {step : Int}

theorem Ascending.lt_of_mem_take (h : Ascending slots) {m : Nat} (hm : m < slots.length)
    (hlt : slots[m].step < step) : ∀ s ∈ slots.take (m + 1), s.step < step := by
  intro s hs
  obtain ⟨j, hj, rfl⟩ := List.mem_take_iff_getElem.mp hs
  by_cases he : j = m
  · simpa [he] using hlt
  · have := List.pairwise_iff_getElem.mp h j m (by omega) hm (by omega)
    omega

theorem Ascending.le_of_mem_drop (h : Ascending slots) {m : Nat} (hm : m < slots.length)
    (hle : step ≤ slots[m].step) : ∀ s ∈ slots.drop m, step ≤ s.step := by
  intro s hs
  obtain ⟨j, hj, rfl⟩ := List.mem_drop_iff_getElem.mp hs
  by_cases he : j = 0
  · simpa [he] using hle
  · have := List.pairwise_iff_getElem.mp h m (m + j) hm (by omega) (by omega)
    omega

theorem Ascending.split_placeBetween (h : Ascending slots) (lo hi : Nat) (hle : lo ≤ hi)
    (hhi : hi ≤ slots.length) (hbelow : ∀ s ∈ slots.take lo, s.step < step)
    (habove : ∀ s ∈ slots.drop hi, step ≤ s.step) :
    placeBetween step slots lo hi ≤ hi ∧
      (∀ s ∈ slots.take (placeBetween step slots lo hi), s.step < step) ∧
      ∀ s ∈ slots.drop (placeBetween step slots lo hi), step ≤ s.step := by
  -- each look moves one bound, and all beyond it are on its side of the step
  fun_induction placeBetween step slots lo hi with
  | case1 lo hi hlt hany ih =>
    have hm : (lo + hi) / 2 < slots.length := by omega
    have hstep : slots[(lo + hi) / 2].step < step := by simpa [hm] using hany
    exact ih (by omega) hhi (h.lt_of_mem_take hm hstep) habove
  | case2 lo hi hlt hany ih =>
    have hm : (lo + hi) / 2 < slots.length := by omega
    have hstep : step ≤ slots[(lo + hi) / 2].step := by simpa [hm] using hany
    obtain ⟨hp, hsplit⟩ := ih (by omega) (by omega) hbelow (h.le_of_mem_drop hm hstep)
    exact ⟨by omega, hsplit⟩
  | case3 lo hi hlt =>
    obtain rfl : lo = hi := by omega
    exact ⟨Nat.le_refl _, hbelow, habove⟩

theorem Ascending.split_place (h : Ascending slots) (step : Int) :
    place step slots ≤ slots.length ∧ (∀ s ∈ slots.take (place step slots), s.step < step) ∧
      ∀ s ∈ slots.drop (place step slots), step ≤ s.step :=
  h.split_placeBetween 0 slots.length (Nat.zero_le _) (Nat.le_refl _) (by simp) (by simp)

theorem insert_eq_insertIdx {slot : Slot} {p : Nat} (hp : p ≤ slots.length)
    (hbelow : ∀ s ∈ slots.take p, s.step < slot.step)
    (habove : ∀ s ∈ slots.drop p, slot.step ≤ s.step) :
    slot.insert slots = slots.insertIdx p slot := by
  induction slots generalizing p with
  | nil =>
    obtain rfl : p = 0 := by simpa using hp
    rfl
  | cons a rest ih =>
    cases p with
    | zero => simp [insert, habove a (by simp)]
    | succ p =>
      have ha := hbelow a (by simp)
      have hi := ih (by simpa using hp) (fun s hs => hbelow s (by simp [hs]))
        fun s hs => habove s (by simpa using hs)
      simp [insert, hi, show ¬ slot.step ≤ a.step by omega]

theorem Ascending.insert_eq_insertIdx_place (h : Ascending slots) (slot : Slot) :
    slot.insert slots = slots.insertIdx (place slot.step slots) slot := by
  obtain ⟨hp, hbelow, habove⟩ := h.split_place slot.step
  exact insert_eq_insertIdx hp hbelow habove

/-- A held step stands where the search ends. -/
theorem Ascending.place_eq (h : Ascending slots) {i : Nat} (hi : i < slots.length)
    (he : slots[i].step = step) : place step slots = i := by
  obtain ⟨_, hbelow, habove⟩ := h.split_place step
  apply Nat.le_antisymm
  · by_contra hlt
    have := hbelow slots[i] (List.mem_take_iff_getElem.mpr ⟨i, by omega, rfl⟩)
    omega
  · by_contra hlt
    have hp : place step slots < slots.length := by omega
    have hge := habove slots[place step slots]
      (List.mem_drop_iff_getElem.mpr ⟨0, by omega, by simp⟩)
    have := List.pairwise_iff_getElem.mp h _ i hp hi (by omega)
    omega

end Slot

namespace Schedule

variable {s : Schedule} {step : Int} {i : Nat}

/-- The place of a held step, looked up by halving. -/
def index? (s : Schedule) (step : Int) : Option Nat :=
  if (s.slots[Slot.place step s.slots]?).any (·.step == step) then some (Slot.place step s.slots)
  else none

theorem index?_eq_some_iff (h : Slot.Ascending s.slots) :
    s.index? step = some i ↔ ∃ slot, s.slots[i]? = some slot ∧ slot.step = step := by
  constructor
  · intro hi
    unfold index? at hi
    split at hi
    · rename_i hany
      obtain rfl := Option.some.inj hi
      simpa [Option.any_eq_true] using hany
    · cases hi
  · rintro ⟨slot, hslot, he⟩
    obtain ⟨hi, rfl⟩ := List.getElem?_eq_some_iff.mp hslot
    simp [index?, h.place_eq hi he, hi, he]

theorem index?_eq_none_iff (h : Slot.Ascending s.slots) :
    s.index? step = none ↔ step ∉ s.steps := by
  rw [Option.eq_none_iff_forall_ne_some]
  constructor
  · intro hn hm
    obtain ⟨slot, hslot, he⟩ := List.mem_map.mp hm
    obtain ⟨i, hi⟩ := List.mem_iff_getElem?.mp hslot
    exact hn i ((index?_eq_some_iff h).mpr ⟨slot, hi, he⟩)
  · intro hn i hi
    obtain ⟨slot, hslot, he⟩ := (index?_eq_some_iff h).mp hi
    exact hn (he ▸ List.mem_map_of_mem (List.mem_of_getElem? hslot))

theorem holds_eq_isSome_index? (h : Slot.Ascending s.slots) (step : Int) :
    s.holds step = (s.index? step).isSome := by
  cases hi : s.index? step with
  | none => exact holds_eq_false_iff.mpr ((index?_eq_none_iff h).mp hi)
  | some i =>
    obtain ⟨slot, hslot, he⟩ := (index?_eq_some_iff h).mp hi
    exact holds_iff.mpr (he ▸ List.mem_map_of_mem (List.mem_of_getElem? hslot))

/-- What a removal does at the place that it has looked up. -/
def removeAt (s : Schedule) : Option Nat → Removal × Schedule
  | none => (.notHeld, s)
  | some i =>
    if (s.slots[i]?).any (·.persistent) then (.persistent, s)
    else (.removed, ⟨s.slots.eraseIdx i, s.capacity, s.counters⟩)

theorem remove_eq_removeAt (h : Slot.Ascending s.slots) (step : Int) :
    s.remove step = s.removeAt (s.index? step) := by
  cases hi : s.index? step with
  | none => exact remove_of_notMem ((index?_eq_none_iff h).mp hi)
  | some i =>
    obtain ⟨slot, hslot, rfl⟩ := (index?_eq_some_iff h).mp hi
    obtain ⟨hlt, rfl⟩ := List.getElem?_eq_some_iff.mp hslot
    rw [remove_of_mem h (List.getElem_mem hlt), removeAt, ← h.eraseIdx_eq_eraseP hlt]
    simp [hslot]

end Schedule
end ReverseSweep
