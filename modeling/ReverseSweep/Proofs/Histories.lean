import Mathlib.Data.List.Perm.Basic
import ReverseSweep.Proofs.Schedule
import ReverseSweep.Schedule.Request

/-! Schedules after any history of requests, refused ones among them. The slots stay in order, the
budget is kept beside the persistent slots, and a persistent slot is never lost. -/

namespace ReverseSweep

theorem Slot.perm_insert (slot : Slot) (slots : List Slot) :
    (slot.insert slots).Perm (slot :: slots) := by
  induction slots with
  | nil => exact .refl _
  | cons a rest ih =>
    simp only [insert]
    split
    · exact .refl _
    · exact (ih.cons a).trans (.swap slot a rest)

theorem Number.whole?_succ {n : Number} {m : Int} (h : n.whole? = some m) :
    n.succ.whole? = some (m + 1) := by
  cases n <;> simp_all [whole?, succ]

theorem Number.above_iff {n : Number} {m : Int} (h : n.whole? = some m) (k : Int) :
    n.above k = true ↔ k < m := by
  cases n <;> simp_all [whole?, above]

theorem Number.atMost_iff {n : Number} {m : Int} (h : n.whole? = some m) (k : Int) :
    n.atMost k = true ↔ m ≤ k := by
  cases n <;> simp_all [whole?, atMost]

theorem Number.below_iff {n : Number} {m : Int} (h : n.whole? = some m) (k : Int) :
    n.below k = true ↔ m < k := by
  cases n <;> simp_all [whole?, below]

namespace Schedule

variable {s t : Schedule} {budget step : Int} {persistent : Bool}

/-- The capacity for an offered step, which brings its own room if it is persistent. -/
def roomFor (s : Schedule) (persistent : Bool) : Number :=
  if persistent then s.capacity.succ else s.capacity

@[simp] theorem roomFor_false (s : Schedule) : s.roomFor false = s.capacity := rfl

@[simp] theorem roomFor_true (s : Schedule) : s.roomFor true = s.capacity.succ := rfl

/-- All that an offer can come to. -/
inductive Offered (s : Schedule) (step : Int) (persistent : Bool) :
    Except Fault Admission × Schedule → Prop
  | invalid (h : step < 0 ∨ step = noStep) :
      Offered s step persistent (.error (.invalidStep step), s)
  | held (h : step ∈ s.steps) : Offered s step persistent (.error (.alreadyHeld step), s)
  | overfull (hp : persistent = true) (h : s.capacity.succ.atMost s.size = true) :
      Offered s step persistent (.error (.overfull s.size s.capacity.succ),
        ⟨s.slots, s.capacity.succ, s.counters⟩)
  | admitted (admission : Admission) (slots : List Slot)
      (hnew : 0 ≤ step ∧ step ≠ noStep ∧ step ∉ s.steps)
      (h : Admits ⟨s.slots, s.roomFor persistent, s.counters⟩ ⟨step, persistent⟩ admission slots) :
      Offered s step persistent
        (.ok admission, ⟨slots, s.roomFor persistent, s.counters.count admission⟩)

theorem offered (s : Schedule) (step : Int) (persistent : Bool) :
    s.Offered step persistent (s.offer step persistent) := by
  unfold offer
  by_cases hv : step < 0 ∨ step = noStep
  · rw [if_pos hv]
    exact .invalid hv
  rw [if_neg hv]
  by_cases hh : s.holds step = true
  · rw [if_pos hh]
    exact .held (holds_iff.mp hh)
  rw [if_neg hh]
  have hnew : 0 ≤ step ∧ step ≠ noStep ∧ step ∉ s.steps :=
    ⟨by omega, fun he => hv (.inr he), fun hm => hh (holds_iff.mpr hm)⟩
  cases persistent with
  | false => exact .admitted _ _ hnew (admits_place s _)
  | true =>
    rw [if_pos rfl]
    dsimp only
    split
    · exact .overfull rfl ‹_›
    · exact .admitted _ _ hnew (admits_place ⟨s.slots, s.capacity.succ, s.counters⟩ _)

/-- All that a removal can come to. -/
inductive Removed (s : Schedule) (step : Int) : Removal × Schedule → Prop
  | notHeld (h : step ∉ s.steps) : Removed s step (.notHeld, s)
  | persistent (h : ⟨step, true⟩ ∈ s.slots) : Removed s step (.persistent, s)
  | removed (before after : List Slot) (h : s.slots = before ++ ⟨step, false⟩ :: after) :
      Removed s step (.removed, ⟨before ++ after, s.capacity, s.counters⟩)

theorem removed (s : Schedule) (step : Int) : s.Removed step (s.remove step) := by
  unfold remove
  cases hf : s.slots.find? (·.step == step) with
  | none =>
    refine .notHeld fun hm => ?_
    obtain ⟨slot, hslot, he⟩ := List.mem_map.mp hm
    simpa [he] using List.find?_eq_none.mp hf slot hslot
  | some slot =>
    obtain ⟨he, before, after, hslots, hbefore⟩ := List.find?_eq_some_iff_append.mp hf
    obtain ⟨a, p⟩ := slot
    obtain rfl : a = step := by simpa using he
    cases p with
    | true => exact .persistent (by simp [hslots])
    | false =>
      have hrest : s.slots.eraseP (·.step == a) = before ++ after := by
        rw [hslots, List.eraseP_append_right _ (by simpa using hbefore)]
        simp
      dsimp only
      rw [if_neg Bool.false_ne_true, hrest]
      exact .removed before after hslots

/-- A property that no request takes away. -/
structure Lasting (P : Schedule → Prop) : Prop where
  offer : ∀ s step persistent, P s → P (s.offer step persistent).2
  remove : ∀ s step, P s → P (s.remove step).2
  reset : ∀ s, P s → P s.reset
  counters : ∀ s counters, P s → P ⟨s.slots, s.capacity, counters⟩

namespace Lasting

variable {P : Schedule → Prop}

theorem offerEach (h : Lasting P) (steps : List Int) (hs : P s) : P (s.offerEach steps).2 := by
  induction steps generalizing s with
  | nil => exact hs
  | cons step steps ih =>
    have ht := h.offer s step false hs
    simp only [Schedule.offerEach]
    generalize s.offer step = result at ht
    obtain ⟨_ | admission, t⟩ := result
    · exact ht
    · have hrest := ih ht
      dsimp only
      generalize t.offerEach steps = result at hrest
      obtain ⟨_ | admissions, u⟩ := result
      · exact hrest
      · exact hrest

theorem perform (h : Lasting P) (r : Request) (hs : P s) : P (s.perform r).2 := by
  cases r with
  | offer step persistent => exact h.offer s step persistent hs
  | offerRange first stop stride =>
    simp only [Schedule.perform]
    split
    · exact hs
    · exact h.offerEach _ hs
  | remove step => exact h.remove s step hs
  | erase step => exact h.remove s step hs
  | reset => exact h.reset s hs
  | countRecomputation => exact h.counters s _ hs
  | resetCounters => exact h.counters s _ hs
  | _ => exact hs

theorem after (h : Lasting P) (history : List Request) (hs : P s) : P (s.after history) := by
  induction history generalizing s with
  | nil => exact hs
  | cons r history ih => exact ih (h.perform r hs)

end Lasting

theorem after_append (s : Schedule) (history later : List Request) :
    s.after (history ++ later) = (s.after history).after later := List.foldl_append

theorem mem_offer_of_persistent {slot : Slot} (hp : slot.persistent = true) (hm : slot ∈ s.slots)
    (step : Int) (persistent : Bool) : slot ∈ (s.offer step persistent).2.slots := by
  have h := s.offered step persistent
  generalize s.offer step persistent = result at h
  cases h with
  | invalid => exact hm
  | held => exact hm
  | overfull => exact hm
  | admitted admission slots hnew h =>
    dsimp only
    cases h with
    | kept => exact Slot.mem_insert_iff.mpr (.inr hm)
    | evicted _ i hi hc =>
      obtain ⟨_, hfree, _⟩ := Slot.candidate?_eq_some hc
      obtain ⟨j, hj, rfl⟩ := List.mem_iff_getElem.mp hm
      -- the slot that goes is another one, as it is not persistent
      have hne : j ≠ i := by
        rintro rfl
        simp_all
      exact Slot.mem_insert_iff.mpr (.inr (List.mem_eraseIdx_iff_getElem.mpr ⟨j, hj, hne, rfl⟩))
    | dropped => exact hm

theorem mem_remove_of_persistent {slot : Slot} (hp : slot.persistent = true) (hm : slot ∈ s.slots)
    (step : Int) : slot ∈ (s.remove step).2.slots := by
  have h := s.removed step
  generalize s.remove step = result at h
  cases h with
  | notHeld => exact hm
  | persistent => exact hm
  | removed before after h =>
    have hne : slot ≠ ⟨step, false⟩ := by
      rintro rfl
      simp at hp
    simpa [h, hne] using hm

theorem lasting_mem {slot : Slot} (hp : slot.persistent = true) :
    Lasting fun s => slot ∈ s.slots where
  offer := fun _ step persistent hm => mem_offer_of_persistent hp hm step persistent
  remove := fun _ step hm => mem_remove_of_persistent hp hm step
  reset := fun _ hm => List.mem_filter.mpr ⟨hm, hp⟩
  counters := fun _ _ hm => hm

theorem lasting_ascending : Lasting fun s => Slot.Ascending s.slots where
  offer := by
    intro s step persistent ha
    have h := s.offered step persistent
    generalize s.offer step persistent = result at h
    cases h with
    | invalid => exact ha
    | held => exact ha
    | overfull => exact ha
    | admitted admission slots hnew h => exact h.ascending ha hnew.2.2
  remove := by
    intro s step ha
    have h := s.removed step
    generalize s.remove step = result at h
    cases h with
    | notHeld => exact ha
    | persistent => exact ha
    | removed before after h =>
      rw [h] at ha
      exact ha.sublist ((List.sublist_cons_self _ _).append_left before)
  reset := fun _ ha => ha.sublist List.filter_sublist
  counters := fun _ _ ha => ha

/-- What is true of a schedule at any time: its slots are valid and in order, its capacity is the
budget besides the persistent slots, and the others stay within the budget. -/
structure Sound (budget : Int) (s : Schedule) : Prop where
  ascending : Slot.Ascending s.slots
  valid : ∀ slot ∈ s.slots, 0 ≤ slot.step ∧ slot.step ≠ noStep
  capacity : s.capacity.whole? = some (budget + s.slots.countP (·.persistent))
  countP_le : (s.slots.countP (!·.persistent) : Int) ≤ budget

namespace Sound

theorem size_eq (s : Schedule) :
    s.size = s.slots.countP (·.persistent) + s.slots.countP (!·.persistent) := by
  simpa [size] using s.slots.length_eq_countP_add_countP (·.persistent)

theorem size_le (h : s.Sound budget) :
    (s.size : Int) ≤ budget + s.slots.countP (·.persistent) := by
  have hsize := size_eq s
  have hle := h.countP_le
  omega

theorem budget_nonneg (h : s.Sound budget) : 0 ≤ budget := by
  have hle := h.countP_le
  omega

theorem above_iff (h : s.Sound budget) :
    s.capacity.above s.size = true ↔ (s.slots.countP (!·.persistent) : Int) < budget := by
  have hsize := size_eq s
  rw [Number.above_iff h.capacity]
  omega

/-- A persistent step finds room, as it has raised the capacity. -/
theorem above_roomFor (h : s.Sound budget) : (s.roomFor true).above s.size = true := by
  have hsize := h.size_le
  rw [roomFor_true, Number.above_iff (Number.whole?_succ h.capacity)]
  omega

theorem eq_false_of_full (h : s.Sound budget)
    (hf : (s.roomFor persistent).above s.size = false) : persistent = false := by
  cases persistent with
  | false => rfl
  | true => cases h.above_roomFor.symm.trans hf

theorem not_overfull (h : s.Sound budget) : s.capacity.succ.atMost s.size = false := by
  have hsize := h.size_le
  rw [← Bool.not_eq_true, Number.atMost_iff (Number.whole?_succ h.capacity)]
  omega

theorem admits (h : s.Sound budget) (hnew : 0 ≤ step ∧ step ≠ noStep ∧ step ∉ s.steps)
    {admission : Admission} {slots : List Slot} (counters : Counters)
    (ha : Admits ⟨s.slots, s.roomFor persistent, s.counters⟩ ⟨step, persistent⟩ admission slots) :
    Sound budget ⟨slots, s.roomFor persistent, counters⟩ := by
  have hascending := ha.ascending h.ascending hnew.2.2
  have hle := h.countP_le
  cases ha with
  | kept hroom =>
    have hvalid : ∀ slot ∈ Slot.insert ⟨step, persistent⟩ s.slots,
        0 ≤ slot.step ∧ slot.step ≠ noStep := by
      intro slot hm
      rcases Slot.mem_insert_iff.mp hm with rfl | hm
      · exact ⟨hnew.1, hnew.2.1⟩
      · exact h.valid slot hm
    have hperm := Slot.perm_insert ⟨step, persistent⟩ s.slots
    cases persistent with
    | false =>
      have hfree := h.above_iff.mp hroom
      refine ⟨hascending, hvalid, ?_, ?_⟩
      · simpa [hperm.countP_eq] using h.capacity
      · simp only [hperm.countP_eq, List.countP_cons]
        simp
        omega
    | true =>
      refine ⟨hascending, hvalid, ?_, ?_⟩
      · have hc := Number.whole?_succ h.capacity
        simpa [hperm.countP_eq, Int.add_assoc] using hc
      · simpa [hperm.countP_eq] using hle
  | evicted hf i hi hc =>
    obtain rfl := h.eq_false_of_full hf
    obtain ⟨_, hfree, _⟩ := Slot.candidate?_eq_some hc
    have hinsert := Slot.perm_insert ⟨step, false⟩ (s.slots.eraseIdx i)
    have herase := List.getElem_cons_eraseIdx_perm hi
    have hfree' : s.slots[i].persistent = false := hfree
    refine ⟨hascending, ?_, ?_, ?_⟩
    · intro slot hm
      rcases Slot.mem_insert_iff.mp hm with rfl | hm
      · exact ⟨hnew.1, hnew.2.1⟩
      · exact h.valid slot ((List.eraseIdx_sublist _ _).subset hm)
    · have hc := h.capacity
      rw [← herase.countP_eq] at hc
      simpa [hinsert.countP_eq, hfree'] using hc
    · rw [← herase.countP_eq] at hle
      simpa [hinsert.countP_eq, hfree'] using hle
  | dropped hf hp =>
    obtain rfl := h.eq_false_of_full hf
    exact ⟨h.ascending, h.valid, h.capacity, hle⟩

theorem offer (h : s.Sound budget) (step : Int) (persistent : Bool) :
    (s.offer step persistent).2.Sound budget := by
  have ho := s.offered step persistent
  generalize s.offer step persistent = result at ho
  cases ho with
  | invalid => exact h
  | held => exact h
  | overfull _ hfull => simp [h.not_overfull] at hfull
  | admitted admission slots hnew ha => exact h.admits hnew _ ha

theorem mem_of_offer (h : s.Sound budget) {admission : Admission}
    (ht : s.offer step true = (.ok admission, t)) : ⟨step, true⟩ ∈ t.slots := by
  have ho := s.offered step true
  rw [ht] at ho
  cases ho with
  | admitted _ slots hnew ha =>
    have hroom := h.above_roomFor
    cases ha with
    | kept => exact Slot.mem_insert_self _ _
    | evicted hf => cases hroom.symm.trans hf
    | dropped hf => cases hroom.symm.trans hf

theorem remove (h : s.Sound budget) (step : Int) : (s.remove step).2.Sound budget := by
  have hascending := lasting_ascending.remove s step h.ascending
  have hr := s.removed step
  generalize s.remove step = result at hr hascending
  cases hr with
  | notHeld => exact h
  | persistent => exact h
  | removed before after hslots =>
    have hperm : s.slots.Perm (⟨step, false⟩ :: (before ++ after)) := by
      rw [hslots]
      exact List.perm_middle
    have hc := h.capacity
    have hle := h.countP_le
    rw [hperm.countP_eq] at hc hle
    refine ⟨hascending, fun slot hm => h.valid slot (hperm.mem_iff.mpr (.tail _ hm)), ?_, ?_⟩
    · simpa using hc
    · simp only [List.countP_cons] at hle
      simp only at hle ⊢
      omega

theorem reset (h : s.Sound budget) : s.reset.Sound budget where
  ascending := lasting_ascending.reset s h.ascending
  valid := fun slot hm => h.valid slot (List.mem_filter.mp hm).1
  capacity := by simpa [Schedule.reset, List.countP_filter] using h.capacity
  countP_le := by
    have hnone : (s.slots.filter (·.persistent)).countP (!·.persistent) = 0 := by
      simp [List.countP_eq_zero]
    rw [Schedule.reset, hnone]
    exact h.budget_nonneg

theorem lasting (budget : Int) : Lasting (Sound budget) where
  offer := fun _ step persistent h => h.offer step persistent
  remove := fun _ step h => h.remove step
  reset := fun _ h => h.reset
  counters := fun _ _ h => ⟨h.ascending, h.valid, h.capacity, h.countP_le⟩

end Sound

theorem sound_of_create {number : Number} (hn : number.whole? = some budget)
    (h : create number = .ok s) : s.Sound budget := by
  unfold create at h
  split at h
  · cases h
  · rename_i hb
    obtain rfl := Except.ok.inj h
    have hnonneg : ¬ budget < 0 := fun hlt => hb ((Number.below_iff hn 0).mpr hlt)
    exact ⟨List.Pairwise.nil, by simp, by simpa using hn, by simpa using hnonneg⟩

/-- A schedule as it can come about: made for a budget, and asked for anything since. -/
def Reachable (budget : Int) (s : Schedule) : Prop :=
  ∃ number fresh history, Number.whole? number = some budget ∧ create number = .ok fresh ∧
    s = fresh.after history

theorem Reachable.sound (h : s.Reachable budget) : s.Sound budget := by
  obtain ⟨number, fresh, history, hn, hfresh, rfl⟩ := h
  exact (Sound.lasting budget).after history (sound_of_create hn hfresh)

/-- The slots of a schedule are valid and strictly ascending, whatever it was asked for. Its
capacity is the budget and a place for each persistent slot, the other slots are within the budget.
No offer is refused for lack of room, a refused one changes nothing, and a persistent step is held
for good. -/
theorem Reachable.slots_within_budget (h : s.Reachable budget) :
    s.slots.Pairwise (fun a b => a.step < b.step) ∧
      (∀ slot ∈ s.slots, 0 ≤ slot.step ∧ slot.step ≠ noStep) ∧
      s.capacity.whole? = some (budget + s.slots.countP (·.persistent)) ∧
      (s.slots.countP (!·.persistent) : Int) ≤ budget ∧
      (s.size : Int) ≤ budget + s.slots.countP (·.persistent) ∧
      (∀ step persistent fault t, s.offer step persistent = (.error fault, t) →
        t = s ∧ ∀ held capacity, fault ≠ .overfull held capacity) ∧
      ∀ step admission t, s.offer step true = (.ok admission, t) →
        ∀ history, ⟨step, true⟩ ∈ (t.after history).slots := by
  have hsound := h.sound
  refine ⟨hsound.ascending, hsound.valid, hsound.capacity, hsound.countP_le, hsound.size_le, ?_, ?_⟩
  · intro step persistent fault t ht
    have ho := s.offered step persistent
    rw [ht] at ho
    cases ho with
    | invalid => exact ⟨rfl, by simp⟩
    | held => exact ⟨rfl, by simp⟩
    | overfull _ hfull => simp [hsound.not_overfull] at hfull
  · intro step admission t ht history
    exact (lasting_mem rfl).after history (hsound.mem_of_offer ht)

theorem slots_within_budget_two :
    let s := (ofBudget 2).after
      [.offer 9 true, .offer 3 false, .offer 0x10000000000000000 false, .offer 5 false,
        .offer (-1) true, .remove 9, .latest]
    s.slots = [⟨5, false⟩, ⟨9, true⟩, ⟨0x10000000000000000, false⟩] ∧
      s.capacity.whole? = some (2 + 1) ∧
      s.slots.Pairwise (fun a b => a.step < b.step) ∧ (s.size : Int) ≤ 2 + 1 ∧
      ∀ admission t, s.offer 4 true = (.ok admission, t) →
        ∀ history, ⟨4, true⟩ ∈ (t.after history).slots := by
  intro s
  have hslots : s.slots = [⟨5, false⟩, ⟨9, true⟩, ⟨0x10000000000000000, false⟩] := rfl
  have hreach : s.Reachable 2 := ⟨.whole 2, ofBudget 2, _, rfl, rfl, rfl⟩
  obtain ⟨hascending, _, hcapacity, _, hsize, _, hforever⟩ := hreach.slots_within_budget
  rw [hslots] at hcapacity hsize
  exact ⟨hslots, hcapacity, hascending, hsize, hforever 4⟩

end Schedule
end ReverseSweep
