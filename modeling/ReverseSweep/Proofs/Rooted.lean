import Mathlib.Data.List.Perm.Subperm
import ReverseSweep.Proofs.Schedule

/-! The schedules of a sweep: step 0 is held for good, all others can go, and each step is admitted
right after the latest one. With a budget of at least one no such admission is dropped. -/

namespace ReverseSweep.Schedule

theorem length_le_of_ascending {steps : List Int} {n : Nat} (hp : steps.Pairwise (· < ·))
    (hrange : ∀ a ∈ steps, 0 ≤ a ∧ a < (n : Int)) : steps.length ≤ n := by
  have hsub : steps ⊆ (List.range n).map Int.ofNat := by
    intro a ha
    have hr := hrange a ha
    exact List.mem_map.mpr ⟨a.toNat, List.mem_range.mpr (by omega), Int.toNat_of_nonneg hr.1⟩
  have hnodup : steps.Nodup := hp.imp fun hlt => Int.ne_of_lt hlt
  simpa using (List.subperm_of_subset hnodup hsub).length_le

structure Rooted (budget : Nat) (s : Schedule) : Prop where
  root : ∃ rest, s.slots = ⟨0, true⟩ :: rest ∧ ∀ t ∈ rest, t.persistent = false
  ascending : Slot.Ascending s.slots
  capacity : s.capacity = .whole (budget + 1)
  size_le : s.size ≤ budget + 1

variable {s t : Schedule} {budget k m : Nat}

theorem offer_root (budget : Nat) :
    (ofBudget budget).offer 0 true =
      (.ok .kept, ⟨[⟨0, true⟩], .whole (budget + 1), ⟨1, 0, 0⟩⟩) := by
  have h : (0 : Int) < (budget : Int) + 1 := by omega
  simp [offer, ofBudget, store, place, holds, size, Number.succ, Number.atMost, Number.above,
    Slot.insert, Counters.count, noStep, h, show ¬ (budget : Int) + 1 ≤ 0 by omega]

theorem rooted_root (budget : Nat) (c : Counters) :
    Rooted budget ⟨[⟨0, true⟩], .whole (budget + 1), c⟩ where
  root := ⟨[], rfl, by simp⟩
  ascending := List.pairwise_singleton _ _
  capacity := rfl
  size_le := by simp [size]

namespace Rooted

theorem zero_mem (h : s.Rooted budget) : (0 : Int) ∈ s.steps := by
  obtain ⟨rest, hs, _⟩ := h.root
  simp [steps, hs]

theorem step_nonneg (h : s.Rooted budget) {a : Int} (ha : a ∈ s.steps) : 0 ≤ a := by
  obtain ⟨rest, hs, _⟩ := h.root
  have hp := List.pairwise_cons.mp (hs ▸ h.ascending)
  simp only [steps, hs, List.map_cons, List.mem_cons, List.mem_map] at ha
  rcases ha with rfl | ⟨t, ht, rfl⟩
  · omega
  · exact Int.le_of_lt (hp.1 t ht)

theorem above_iff (h : s.Rooted budget) :
    s.capacity.above s.size = true ↔ s.size < budget + 1 := by
  rw [h.capacity, Number.above, decide_eq_true_eq]
  omega

theorem eq_root_of_persistent (h : s.Rooted budget) {slot : Slot} (hm : slot ∈ s.slots)
    (hp : slot.persistent = true) : slot = ⟨0, true⟩ := by
  obtain ⟨rest, hs, hr⟩ := h.root
  rw [hs] at hm
  rcases List.mem_cons.mp hm with rfl | hm
  · rfl
  · simp [hr slot hm] at hp

theorem persistent_iff (h : s.Rooted budget) {slot : Slot} (hm : slot ∈ s.slots) :
    slot.persistent = true ↔ slot.step = 0 := by
  refine ⟨fun hp => by rw [h.eq_root_of_persistent hm hp], fun h0 => ?_⟩
  obtain ⟨rest, hs, _⟩ := h.root
  have hp := List.pairwise_cons.mp (hs ▸ h.ascending)
  rw [hs] at hm
  rcases List.mem_cons.mp hm with rfl | hm
  · rfl
  · have := hp.1 slot hm
    simp only at this
    omega

theorem exists_latest (h : s.Rooted budget) : ∃ k : Nat, s.latest? = some (k : Int) := by
  cases hl : s.latest? with
  | none =>
    have hn : s.steps = [] := List.max?_eq_none_iff.mp hl
    simpa [hn] using h.zero_mem
  | some a =>
    have ha := h.step_nonneg (latest?_eq_some_iff.mp hl).1
    exact ⟨a.toNat, by simp [Int.toNat_of_nonneg ha]⟩

theorem size_le_latest (h : s.Rooted budget) (hl : s.latest? = some (k : Int)) :
    s.size ≤ k + 1 := by
  have hk := (latest?_eq_some_iff.mp hl).2
  have hrange : ∀ a ∈ s.steps, 0 ≤ a ∧ a < (k + 1 : Nat) := by
    intro a ha
    have h0 := h.step_nonneg ha
    have hle := hk a ha
    omega
  simpa [steps, size] using length_le_of_ascending (List.pairwise_map.mpr h.ascending) hrange

/-- A later step is put last. It finds room, or takes the place of a slot that is not the root. -/
theorem offer_slots (h : s.Rooted budget) (hb : 1 ≤ budget) (hl : s.latest? = some (k : Int))
    (hm : k < m) (hn : (m : Int) < noStep) :
    ∃ admission t, s.offer m = (.ok admission, t) ∧ t.capacity = s.capacity ∧
      (admission = .kept ∧ s.size < budget + 1 ∧ t.slots = s.slots ++ [⟨m, false⟩] ∨
        ∃ i, i + 1 < s.slots.length ∧ (∃ old, admission = .evicted old) ∧ s.size = budget + 1 ∧
          Slot.candidate? m s.slots = some (i + 1) ∧
          t.slots = (s.slots ++ [(⟨m, false⟩ : Slot)]).eraseIdx (i + 1)) := by
  obtain ⟨rest, hs, hr⟩ := h.root
  have hlt : ∀ a ∈ s.slots, a.step < (m : Int) := fun a ha => by
    have := (latest?_eq_some_iff.mp hl).2 a.step (List.mem_map_of_mem ha)
    omega
  have hnew : (m : Int) ∉ s.steps := fun hmem => by
    obtain ⟨a, ha, he⟩ := List.mem_map.mp hmem
    have := hlt a ha
    omega
  obtain ⟨admission, t, ho⟩ := exists_offer_eq_ok (Int.natCast_nonneg m) (by omega) hnew
  obtain ⟨_, ha, hc, _⟩ := offer_eq_ok ho
  refine ⟨admission, t, ho, hc, ?_⟩
  have hsize := h.size_le
  generalize hsl : t.slots = slots at ha
  cases ha with
  | kept habove =>
    left
    refine ⟨rfl, h.above_iff.mp habove, ?_⟩
    rw [Slot.insert_eq_append hlt]
  | evicted habove i hi hcand =>
    right
    have hfull : ¬ s.size < budget + 1 := by simp [← h.above_iff, habove]
    obtain ⟨_, hp, _⟩ := Slot.candidate?_eq_some hcand
    cases i with
    -- the first slot is the root, which stays
    | zero => simp [hs] at hp
    | succ i =>
      refine ⟨i, hi, ⟨_, rfl⟩, by omega, hcand, ?_⟩
      have hlt' : ∀ a ∈ s.slots.eraseIdx (i + 1), a.step < (m : Int) :=
        fun a ha => hlt a ((List.eraseIdx_sublist _ _).subset ha)
      rw [List.eraseIdx_append_of_lt_length hi, Slot.insert_eq_append hlt']
  | dropped habove hp =>
    have hfull : ¬ s.size < budget + 1 := by simp [← h.above_iff, habove]
    cases rest with
    | nil => simp [size, hs] at hfull; omega
    | cons a rest => simpa [hr a (by simp)] using hp a (by simp [hs])

theorem of_append (h : s.Rooted budget) {rest kept : List Slot} (hs : s.slots = ⟨0, true⟩ :: rest)
    (hsub : kept.Sublist rest) (hl : s.latest? = some (k : Int)) (hm : k < m)
    (hroom : kept.length + 2 ≤ budget + 1) (ht : t.slots = (⟨0, true⟩ :: kept) ++ [⟨m, false⟩])
    (hc : t.capacity = s.capacity) : t.Rooted budget ∧ t.latest? = some (m : Int) := by
  obtain ⟨rest', hs', hr⟩ := h.root
  obtain rfl : rest' = rest := (List.cons.inj (hs'.symm.trans hs)).2
  have hsub' : (⟨0, true⟩ :: kept).Sublist s.slots := hs ▸ hsub.cons_cons _
  have hlt : ∀ a ∈ (⟨0, true⟩ :: kept : List Slot), a.step < (m : Int) := fun a ha => by
    have := (latest?_eq_some_iff.mp hl).2 a.step (List.mem_map_of_mem (hsub'.subset ha))
    omega
  have hsize : t.size = kept.length + 2 := by simp [size, ht]
  have hcons : t.slots = ⟨0, true⟩ :: (kept ++ [⟨m, false⟩]) := ht
  refine ⟨⟨⟨_, hcons, ?_⟩, ?_, by rw [hc, h.capacity], by omega⟩, ?_⟩
  · intro a ha
    rcases List.mem_append.mp ha with ha | ha
    · exact hr a (hsub.subset ha)
    · simp [List.mem_singleton.mp ha]
  · rw [ht, Slot.Ascending, List.pairwise_append]
    refine ⟨h.ascending.sublist hsub', List.pairwise_singleton _ _, ?_⟩
    intro a ha b hb
    simpa [List.mem_singleton.mp hb] using hlt a ha
  · rw [latest?_eq_some_iff, forall_mem_steps]
    refine ⟨by simp [steps, ht], ?_⟩
    intro a ha
    rw [ht] at ha
    rcases List.mem_append.mp ha with ha | ha
    · exact Int.le_of_lt (hlt a ha)
    · simp [List.mem_singleton.mp ha]

theorem offer_later (h : s.Rooted budget) (hb : 1 ≤ budget) (hl : s.latest? = some (k : Int))
    (hm : k < m) (hn : (m : Int) < noStep) :
    ∃ admission t, s.offer m = (.ok admission, t) ∧ admission ≠ .dropped ∧
      t.Rooted budget ∧ t.latest? = some (m : Int) ∧
      t.size = min (s.size + 1) (budget + 1) := by
  obtain ⟨admission, t, ho, hc, hcases⟩ := h.offer_slots hb hl hm hn
  obtain ⟨rest, hs, hr⟩ := h.root
  refine ⟨admission, t, ho, ?_⟩
  rcases hcases with ⟨rfl, hroom, ht⟩ | ⟨i, hi, ⟨old, rfl⟩, hfull, _, ht⟩
  · rw [hs] at ht
    have hsize : s.size = rest.length + 1 := by simp [size, hs]
    obtain ⟨hrooted, hlatest⟩ := h.of_append hs (.refl _) hl hm (by omega) ht hc
    refine ⟨by simp, hrooted, hlatest, ?_⟩
    simp only [size, ht, hs, List.length_append, List.length_cons, List.length_nil]
    omega
  · rw [hs, List.cons_append, List.eraseIdx_cons_succ] at ht
    have hi' : i < rest.length := by simpa [hs] using hi
    have hlen := List.length_eraseIdx_of_lt hi'
    have hsize : rest.length + 1 = budget + 1 := by simpa [size, hs] using hfull
    rw [List.eraseIdx_append_of_lt_length hi'] at ht
    obtain ⟨hrooted, hlatest⟩ :=
      h.of_append hs (List.eraseIdx_sublist _ i) hl hm (by omega) ht hc
    refine ⟨by simp, hrooted, hlatest, ?_⟩
    simp only [size, ht, hs, List.length_append, List.length_cons, List.length_nil]
    omega

theorem remove_latest (h : s.Rooted budget) (hl : s.latest? = some (k : Int)) (hk : 0 < k) :
    ∃ t, s.remove k = (.removed, t) ∧ t.slots = s.slots.eraseP (·.step == (k : Int)) ∧
      t.counters = s.counters ∧ t.Rooted budget ∧ t.size + 1 = s.size ∧
      ∃ j < k, t.latest? = some (j : Int) := by
  obtain ⟨hm, hle⟩ := latest?_eq_some_iff.mp hl
  obtain ⟨slot, hslot, he⟩ := List.mem_map.mp hm
  have hp : slot.persistent = false := by
    rw [← Bool.not_eq_true, h.persistent_iff hslot, he]
    omega
  have hr := remove_of_mem h.ascending hslot
  rw [he, if_neg (by simp [hp])] at hr
  have hsub : (s.slots.eraseP (·.step == (k : Int))).Sublist s.slots := List.eraseP_sublist
  have hlen : (s.slots.eraseP (·.step == (k : Int))).length = s.slots.length - 1 :=
    List.length_eraseP_of_mem hslot (by simp [he])
  have hpos : 0 < s.slots.length := List.length_pos_of_mem hslot
  have hrooted : Rooted budget ⟨s.slots.eraseP (·.step == (k : Int)), s.capacity, s.counters⟩ := by
    obtain ⟨rest, hs, hrest⟩ := h.root
    refine ⟨⟨rest.eraseP (·.step == (k : Int)), ?_, ?_⟩, h.ascending.sublist hsub, h.capacity, ?_⟩
    · have h0 : ((0 : Int) == (k : Int)) = false := by simp; omega
      simp [hs, h0]
    · exact fun t ht => hrest t (List.eraseP_subset ht)
    · exact Nat.le_trans hsub.length_le h.size_le
  refine ⟨_, hr, rfl, rfl, hrooted, by simp only [size]; omega, ?_⟩
  obtain ⟨j, hj⟩ := hrooted.exists_latest
  refine ⟨j, ?_, hj⟩
  obtain ⟨a, ha, hja⟩ := List.mem_map.mp (latest?_eq_some_iff.mp hj).1
  have hne := h.ascending.ne_of_mem_eraseP ha
  have hjk := hle j (List.mem_map.mpr ⟨a, hsub.subset ha, hja⟩)
  omega

theorem remove_root (h : s.Rooted budget) : s.remove 0 = (.persistent, s) := by
  obtain ⟨rest, hs, _⟩ := h.root
  have hm : (⟨0, true⟩ : Slot) ∈ s.slots := by simp [hs]
  exact remove_of_mem h.ascending hm

theorem slots_of_latest_zero (h : s.Rooted budget) (hl : s.latest? = some 0) :
    s.slots = [⟨0, true⟩] := by
  obtain ⟨rest, hs, _⟩ := h.root
  have hsize := h.size_le_latest (k := 0) hl
  cases rest with
  | nil => exact hs
  | cons a rest => simp [size, hs] at hsize

theorem size_of_latest_zero (h : s.Rooted budget) (hl : s.latest? = some 0) : s.size = 1 := by
  rw [size, h.slots_of_latest_zero hl]
  rfl

theorem eq_zero_of_size_le_one (h : s.Rooted budget) (hl : s.latest? = some (k : Int))
    (hsize : s.size ≤ 1) : k = 0 := by
  obtain ⟨rest, hs, _⟩ := h.root
  cases rest with
  | nil => simpa [latest?, steps, hs] using hl.symm
  | cons a rest => simp [size, hs] at hsize

end Rooted
end ReverseSweep.Schedule
