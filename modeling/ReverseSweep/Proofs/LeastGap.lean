import Mathlib.Data.Int.ConditionallyCompleteOrder
import Mathlib.Order.ConditionallyCompleteLattice.Basic
import Mathlib.Order.WithBot
import ReverseSweep.Proofs.Histories

/-! The slot that makes room for an incoming step. Among those that may go it leaves the least gap,
and it is the first of several; a single pass from the front finds it. -/

namespace ReverseSweep

namespace Gap

/-- The distance, or what is above every distance. -/
def width : Gap → WithTop Int
  | finite width => width
  | unbounded => ⊤

theorem lt_iff {g h : Gap} : g.lt h = true ↔ g.width < h.width := by
  cases g <;> cases h <;> simp [lt, width]

theorem lt_eq_false_iff {g h : Gap} : g.lt h = false ↔ h.width ≤ g.width := by
  rw [← Bool.not_eq_true, lt_iff, not_lt]

theorem width_between (left right : Int) : (between left right).width =
    if right < left then ⊤ else ((right - left : Int) : WithTop Int) := by
  unfold between
  by_cases h : left ≤ right
  · rw [if_pos h, if_neg (not_lt.mpr h)]
    rfl
  · rw [if_neg h, if_pos (not_le.mp h)]
    rfl

end Gap

namespace Slot

/-- The gap between the neighbours of the slot at a place. Step 0 stands before the first slot and
the incoming step after the last one; an incoming step before the left neighbour leaves no
bound. -/
def mergedGap (incoming : Int) (slots : List Slot) (i : Nat) : WithTop Int :=
  let left := (0 :: slots.map (·.step)).getD i 0
  match slots[i + 1]? with
  | some next => ((next.step - left : Int) : WithTop Int)
  | none => if incoming < left then ⊤ else ((incoming - left : Int) : WithTop Int)

/-- The slot at a place gives way to an incoming step: of those that are not persistent it leaves
the least gap, and its step is the lowest among equals. -/
structure GivesWay (incoming : Int) (slots : List Slot) (i : Nat) (slot : Slot) : Prop where
  place : slots[i]? = some slot
  free : slot.persistent = false
  least : ∀ j other, slots[j]? = some other → other.persistent = false →
    mergedGap incoming slots i ≤ mergedGap incoming slots j
  lowest : ∀ j other, slots[j]? = some other → other.persistent = false →
    mergedGap incoming slots j = mergedGap incoming slots i → slot.step ≤ other.step

variable {incoming left : Int} {slots : List Slot} {slot : Slot} {i j : Nat}

theorem Ascending.lt_of_getElem? (h : Ascending slots) {a b : Slot} (ha : slots[i]? = some a)
    (hb : slots[j]? = some b) (hij : i < j) : a.step < b.step := by
  obtain ⟨hi, rfl⟩ := List.getElem?_eq_some_iff.mp ha
  obtain ⟨hj, rfl⟩ := List.getElem?_eq_some_iff.mp hb
  exact List.pairwise_iff_getElem.mp h i j hi hj hij

theorem Ascending.le_of_getElem? (h : Ascending slots) {a b : Slot} (ha : slots[i]? = some a)
    (hb : slots[j]? = some b) (hij : i ≤ j) : a.step ≤ b.step := by
  rcases Nat.lt_or_eq_of_le hij with hlt | rfl
  · exact Int.le_of_lt (h.lt_of_getElem? ha hb hlt)
  · obtain rfl := Option.some.inj (ha.symm.trans hb)
    exact Int.le_refl _

theorem Ascending.lt_of_step_lt (h : Ascending slots) {a b : Slot} (ha : slots[i]? = some a)
    (hb : slots[j]? = some b) (hlt : a.step < b.step) : i < j := by
  by_contra hle
  have := h.le_of_getElem? hb ha (by omega)
  omega

theorem mergedGap_ne_top (hi : i + 1 < slots.length) : mergedGap incoming slots i ≠ ⊤ := by
  simp [mergedGap, hi]

theorem mergedGap_last {before : Slot} (hbefore : slots[i]? = some before)
    (hnone : slots[i + 2]? = none) (hlt : incoming < before.step) :
    mergedGap incoming slots (i + 1) = ⊤ := by
  simp [mergedGap, hbefore, hnone, hlt]

/-- Only after the last slot can a gap be without bound. -/
theorem mergedGap_eq_width (h : Ascending slots) (hv : ∀ s ∈ slots, 0 ≤ s.step)
    (hi : i < slots.length) :
    mergedGap incoming slots i = (gapAt incoming 0 slots i).width := by
  simp only [mergedGap, gapAt, Gap.width_between, List.getD_eq_getElem?_getD, List.getElem?_map]
  cases hnext : slots[i + 1]? with
  | none => rfl
  | some next =>
    have hle : (0 :: slots.map (·.step))[i]?.getD 0 ≤ next.step := by
      cases i with
      | zero => simpa using hv next (List.mem_of_getElem? hnext)
      | succ i =>
        have hfirst := List.getElem?_eq_getElem (show i < slots.length by omega)
        have hlt := h.lt_of_getElem? hfirst hnext (by omega)
        simpa [hfirst] using Int.le_of_lt hlt
    simp only [Option.map_some, Option.getD_some]
    rw [if_neg (not_lt.mpr hle)]

theorem GivesWay.unique (h : Ascending slots) {other : Slot}
    (hi : GivesWay incoming slots i slot) (hj : GivesWay incoming slots j other) : i = j := by
  have hgap := le_antisymm (hi.least j other hj.place hj.free) (hj.least i slot hi.place hi.free)
  have hle := hi.lowest j other hj.place hj.free hgap.symm
  have hge := hj.lowest i slot hi.place hi.free hgap
  -- in ascending order the same step stands at the same place
  by_contra hne
  rcases Nat.lt_or_gt_of_ne hne with hlt | hlt
  · have := h.lt_of_getElem? hi.place hj.place hlt
    omega
  · have := h.lt_of_getElem? hj.place hi.place hlt
    omega

theorem givesWay_of_candidate? (h : Ascending slots) (hv : ∀ s ∈ slots, 0 ≤ s.step)
    (hc : candidate? incoming slots = some i) : ∃ slot, GivesWay incoming slots i slot := by
  obtain ⟨hi, hfree, hleast⟩ := candidate?_eq_some hc
  have hplace := List.getElem?_eq_getElem hi
  refine ⟨slots[i], hplace, hfree, ?_, ?_⟩
  · intro j other hj hother
    obtain ⟨hlt, rfl⟩ := List.getElem?_eq_some_iff.mp hj
    rw [mergedGap_eq_width h hv hi, mergedGap_eq_width h hv hlt]
    exact Gap.lt_eq_false_iff.mp (hleast j hlt hother).1
  · intro j other hj hother hgap
    obtain ⟨hlt, rfl⟩ := List.getElem?_eq_some_iff.mp hj
    rw [mergedGap_eq_width h hv hi, mergedGap_eq_width h hv hlt] at hgap
    by_cases hji : j < i
    · have hless := Gap.lt_iff.mp ((hleast j hlt hother).2 hji)
      exact absurd hgap hless.ne'
    · exact h.le_of_getElem? hplace hj (by omega)

theorem candidate?_eq_some_iff (h : Ascending slots) (hv : ∀ s ∈ slots, 0 ≤ s.step)
    (hslot : slots[i]? = some slot) :
    candidate? incoming slots = some i ↔ GivesWay incoming slots i slot := by
  constructor
  · intro hc
    obtain ⟨other, hgives⟩ := givesWay_of_candidate? h hv hc
    obtain rfl := Option.some.inj (hslot.symm.trans hgives.place)
    exact hgives
  · intro hgives
    cases hc : candidate? incoming slots with
    | none =>
      have hp := candidate?_eq_none_iff.mp hc slot (List.mem_of_getElem? hslot)
      cases hgives.free.symm.trans hp
    | some j =>
      obtain ⟨other, hother⟩ := givesWay_of_candidate? h hv hc
      rw [hgives.unique h hother]

/-- The better of two places, each with its gap: the first one, unless the second has a lesser
gap. -/
def better : Option (Nat × Gap) → Option (Nat × Gap) → Option (Nat × Gap)
  | none, later => later
  | some first, none => some first
  | some first, some later => if later.2.lt first.2 then some later else some first

/-- A pass from the front, with the best place so far and the step before the next slot. -/
def scan (incoming : Int) (best : Option (Nat × Gap)) (left : Int) (i : Nat) :
    List Slot → Option (Nat × Gap)
  | [] => best
  | s :: rest =>
    let right := match rest with
      | [] => incoming
      | next :: _ => next.step
    let gap? := if s.persistent then none else some (i, Gap.between left right)
    scan incoming (better best gap?) s.step (i + 1) rest

@[simp] theorem better_none_left (later : Option (Nat × Gap)) : better none later = later := rfl

@[simp] theorem better_none_right (first : Option (Nat × Gap)) : better first none = first := by
  cases first <;> rfl

theorem better_assoc (a b c : Option (Nat × Gap)) :
    better (better a b) c = better a (better b c) := by
  rcases a with _ | ⟨i, g⟩
  · simp
  rcases b with _ | ⟨j, h⟩
  · simp
  rcases c with _ | ⟨k, l⟩
  · simp
  by_cases hh : h.lt g = true <;> by_cases hl : l.lt h = true
  · have hlg : l.lt g = true :=
      Gap.lt_iff.mpr (lt_trans (Gap.lt_iff.mp hl) (Gap.lt_iff.mp hh))
    simp [better, hh, hl, hlg]
  · simp [better, hh, hl]
  · simp [better, hh, hl]
  · have hlg := Gap.not_lt_trans (Bool.eq_false_iff.mpr hh) (Bool.eq_false_iff.mpr hl)
    simp [better, hh, hl, hlg]

theorem map_better (i : Nat) (a b : Option (Nat × Gap)) :
    (better a b).map (fun (j, g) => (i + j, g)) =
      better (a.map fun (j, g) => (i + j, g)) (b.map fun (j, g) => (i + j, g)) := by
  rcases a with _ | ⟨j, g⟩
  · rfl
  rcases b with _ | ⟨k, h⟩
  · rfl
  by_cases hh : h.lt g = true <;> simp [better, hh]

theorem leastGap?_cons (gap? : Option Gap) (gaps : List (Option Gap)) :
    leastGap? (gap? :: gaps) =
      better (gap?.map fun g => (0, g)) ((leastGap? gaps).map fun (i, g) => (i + 1, g)) := by
  cases gap? with
  | none => rfl
  | some g => cases hl : leastGap? gaps <;> simp [leastGap?, better, hl]

theorem scan_eq_better (incoming : Int) (best : Option (Nat × Gap)) (left : Int) (i : Nat)
    (slots : List Slot) : scan incoming best left i slots =
      better best ((leastGap? (mergedGaps incoming left slots)).map fun (j, g) => (i + j, g)) := by
  induction slots generalizing best left i with
  | nil => simp [scan, mergedGaps, leastGap?]
  | cons s rest ih =>
    have hshift : ∀ later : Option (Nat × Gap),
        (later.map fun (j, g) => (i + 1 + j, g)) =
          (later.map fun (j, g) => (j + 1, g)).map fun (j, g) => (i + j, g) := by
      intro later
      simp [Function.comp_def, Nat.add_right_comm, ← Nat.add_assoc]
    simp only [scan, mergedGaps, ih, better_assoc, leastGap?_cons, map_better, hshift]
    cases s.persistent <;> rfl

theorem candidate?_eq_scan (incoming : Int) (slots : List Slot) :
    candidate? incoming slots = (scan incoming none 0 0 slots).map (·.1) := by
  simp [candidate?, scan_eq_better]

/-- A slot that gives way although two later than the incoming step are held is not the latest one,
unless no other may go. -/
theorem GivesWay.eq_last_iff (h : Ascending slots) (hgives : GivesWay incoming slots i slot)
    {last second : Slot} (hmax : ∀ s ∈ slots, s.step ≤ last.step) (hsecond : second ∈ slots)
    (hne : second.step ≠ last.step) (hlt : incoming < second.step) :
    slot.step = last.step ↔ ∀ s ∈ slots, s.persistent = false → s.step = last.step := by
  refine ⟨fun he s hs hfree => ?_, fun hall =>
    hall slot (List.mem_of_getElem? hgives.place) hgives.free⟩
  have hbefore {k : Nat} {a : Slot} (hk : slots[k]? = some a) (ha : a.step ≠ last.step) :
      k < i := by
    have hle := hmax a (List.mem_of_getElem? hk)
    exact h.lt_of_step_lt hk hgives.place (by omega)
  have hnone : slots[i + 1]? = none := by
    by_contra hsome
    obtain ⟨next, hnext⟩ := Option.ne_none_iff_exists'.mp hsome
    have hstep := h.lt_of_getElem? hgives.place hnext (Nat.lt_succ_self i)
    have hle := hmax next (List.mem_of_getElem? hnext)
    omega
  by_contra hother
  -- another slot that may go leaves a gap with a bound, this one does not
  obtain ⟨j, hj⟩ := List.mem_iff_getElem?.mp hs
  obtain ⟨k, hk⟩ := List.mem_iff_getElem?.mp hsecond
  have hi := (List.getElem?_eq_some_iff.mp hgives.place).1
  have hji := hbefore hj hother
  have hki := hbefore hk hne
  have hleast := hgives.least j s hj hfree
  obtain ⟨m, rfl⟩ : ∃ m, i = m + 1 := ⟨i - 1, by omega⟩
  have hm := List.getElem?_eq_getElem (show m < slots.length by omega)
  have hle := h.le_of_getElem? hk hm (by omega)
  rw [mergedGap_last hm hnone (Int.lt_of_lt_of_le hlt hle), top_le_iff] at hleast
  exact mergedGap_ne_top (by omega) hleast

end Slot

namespace Schedule

variable {s t : Schedule} {budget step : Int}

theorem Sound.nonneg (h : s.Sound budget) : ∀ slot ∈ s.slots, 0 ≤ slot.step :=
  fun slot hm => (h.valid slot hm).1

theorem candidate_eq_size_iff (s : Schedule) (incoming : Int) :
    s.candidate incoming = s.size ↔ ∀ slot ∈ s.slots, slot.persistent = true := by
  rw [← @Slot.candidate?_eq_none_iff incoming s.slots, candidate]
  cases hc : Slot.candidate? incoming s.slots with
  | none => simp
  | some i =>
    obtain ⟨hi, _⟩ := Slot.candidate?_eq_some hc
    have hne : i ≠ s.size := Nat.ne_of_lt hi
    simp [hne]

theorem Sound.candidate_eq_iff (h : s.Sound budget) (incoming : Int) {i : Nat} {slot : Slot}
    (hslot : s.slots[i]? = some slot) :
    s.candidate incoming = i ↔ Slot.GivesWay incoming s.slots i slot := by
  rw [← Slot.candidate?_eq_some_iff h.ascending h.nonneg hslot, candidate]
  cases hc : Slot.candidate? incoming s.slots with
  | none =>
    have hi : i < s.size := (List.getElem?_eq_some_iff.mp hslot).1
    simp [Nat.ne_of_gt hi]
  | some j => simp

/-- A step that finds no room takes the place of the slot that gives way to it, if one may go. -/
theorem Sound.exists_evicted (h : s.Sound budget) (hnew : 0 ≤ step ∧ step ≠ noStep ∧ step ∉ s.steps)
    (hfull : s.capacity.whole? = some (s.size : Int))
    (hfree : ∃ slot ∈ s.slots, slot.persistent = false) :
    ∃ i slot t, s.offer step = (.ok (.evicted slot.step), t) ∧
      Slot.GivesWay step s.slots i slot ∧ s.candidate step = i ∧
      ∀ a, a ∈ t.slots ↔ a = ⟨step, false⟩ ∨ a ∈ s.slots ∧ a.step ≠ slot.step := by
  obtain ⟨admission, t, ho⟩ := exists_offer_eq_ok hnew.1 hnew.2.1 hnew.2.2
  obtain ⟨_, hadmits, _⟩ := offer_eq_ok ho
  have hroom : ¬ s.capacity.above s.size = true := by
    rw [Number.above_iff hfull]
    omega
  generalize hslots : t.slots = slots at hadmits
  cases hadmits with
  | kept habove => exact absurd habove hroom
  | dropped _ hp =>
    obtain ⟨slot, hm, hslot⟩ := hfree
    cases (hp slot hm).symm.trans hslot
  | evicted _ i hi hc =>
    have hplace := List.getElem?_eq_getElem hi
    have hgives := (Slot.candidate?_eq_some_iff h.ascending h.nonneg hplace).mp hc
    refine ⟨i, s.slots[i], t, ho, hgives, (h.candidate_eq_iff step hplace).mpr hgives, fun a => ?_⟩
    rw [hslots, Slot.mem_insert_iff]
    exact or_congr_right (h.ascending.mem_eraseIdx_iff hi a)

/-- The slot that a search from the front proposes is the one that gives way. An offer that finds no
room puts its step in the place of that slot. A step beyond all others is the latest one then, and
for a step before two others the latest slot goes just if no other slot can. -/
theorem Reachable.evicts_least_gap (h : s.Reachable budget) :
    (∀ incoming,
      (s.candidate incoming = s.size ↔ ∀ slot ∈ s.slots, slot.persistent = true) ∧
      (∀ i slot, s.slots[i]? = some slot →
        (s.candidate incoming = i ↔ Slot.GivesWay incoming s.slots i slot)) ∧
      s.candidate incoming =
        ((Slot.scan incoming none 0 0 s.slots).map (·.1)).getD s.slots.length) ∧
    ∀ step, 0 ≤ step → step ≠ noStep → step ∉ s.steps →
      s.capacity.whole? = some (s.size : Int) → (∃ slot ∈ s.slots, slot.persistent = false) →
      ∃ i slot t, s.offer step = (.ok (.evicted slot.step), t) ∧
        Slot.GivesWay step s.slots i slot ∧ s.candidate step = i ∧
        (∀ a, a ∈ t.slots ↔ a = ⟨step, false⟩ ∨ a ∈ s.slots ∧ a.step ≠ slot.step) ∧
        ((∀ held ∈ s.steps, held < step) → t.latest? = some step) ∧
        ∀ last, s.latest? = some last → ∀ second ∈ s.steps, second ≠ last → step < second →
          (slot.step = last ↔
            ∀ other ∈ s.slots, other.persistent = false → other.step = last) := by
  have hsound := h.sound
  refine ⟨fun incoming => ⟨s.candidate_eq_size_iff incoming,
    fun i slot hslot => hsound.candidate_eq_iff incoming hslot, ?_⟩, ?_⟩
  · rw [candidate, Slot.candidate?_eq_scan]
    rfl
  · intro step hnonneg hne hnew hfull hfree
    obtain ⟨i, slot, t, ho, hgives, hcandidate, hmem⟩ :=
      hsound.exists_evicted ⟨hnonneg, hne, hnew⟩ hfull hfree
    refine ⟨i, slot, t, ho, hgives, hcandidate, hmem, ?_, ?_⟩
    · intro hbeyond
      have hstep : ⟨step, false⟩ ∈ t.slots := (hmem _).mpr (.inl rfl)
      refine latest?_eq_some_iff.mpr ⟨List.mem_map_of_mem hstep,
        forall_mem_steps.mpr fun a ha => ?_⟩
      rcases (hmem a).mp ha with rfl | ⟨hold, _⟩
      · exact Int.le_refl _
      · exact Int.le_of_lt (hbeyond a.step (List.mem_map_of_mem hold))
    · intro last hlast second hsecond hne hlt
      obtain ⟨hm, hmax⟩ := latest?_eq_some_iff.mp hlast
      obtain ⟨last, _, rfl⟩ := List.mem_map.mp hm
      obtain ⟨second, hheld, rfl⟩ := List.mem_map.mp hsecond
      exact hgives.eq_last_iff hsound.ascending (forall_mem_steps.mp hmax) hheld hne hlt

theorem evicts_least_gap_two :
    let s := (ofBudget 2).after [.offer 0 true, .offer 9 false, .offer 4 false]
    ∃ t, s.offer 2 = (.ok (.evicted 4), t) ∧ Slot.GivesWay 2 s.slots 1 ⟨4, false⟩ ∧
      s.candidate 2 = 1 ∧ ⟨9, false⟩ ∈ t.slots := by
  intro s
  have hreach : s.Reachable 2 := ⟨.whole 2, ofBudget 2, _, rfl, rfl, rfl⟩
  obtain ⟨_, hevicts⟩ := hreach.evicts_least_gap
  have hslots : s.slots = [⟨0, true⟩, ⟨4, false⟩, ⟨9, false⟩] := rfl
  obtain ⟨i, slot, t, ho, hgives, hcandidate, hmem, _, hlatest⟩ :=
    hevicts 2 (by decide) (by decide) (by decide) rfl ⟨⟨4, false⟩, by simp [hslots], rfl⟩
  have hstays : slot.step ≠ 9 :=
    mt (hlatest 9 rfl 4 (by decide) (by decide) (by decide)).mp (by decide)
  have hnine : (⟨9, false⟩ : Slot) ∈ t.slots := (hmem _).mpr (.inr ⟨by simp [hslots], hstays.symm⟩)
  have hi : 1 = i := hcandidate
  subst hi
  obtain rfl : ⟨4, false⟩ = slot := Option.some.inj hgives.place
  exact ⟨t, ho, hgives, hcandidate, hnine⟩

end Schedule
end ReverseSweep
