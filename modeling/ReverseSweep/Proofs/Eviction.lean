import ReverseSweep.Schedule.Eviction

/-! The evicted slot is the first of those that are not persistent and leave the least gap. There
is one as soon as some slot is not persistent. -/

namespace ReverseSweep

namespace Gap

theorem lt_irrefl (g : Gap) : g.lt g = false := by
  cases g <;> simp [lt]

theorem lt_asymm {g h : Gap} (hlt : g.lt h = true) : h.lt g = false := by
  cases g <;> cases h <;> simp_all [lt]
  omega

theorem not_lt_trans {g h k : Gap} (hg : h.lt g = false) (hk : k.lt h = false) :
    k.lt g = false := by
  cases g <;> cases h <;> cases k <;> simp_all [lt]
  omega

end Gap

namespace Slot

/-- The gap around the slot at a place, if `left` stands before the first slot and the incoming step
after the last one. -/
def gapAt (incoming left : Int) (slots : List Slot) (i : Nat) : Gap :=
  .between ((left :: slots.map (·.step)).getD i left) ((slots.map (·.step)).getD (i + 1) incoming)

theorem mergedGaps_getElem? (incoming left : Int) (slots : List Slot) (i : Nat) :
    (mergedGaps incoming left slots)[i]? =
      slots[i]?.map fun s => if s.persistent then none else some (gapAt incoming left slots i) := by
  induction slots generalizing left i with
  | nil => simp [mergedGaps]
  | cons s rest ih =>
    cases i with
    | zero => cases rest <;> simp [mergedGaps, gapAt]
    | succ i =>
      have hh := ih s.step i
      simp only [mergedGaps, List.getElem?_cons_succ, hh]
      cases hi : rest[i]? with
      | none => rfl
      | some t =>
        have hlt : i < rest.length := (List.getElem?_eq_some_iff.mp hi).1
        have hlt' : i < rest.length + 1 := by omega
        simp [gapAt, hlt']

theorem leastGap?_eq_none_iff {gaps : List (Option Gap)} :
    leastGap? gaps = none ↔ ∀ g ∈ gaps, g = none := by
  induction gaps with
  | nil => simp [leastGap?]
  | cons g rest ih =>
    cases g with
    | none => simp [leastGap?, ih]
    | some g =>
      cases hl : leastGap? rest with
      | none => simp [leastGap?, hl]
      | some later => by_cases hlt : later.2.lt g = true <;> simp [leastGap?, hl, hlt]

/-- The least gap is one of the gaps, none is less, and those before it are greater. -/
theorem leastGap?_eq_some {gaps : List (Option Gap)} {i : Nat} {g : Gap}
    (h : leastGap? gaps = some (i, g)) :
    gaps[i]? = some (some g) ∧ ∀ j k, gaps[j]? = some (some k) →
      k.lt g = false ∧ (j < i → g.lt k = true) := by
  induction gaps generalizing i g with
  | nil => simp [leastGap?] at h
  | cons first rest ih =>
    cases first with
    | none =>
      obtain ⟨⟨a, b⟩, hl, he⟩ := Option.map_eq_some_iff.mp (by simpa only [leastGap?] using h)
      obtain ⟨rfl, rfl⟩ := Prod.mk.inj he
      have hi := ih hl
      refine ⟨by simpa using hi.1, ?_⟩
      intro j k hj
      cases j with
      | zero => simp at hj
      | succ j => simpa using hi.2 j k (by simpa using hj)
    | some first =>
      cases hl : leastGap? rest with
      | none =>
        have hnone := leastGap?_eq_none_iff.mp hl
        obtain ⟨rfl, rfl⟩ : 0 = i ∧ first = g := by simpa [leastGap?, hl] using h
        refine ⟨rfl, ?_⟩
        intro j k hj
        cases j with
        | zero =>
          obtain rfl : first = k := by simpa using hj
          exact ⟨Gap.lt_irrefl _, by simp⟩
        | succ j =>
          have hm := hnone (some k) (List.mem_of_getElem? (by simpa using hj))
          cases hm
      | some later =>
        obtain ⟨a, b⟩ := later
        have hi := ih hl
        by_cases hlt : b.lt first = true
        · obtain ⟨rfl, rfl⟩ : a + 1 = i ∧ b = g := by simpa [leastGap?, hl, hlt] using h
          refine ⟨by simpa using hi.1, ?_⟩
          intro j k hj
          cases j with
          | zero =>
            obtain rfl : first = k := by simpa using hj
            exact ⟨Gap.lt_asymm hlt, fun _ => hlt⟩
          | succ j => simpa using hi.2 j k (by simpa using hj)
        · obtain ⟨rfl, rfl⟩ : 0 = i ∧ first = g := by simpa [leastGap?, hl, hlt] using h
          refine ⟨rfl, ?_⟩
          intro j k hj
          cases j with
          | zero =>
            obtain rfl : first = k := by simpa using hj
            exact ⟨Gap.lt_irrefl _, by simp⟩
          | succ j =>
            have hk := (hi.2 j k (by simpa using hj)).1
            exact ⟨Gap.not_lt_trans (by simpa using hlt) hk, by simp⟩

/-- The slot that goes is not persistent, no other such slot leaves a smaller gap, and those before
it leave a greater one. -/
theorem candidate?_eq_some {incoming : Int} {slots : List Slot} {i : Nat}
    (h : candidate? incoming slots = some i) :
    ∃ hi : i < slots.length, slots[i].persistent = false ∧
      ∀ j (hj : j < slots.length), slots[j].persistent = false →
        (gapAt incoming 0 slots j).lt (gapAt incoming 0 slots i) = false ∧
        (j < i → (gapAt incoming 0 slots i).lt (gapAt incoming 0 slots j) = true) := by
  obtain ⟨⟨a, g⟩, hl, he⟩ := Option.map_eq_some_iff.mp h
  obtain rfl : a = i := he
  obtain ⟨ha, hleast⟩ := leastGap?_eq_some hl
  rw [mergedGaps_getElem?] at ha
  obtain ⟨s, hs, hg⟩ := Option.map_eq_some_iff.mp ha
  obtain ⟨hi, rfl⟩ := List.getElem?_eq_some_iff.mp hs
  cases hp : slots[a].persistent with
  | true => simp [hp] at hg
  | false =>
    obtain rfl : gapAt incoming 0 slots a = g := by simpa [hp] using hg
    refine ⟨hi, hp, ?_⟩
    intro j hj hjp
    apply hleast j
    simp [mergedGaps_getElem?, List.getElem?_eq_getElem hj, hjp]

theorem candidate?_eq_none_iff {incoming : Int} {slots : List Slot} :
    candidate? incoming slots = none ↔ ∀ s ∈ slots, s.persistent = true := by
  simp only [candidate?, Option.map_eq_none_iff, leastGap?_eq_none_iff]
  constructor
  · intro h s hs
    obtain ⟨i, hi, rfl⟩ := List.mem_iff_getElem.mp hs
    cases hp : slots[i].persistent with
    | true => rfl
    | false =>
      have hg : (mergedGaps incoming 0 slots)[i]? = some (some (gapAt incoming 0 slots i)) := by
        simp [mergedGaps_getElem?, List.getElem?_eq_getElem hi, hp]
      cases h _ (List.mem_of_getElem? hg)
  · intro h g hg
    obtain ⟨i, hi⟩ := List.mem_iff_getElem?.mp hg
    rw [mergedGaps_getElem?] at hi
    obtain ⟨s, hs, rfl⟩ := Option.map_eq_some_iff.mp hi
    simp [h s (List.mem_of_getElem? hs)]

theorem evict?_eq_some {incoming step : Int} {slots rest : List Slot}
    (h : evict? incoming slots = some (step, rest)) :
    ∃ i, ∃ hi : i < slots.length, candidate? incoming slots = some i ∧
      step = slots[i].step ∧ rest = slots.eraseIdx i := by
  unfold evict? at h
  split at h
  · cases h
  · rename_i i hc
    obtain ⟨s, hs, he⟩ := Option.map_eq_some_iff.mp h
    obtain ⟨hi, rfl⟩ := List.getElem?_eq_some_iff.mp hs
    obtain ⟨rfl, rfl⟩ := Prod.mk.inj he
    exact ⟨i, hi, hc, rfl, rfl⟩

theorem evict?_eq_none_iff {incoming : Int} {slots : List Slot} :
    evict? incoming slots = none ↔ ∀ s ∈ slots, s.persistent = true := by
  refine Iff.trans ?_ (@candidate?_eq_none_iff incoming slots)
  unfold evict?
  split
  · simp_all
  · rename_i i hc
    obtain ⟨hi, _⟩ := candidate?_eq_some hc
    simp [hc, hi]

end Slot
end ReverseSweep
