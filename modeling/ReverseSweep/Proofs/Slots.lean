import ReverseSweep.Schedule.Slot

/-! Slots in ascending order of their steps. Insertion keeps the order and is appending for a step
beyond all others; a slot is taken out by its place or by its step alike. -/

namespace ReverseSweep.Slot

def Ascending (slots : List Slot) : Prop := slots.Pairwise fun a b => a.step < b.step

theorem Ascending.sublist {slots rest : List Slot} (h : Ascending slots)
    (hs : rest.Sublist slots) : Ascending rest := List.Pairwise.sublist hs h

theorem mem_insert_iff {slot s : Slot} {slots : List Slot} :
    s ∈ slot.insert slots ↔ s = slot ∨ s ∈ slots := by
  induction slots with
  | nil => simp [insert]
  | cons a rest ih =>
    simp only [insert]
    split
    · simp
    · simp only [List.mem_cons, ih]
      exact or_left_comm

theorem length_insert (slot : Slot) (slots : List Slot) :
    (slot.insert slots).length = slots.length + 1 := by
  induction slots with
  | nil => rfl
  | cons a rest ih =>
    simp only [insert]
    split
    · rfl
    · simp [ih]

theorem Ascending.insert {slot : Slot} {slots : List Slot} (h : Ascending slots)
    (hnew : ∀ s ∈ slots, s.step ≠ slot.step) : Ascending (slot.insert slots) := by
  induction slots with
  | nil => simp [Ascending, Slot.insert]
  | cons a rest ih =>
    have hp := List.pairwise_cons.mp h
    have ha := hnew a (by simp)
    simp only [Slot.insert]
    split
    · rename_i hle
      apply List.pairwise_cons.mpr
      refine ⟨?_, h⟩
      intro s hs
      rcases List.mem_cons.mp hs with rfl | hs
      · omega
      · have := hp.1 s hs
        omega
    · rename_i hlt
      apply List.pairwise_cons.mpr
      refine ⟨?_, ih hp.2 fun s hs => hnew s (by simp [hs])⟩
      intro s hs
      rcases mem_insert_iff.mp hs with rfl | hs
      · omega
      · exact hp.1 s hs

theorem insert_eq_append {slot : Slot} {slots : List Slot}
    (h : ∀ s ∈ slots, s.step < slot.step) : slot.insert slots = slots ++ [slot] := by
  induction slots with
  | nil => rfl
  | cons a rest ih =>
    have ha := h a (by simp)
    have hi := ih fun s hs => h s (by simp [hs])
    simp [insert, hi, show ¬ slot.step ≤ a.step by omega]

theorem Ascending.eq_of_step_eq {slots : List Slot} (h : Ascending slots) {a b : Slot}
    (ha : a ∈ slots) (hb : b ∈ slots) (he : a.step = b.step) : a = b := by
  induction slots with
  | nil => simp at ha
  | cons s rest ih =>
    have hp := List.pairwise_cons.mp h
    rcases List.mem_cons.mp ha with rfl | ha' <;> rcases List.mem_cons.mp hb with rfl | hb'
    · rfl
    · have := hp.1 b hb'
      omega
    · have := hp.1 a ha'
      omega
    · exact ih hp.2 ha' hb'

/-- In an ascending list a step stands at one place only. -/
theorem Ascending.eraseIdx_eq_eraseP {slots : List Slot} (h : Ascending slots) {i : Nat}
    (hi : i < slots.length) :
    slots.eraseIdx i = slots.eraseP (·.step == slots[i].step) := by
  induction slots generalizing i with
  | nil => simp at hi
  | cons a rest ih =>
    have hp := List.pairwise_cons.mp h
    cases i with
    | zero => simp
    | succ i =>
      have hlt : i < rest.length := by simpa using hi
      have ha : a.step < rest[i].step := hp.1 rest[i] (List.getElem_mem hlt)
      have hne : (a.step == rest[i].step) = false := by simp; omega
      simpa [List.eraseP_cons, hne] using ih hp.2 hlt

theorem Ascending.mem_eraseIdx_iff {slots : List Slot} (h : Ascending slots) {i : Nat}
    (hi : i < slots.length) (a : Slot) :
    a ∈ slots.eraseIdx i ↔ a ∈ slots ∧ a.step ≠ slots[i].step := by
  rw [List.mem_eraseIdx_iff_getElem]
  constructor
  · rintro ⟨j, hj, hne, rfl⟩
    refine ⟨List.getElem_mem hj, ?_⟩
    by_cases hlt : j < i
    · have := List.pairwise_iff_getElem.mp h j i hj hi hlt
      omega
    · have := List.pairwise_iff_getElem.mp h i j hi hj (by omega)
      omega
  · rintro ⟨hm, hne⟩
    obtain ⟨j, hj, rfl⟩ := List.mem_iff_getElem.mp hm
    refine ⟨j, hj, ?_, rfl⟩
    rintro rfl
    exact hne rfl

theorem Ascending.ne_of_mem_eraseP {slots : List Slot} (h : Ascending slots) {step : Int}
    {s : Slot} (hs : s ∈ slots.eraseP (·.step == step)) : s.step ≠ step := by
  induction slots with
  | nil => simp at hs
  | cons a rest ih =>
    have hp := List.pairwise_cons.mp h
    by_cases ha : a.step = step
    · have hm : s ∈ rest := by simpa [List.eraseP_cons, ha] using hs
      have := hp.1 s hm
      omega
    · have hm : s = a ∨ s ∈ rest.eraseP (·.step == step) := by
        simpa [List.eraseP_cons, ha] using hs
      rcases hm with rfl | hm
      · exact ha
      · exact ih hp.2 hm

end ReverseSweep.Slot
