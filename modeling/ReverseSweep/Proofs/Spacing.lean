import ReverseSweep.Proofs.Rooted

/-! Steps that are offered in order stay evenly spaced: no gap between neighbours is larger than the
gap that the removal of an inner step would leave. The bound holds because the step that goes leaves
the least gap of all, and so each gap is at most twice the even share. -/

namespace ReverseSweep

/-- No gap of `e 0, …, e m` exceeds the gap around an inner one of them. -/
def Spaced (m : Nat) (e : Nat → Int) : Prop :=
  ∀ j < m, ∀ i, i + 1 < m → e (j + 1) - e j ≤ e (i + 2) - e i

def skip (c : Nat) (e : Nat → Int) (j : Nat) : Int := if j < c then e j else e (j + 1)

theorem skip_of_lt {c j : Nat} (e : Nat → Int) (h : j < c) : skip c e j = e j := if_pos h

theorem skip_of_le {c j : Nat} (e : Nat → Int) (h : c ≤ j) : skip c e j = e (j + 1) :=
  if_neg (Nat.not_lt.mpr h)

def followedBy (m : Nat) (e : Nat → Int) (next : Int) (j : Nat) : Int := if j ≤ m then e j else next

theorem followedBy_of_le {m j : Nat} (e : Nat → Int) (next : Int) (h : j ≤ m) :
    followedBy m e next j = e j := if_pos h

theorem followedBy_of_lt {m j : Nat} (e : Nat → Int) (next : Int) (h : m < j) :
    followedBy m e next j = next := if_neg (Nat.not_le.mpr h)

theorem map_range_append (e : Nat → Int) (next : Int) (m : Nat) :
    (List.range (m + 1)).map e ++ [next] = (List.range (m + 2)).map (followedBy m e next) := by
  rw [List.range_succ (n := m + 1), List.map_append]
  congr 1
  · apply List.map_congr_left
    intro j hj
    rw [followedBy_of_le e next (by have := List.mem_range.mp hj; omega)]
  · simp [followedBy_of_lt]

theorem eraseIdx_map_range (e : Nat → Int) {c n : Nat} (hc : c < n + 1) :
    ((List.range (n + 1)).map e).eraseIdx c = (List.range n).map (skip c e) := by
  apply List.ext_getElem
  · simp [List.length_eraseIdx, hc]
  · intro i _ _
    by_cases hi : i < c <;> simp [List.getElem_eraseIdx, skip, hi]

namespace Spaced

variable {m c : Nat} {e : Nat → Int}

/-- Around each inner place the shorter sequence has a gap at least as large as before. -/
theorem gap_around_skip (hasc : ∀ j ≤ m, e j < e (j + 1)) {i : Nat} (hi : i + 1 < m) :
    ∃ a < m, (c + 1 = m → a + 1 < m) ∧
      e (a + 2) - e a ≤ skip (c + 1) e (i + 2) - skip (c + 1) e i := by
  have hassoc : i + 1 + 2 = i + 2 + 1 := by omega
  by_cases hic : i < c
  · refine ⟨i, by omega, fun _ => hi, ?_⟩
    rw [skip_of_lt e (show i < c + 1 by omega)]
    by_cases hic' : i + 2 < c + 1
    · exact Int.le_of_eq (by rw [skip_of_lt e hic'])
    · rw [skip_of_le e (show c + 1 ≤ i + 2 by omega)]
      have := hasc (i + 2) (by omega)
      omega
  · refine ⟨i + 1, hi, fun _ => by omega, ?_⟩
    rw [hassoc, skip_of_le e (show c + 1 ≤ i + 2 by omega)]
    by_cases hic' : i < c + 1
    · rw [skip_of_lt e hic']
      have := hasc i (by omega)
      omega
    · exact Int.le_of_eq (by rw [skip_of_le e (show c + 1 ≤ i by omega)])

/-- The place that leaves the least gap can go when the next step is put last. -/
theorem skip_least (h : Spaced m e) (hasc : ∀ j ≤ m, e j < e (j + 1))
    (hlast : e (m + 1) = e m + 1) (hc : c < m)
    (hleast : ∀ i < m, e (c + 2) - e c ≤ e (i + 2) - e i) : Spaced m (skip (c + 1) e) := by
  intro j hj i hi
  obtain ⟨a, ha, hlt, hle⟩ := gap_around_skip (c := c) hasc hi
  refine Int.le_trans ?_ hle
  have hca := hleast a ha
  -- An old gap is below the gap around the place that goes, unless that place is the last one.
  have hold : ∀ k < m, e (k + 1) - e k ≤ e (a + 2) - e a := by
    intro k hk
    by_cases hcm : c + 1 = m
    · exact h k hk a (hlt hcm)
    · exact Int.le_trans (h k hk c (by omega)) hca
  by_cases hjc : j + 1 < c + 1
  · rw [skip_of_lt e hjc, skip_of_lt e (show j < c + 1 by omega)]
    exact hold j hj
  · rw [skip_of_le e (show c + 1 ≤ j + 1 by omega)]
    by_cases hjc' : j < c + 1
    · obtain rfl : j = c := by omega
      rw [skip_of_lt e hjc']
      exact hca
    · rw [skip_of_le e (show c + 1 ≤ j by omega)]
      by_cases hjm : j + 1 < m
      · exact hold (j + 1) hjm
      · obtain rfl : m = j + 1 := by omega
        have h1 := hasc a (by omega)
        have h2 : e (a + 1) < e (a + 2) := hasc (a + 1) (by omega)
        omega

/-- Half as many inner places as there are gaps do not overlap. -/
theorem gap_mul_le (h : Spaced m e) {j : Nat} (hj : j < m) (k : Nat) (hk : 2 * k ≤ m) :
    (e (j + 1) - e j) * k ≤ e (2 * k) - e 0 := by
  induction k with
  | zero => simp
  | succ k ih =>
    have hi := ih (by omega)
    have hg := h j hj (2 * k) (by omega)
    have hmul : (e (j + 1) - e j) * ((k + 1 : Nat) : Int) =
        (e (j + 1) - e j) * k + (e (j + 1) - e j) := by
      rw [Int.natCast_add, Int.mul_add]
      simp
    rw [hmul, show 2 * (k + 1) = 2 * k + 2 by omega]
    omega

theorem followedBy (h : Spaced m e) (next : Int) : Spaced m (followedBy m e next) := by
  intro j hj i hi
  rw [followedBy_of_le e next (show j + 1 ≤ m by omega),
    followedBy_of_le e next (show j ≤ m by omega),
    followedBy_of_le e next (show i + 2 ≤ m by omega),
    followedBy_of_le e next (show i ≤ m by omega)]
  exact h j hj i hi

end Spaced

namespace Schedule

/-- A schedule to which the steps up to `n` were offered in order. -/
structure Spread (budget n : Nat) (e : Nat → Int) (s : Schedule) : Prop where
  rooted : s.Rooted budget
  latest : s.latest? = some (n : Int)
  steps_eq : s.steps = (List.range (min n budget + 1)).map e
  last : e (min n budget) = n
  spaced : Spaced (min n budget) e
  filled : n ≤ budget → ∀ j ≤ n, e j = j

def extended (budget n : Nat) (e : Nat → Int) : Nat → Int :=
  followedBy (min n budget) e ((n + 1 : Nat) : Int)

namespace Spread

variable {budget n : Nat} {e : Nat → Int} {s t : Schedule}

theorem lt_succ (h : Spread budget n e s) {j : Nat} (hj : j < min n budget) :
    e j < e (j + 1) := by
  have hp : s.steps.Pairwise (· < ·) := List.pairwise_map.mpr h.rooted.ascending
  rw [h.steps_eq, List.pairwise_map] at hp
  have hh := List.pairwise_iff_getElem.mp hp j (j + 1) (by simp; omega) (by simp; omega) (by omega)
  simpa using hh

theorem size_eq (h : Spread budget n e s) : s.size = min n budget + 1 := by
  have hlen := congrArg List.length h.steps_eq
  simpa [steps, size] using hlen

theorem persistent_eq_false (h : Spread budget n e s) {i : Nat} (hi : i + 1 < s.slots.length) :
    s.slots[i + 1].persistent = false := by
  obtain ⟨rest, hs, hr⟩ := h.rooted.root
  simp only [hs, List.getElem_cons_succ]
  exact hr _ (List.getElem_mem _)

theorem extended_of_le {j : Nat} (hj : j ≤ min n budget) : extended budget n e j = e j :=
  followedBy_of_le e _ hj

theorem extended_of_lt {j : Nat} (hj : min n budget < j) :
    extended budget n e j = ((n + 1 : Nat) : Int) := followedBy_of_lt e _ hj

theorem steps_append (h : Spread budget n e s) :
    s.steps ++ [((n + 1 : Nat) : Int)] =
      (List.range (min n budget + 2)).map (extended budget n e) := by
  rw [h.steps_eq, map_range_append]
  rfl

theorem extended_lt_succ (h : Spread budget n e s) {j : Nat} (hj : j ≤ min n budget) :
    extended budget n e j < extended budget n e (j + 1) := by
  rw [extended_of_le hj]
  by_cases hjm : j + 1 ≤ min n budget
  · rw [extended_of_le hjm]
    exact h.lt_succ hjm
  · have hlast := h.last
    rw [extended_of_lt (by omega), show j = min n budget by omega, hlast]
    omega

/-- The next step, put behind the held ones, bounds the gap of the last of them. -/
theorem gapAt_eq (h : Spread budget n e s) {i : Nat} (hi : i < min n budget) :
    Slot.gapAt ((n + 1 : Nat) : Int) 0 s.slots (i + 1) =
      .finite (extended budget n e (i + 2) - extended budget n e i) := by
  have hs := h.steps_eq
  rw [steps] at hs
  have h1 := h.extended_lt_succ (Nat.le_of_lt hi)
  have h2 : extended budget n e (i + 1) < extended budget n e (i + 2) := h.extended_lt_succ hi
  have hleft : ((0 : Int) :: s.slots.map (·.step)).getD (i + 1) 0 = extended budget n e i := by
    rw [extended_of_le (Nat.le_of_lt hi)]
    simp [hs, show i < min n budget + 1 by omega]
  have hright : (s.slots.map (·.step)).getD (i + 2) ((n + 1 : Nat) : Int) =
      extended budget n e (i + 2) := by
    rw [hs]
    by_cases hi' : i + 2 ≤ min n budget
    · simp [extended_of_le hi', show i + 2 < min n budget + 1 by omega]
    · simp [extended_of_lt (show min n budget < i + 2 by omega),
        show ¬ i + 2 < min n budget + 1 by omega]
  rw [Slot.gapAt, hleft, hright, Gap.between, if_pos (by omega)]

theorem least_of_candidate? (h : Spread budget n e s) {c : Nat}
    (hc : Slot.candidate? ((n + 1 : Nat) : Int) s.slots = some (c + 1)) :
    c < min n budget ∧ ∀ i < min n budget,
      extended budget n e (c + 2) - extended budget n e c ≤
        extended budget n e (i + 2) - extended budget n e i := by
  have hsize : s.slots.length = min n budget + 1 := h.size_eq
  obtain ⟨hlt, _, hleast⟩ := Slot.candidate?_eq_some hc
  have hcm : c < min n budget := by omega
  refine ⟨hcm, ?_⟩
  intro i hi
  have hi' : i + 1 < s.slots.length := by omega
  have hg := (hleast (i + 1) hi' (h.persistent_eq_false hi')).1
  rw [h.gapAt_eq hi, h.gapAt_eq hcm] at hg
  simpa [Gap.lt] using hg

/-- While there is room all steps are held, one apart. -/
theorem of_kept (h : Spread budget n e s) (hroom : n < budget) (hrooted : t.Rooted budget)
    (hlatest : t.latest? = some ((n + 1 : Nat) : Int))
    (ht : t.steps = s.steps ++ [((n + 1 : Nat) : Int)]) :
    Spread budget (n + 1) (extended budget n e) t := by
  have hmn : min n budget = n := by omega
  have hmn' : min (n + 1) budget = n + 1 := by omega
  have hfilled : ∀ j ≤ n + 1, extended budget n e j = j := by
    intro j hj
    by_cases hjn : j ≤ n
    · rw [extended_of_le (by omega)]
      exact h.filled (by omega) j hjn
    · rw [extended_of_lt (by omega)]
      omega
  refine ⟨hrooted, hlatest, ?_, ?_, ?_, fun _ => hfilled⟩
  · rw [ht, h.steps_append, hmn, hmn']
  · rw [hmn', hfilled _ (Nat.le_refl _)]
  · rw [hmn']
    intro j hj i hi
    rw [hfilled _ (by omega), hfilled _ (by omega), hfilled _ (by omega), hfilled _ (by omega)]
    omega

theorem of_evicted (h : Spread budget n e s) (hfull : budget ≤ n) (hrooted : t.Rooted budget)
    (hlatest : t.latest? = some ((n + 1 : Nat) : Int)) {c : Nat}
    (hc : Slot.candidate? ((n + 1 : Nat) : Int) s.slots = some (c + 1))
    (ht : t.steps = (s.steps ++ [((n + 1 : Nat) : Int)]).eraseIdx (c + 1)) :
    Spread budget (n + 1) (skip (c + 1) (extended budget n e)) t := by
  have hmn : min (n + 1) budget = min n budget := by omega
  obtain ⟨hcm, hleast⟩ := h.least_of_candidate? hc
  refine ⟨hrooted, hlatest, ?_, ?_, ?_, fun hle => by omega⟩
  · rw [ht, h.steps_append, hmn, eraseIdx_map_range _ (by omega)]
  · rw [hmn, skip_of_le _ (by omega), extended_of_lt (by omega)]
  · have hlast : extended budget n e (min n budget + 1) =
        extended budget n e (min n budget) + 1 := by
      rw [extended_of_le (Nat.le_refl _), extended_of_lt (by omega), h.last]
      omega
    rw [hmn]
    exact (h.spaced.followedBy _).skip_least (fun j hj => h.extended_lt_succ hj) hlast hcm hleast

theorem offer (h : Spread budget n e s) (hb : 1 ≤ budget) (hn : ((n + 1 : Nat) : Int) < noStep) :
    ∃ admission t e', s.offer ((n + 1 : Nat) : Int) = (.ok admission, t) ∧
      Spread budget (n + 1) e' t := by
  have hsize := h.size_eq
  obtain ⟨admission, t, ho, _, hrooted, hlatest, _⟩ :=
    h.rooted.offer_later hb h.latest (Nat.lt_succ_self n) hn
  obtain ⟨admission', t', ho', _, hcases⟩ :=
    h.rooted.offer_slots hb h.latest (Nat.lt_succ_self n) hn
  obtain ⟨rfl, rfl⟩ : admission = admission' ∧ t = t' := by simpa using ho.symm.trans ho'
  rcases hcases with ⟨_, hroom, ht⟩ | ⟨c, _, _, hfull, hc, ht⟩
  · have ht' : t.steps = s.steps ++ [((n + 1 : Nat) : Int)] := by simp [steps, ht]
    exact ⟨admission, t, _, ho, h.of_kept (by omega) hrooted hlatest ht'⟩
  · have ht' : t.steps = (s.steps ++ [((n + 1 : Nat) : Int)]).eraseIdx (c + 1) := by
      simp [steps, ht, List.eraseIdx_eq_take_drop_succ]
    exact ⟨admission, t, _, ho, h.of_evicted (by omega) hrooted hlatest hc ht'⟩

theorem offerEach (h : Spread budget n e s) (hb : 1 ≤ budget) (count : Nat)
    (hn : ((n + count : Nat) : Int) < noStep) :
    ∃ admissions t e',
      s.offerEach ((List.range' (n + 1) count).map Int.ofNat) = (.ok admissions, t) ∧
        Spread budget (n + count) e' t := by
  induction count generalizing n e s with
  | zero => exact ⟨[], s, e, rfl, h⟩
  | succ count ih =>
    obtain ⟨admission, t, e₁, ho, h₁⟩ := h.offer hb (by omega)
    rw [show n + (count + 1) = n + 1 + count by omega] at hn ⊢
    obtain ⟨admissions, u, e₂, hu, h₂⟩ := ih h₁ hn
    refine ⟨admission :: admissions, u, e₂, ?_, h₂⟩
    have ho' : s.offer (Int.ofNat (n + 1)) = (.ok admission, t) := ho
    simp only [List.range'_succ, List.map_cons, Schedule.offerEach, ho', hu]

end Spread

theorem spread_root (budget : Nat) (c : Counters) :
    Spread budget 0 Int.ofNat ⟨[⟨0, true⟩], .whole (budget + 1), c⟩ where
  rooted := rooted_root budget c
  latest := rfl
  steps_eq := by simp [steps]
  last := by simp
  spaced := by
    intro j hj
    omega
  filled := fun _ _ _ => rfl

theorem Spread.first {budget n : Nat} {e : Nat → Int} {s : Schedule} (h : Spread budget n e s) :
    e 0 = 0 := by
  obtain ⟨rest, hs, _⟩ := h.rooted.root
  have he := h.steps_eq
  rw [List.range_succ_eq_map, List.map_cons, steps, hs, List.map_cons] at he
  exact (List.cons.inj he).1.symm

/-- Half of the gaps, joined in pairs, do not reach beyond the latest step. -/
theorem Spread.gap_mul_half_le {budget n : Nat} {e : Nat → Int} {s : Schedule}
    (h : Spread budget n e s) (hn : budget ≤ n) {j : Nat} (hj : j < budget) :
    (e (j + 1) - e j) * ((budget / 2 : Nat) : Int) ≤ n := by
  have hm : min n budget = budget := Nat.min_eq_right hn
  have hspaced := h.spaced
  have hlast := h.last
  rw [hm] at hspaced hlast
  have hgap := hspaced.gap_mul_le hj (budget / 2) (by omega)
  have hfirst := h.first
  have hle : e (2 * (budget / 2)) ≤ e budget := by
    by_cases heven : 2 * (budget / 2) = budget
    · exact Int.le_of_eq (by rw [heven])
    · have hlt := h.lt_succ (show 2 * (budget / 2) < min n budget by omega)
      rw [show 2 * (budget / 2) + 1 = budget by omega] at hlt
      omega
  omega

theorem offerEach_append_error {s t : Schedule} {fault : Fault} {xs ys : List Int}
    {admissions : List Admission} (hs : s.offerEach xs = (.ok admissions, t))
    (ht : (t.offerEach ys).1 = .error fault) : (s.offerEach (xs ++ ys)).1 = .error fault := by
  induction xs generalizing s admissions with
  | nil =>
    obtain ⟨_, rfl⟩ : admissions = [] ∧ s = t := by simpa [offerEach] using hs
    exact ht
  | cons x xs ih =>
    simp only [offerEach, List.cons_append] at hs ⊢
    split at hs
    · simp at hs
    · rename_i admission u _
      cases hu : u.offerEach xs with
      | mk result v =>
        cases result with
        | error _ => simp [hu] at hs
        | ok later =>
          obtain ⟨_, rfl⟩ : admission :: later = admissions ∧ v = t := by simpa [hu] using hs
          have hh := ih hu
          split <;> simp_all

/-- No schedule accepts all steps in order beyond the number that stands for none. -/
theorem offerEach_root_error {budget n : Nat} (hb : 1 ≤ budget) (hn : noStep ≤ n) (c : Counters) :
    (offerEach ⟨[⟨0, true⟩], .whole (budget + 1), c⟩ ((List.range' 1 n).map Int.ofNat)).1 =
      .error (.invalidStep noStep) := by
  have hno : noStep = ((0x7ffffffffffffffe + 1 : Nat) : Int) := rfl
  obtain ⟨k, rfl⟩ : ∃ k, n = 0x7ffffffffffffffe + (k + 1) :=
    ⟨n - 0x7fffffffffffffff, by omega⟩
  obtain ⟨admissions, t, e, ho, _⟩ :=
    (spread_root budget c).offerEach hb 0x7ffffffffffffffe (by omega)
  rw [← List.range'_append_1, List.map_append]
  refine offerEach_append_error ho ?_
  have hstep : Int.ofNat (1 + 0x7ffffffffffffffe) = noStep := rfl
  rw [List.range'_succ, List.map_cons, hstep]
  simp only [offerEach, offer_noStep]

/-- Steps offered in order to a fresh schedule: as many as the budget stay besides step 0, each gap
between neighbours is at most the gap around any inner one of them, and so a gap is at most the
steps shared out over half of the budget. The number that stands for no step ends the offers. -/
theorem evenly_spaced_of_offerEach (budget n : Nat) (hb : 1 ≤ budget) (hn : budget ≤ n) :
    ∃ root, (ofBudget budget).offer 0 true = (.ok .kept, root) ∧
      (n < noStep → ∃ admissions t, ∃ s : Nat → Int,
        root.offerEach ((List.range' 1 n).map Int.ofNat) = (.ok admissions, t) ∧
        t.steps = (List.range (budget + 1)).map s ∧ s 0 = 0 ∧ s budget = n ∧
        (∀ j < budget, s j < s (j + 1)) ∧
        (∀ j < budget, ∀ i, 1 ≤ i → i ≤ budget - 1 →
          s (j + 1) - s j ≤ s (i + 1) - s (i - 1)) ∧
        ∀ j < budget, (s (j + 1) - s j) * ((budget / 2 : Nat) : Int) ≤ n) ∧
      (noStep ≤ n → (root.offerEach ((List.range' 1 n).map Int.ofNat)).1 =
        .error (.invalidStep noStep)) := by
  refine ⟨_, offer_root budget, ?_, fun hle => offerEach_root_error hb hle _⟩
  intro hlt
  obtain ⟨admissions, t, e, ho, h⟩ :=
    (spread_root budget ⟨1, 0, 0⟩).offerEach hb n (by simpa using hlt)
  rw [Nat.zero_add] at ho h
  have hm : min n budget = budget := Nat.min_eq_right hn
  have hsteps := h.steps_eq
  have hlast := h.last
  have hspaced := h.spaced
  rw [hm] at hsteps hlast hspaced
  refine ⟨admissions, t, e, ho, hsteps, h.first, hlast, ?_, ?_, fun j hj => h.gap_mul_half_le hn hj⟩
  · exact fun j hj => h.lt_succ (by omega)
  · intro j hj i h1 hi
    obtain ⟨a, rfl⟩ : ∃ a, i = a + 1 := ⟨i - 1, by omega⟩
    exact hspaced j hj a (by omega)

theorem evenly_spaced_of_offerEach_three_eight :
    1 ≤ 3 ∧ 3 ≤ 8 ∧ ∃ root, (ofBudget 3).offer 0 true = (.ok .kept, root) ∧
      ∃ admissions t, root.offerEach ((List.range' 1 8).map Int.ofNat) = (.ok admissions, t) ∧
        t.steps = [0, 4, 7, 8] ∧ ∃ s : Nat → Int, t.steps = (List.range 4).map s ∧
          ∀ j < 3, s (j + 1) - s j ≤ 8 := by
  refine ⟨by decide, by decide, ?_⟩
  obtain ⟨root, hroot, hh, _⟩ := evenly_spaced_of_offerEach 3 8 (by decide) (by decide)
  obtain ⟨admissions, t, s, ho, hsteps, _, _, _, _, hgap⟩ := hh (by decide)
  refine ⟨root, hroot, admissions, t, ho, ?_, s, hsteps, fun j hj => by simpa using hgap j hj⟩
  rw [offer_root] at hroot
  obtain rfl := (Prod.mk.inj hroot).2
  have hrun : (offerEach ⟨[⟨0, true⟩], .whole (3 + 1), ⟨1, 0, 0⟩⟩
      ((List.range' 1 8).map Int.ofNat)).2.steps = [0, 4, 7, 8] := by decide
  rw [← hrun]
  exact congrArg (·.2.steps) ho.symm

/-- The number that stands for no step cannot be offered, also when a budget of 1 leaves room. -/
theorem not_evenly_spaced_of_many_steps :
    1 ≤ 1 ∧ 1 ≤ 0x7fffffffffffffff ∧ ∃ root, (ofBudget 1).offer 0 true = (.ok .kept, root) ∧
      ¬ ∃ admissions t, root.offerEach ((List.range' 1 0x7fffffffffffffff).map Int.ofNat) =
        (.ok admissions, t) := by
  refine ⟨by decide, by decide, _, offer_root 1, ?_⟩
  rintro ⟨admissions, t, ho⟩
  have herror := offerEach_root_error (n := 0x7fffffffffffffff) (Nat.le_refl 1) (by decide) ⟨1, 0, 0⟩
  exact absurd ((congrArg Prod.fst ho).symm.trans herror) (by simp)

end Schedule
end ReverseSweep
