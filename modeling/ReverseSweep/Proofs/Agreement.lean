import ReverseSweep.Proofs.Halving
import ReverseSweep.Proofs.Interventions

/-! What a check of a bench decides. It compares two sizes and looks up each resident step by
halving; as neither side repeats a step, it finds out every difference between the two. -/

namespace ReverseSweep

variable {α : Type}

namespace Bench

variable {b : Bench α} {resident held : List Int}

def SameSteps (b : Bench α) : Prop := ∀ step, step ∈ b.store.steps ↔ step ∈ b.schedule.steps

/-- The resident steps that are not found in the schedule, each looked up by halving. -/
def missing (b : Bench α) : List Int :=
  b.store.steps.filter fun step => (b.schedule.index? step).isNone

theorem eq_of_same_members (hr : resident.Pairwise (· < ·)) (hh : held.Pairwise (· < ·))
    (h : ∀ step, step ∈ resident ↔ step ∈ held) : resident = held := by
  have hnodup {steps : List Int} (hs : steps.Pairwise (· < ·)) : steps.Nodup :=
    hs.imp fun hlt => Int.ne_of_lt hlt
  have hperm := (List.perm_ext_iff_of_nodup (hnodup hr) (hnodup hh)).mpr h
  exact hperm.eq_of_pairwise (fun a b _ _ hab hba => absurd hab (by omega)) hr hh

theorem Ordered.sameSteps_iff (h : b.Ordered) : b.SameSteps ↔ b.Lockstep := by
  refine ⟨eq_of_same_members h.store (List.pairwise_map.mpr h.schedule), fun hl step => ?_⟩
  rw [hl]

theorem Ordered.missing_eq (h : b.Ordered) :
    b.missing = b.store.steps.filter fun step => !b.schedule.holds step := by
  refine List.filter_congr fun step _ => ?_
  rw [Schedule.holds_eq_isSome_index? h.schedule step, Option.not_isSome]

theorem Ordered.sameSteps_iff_missing (h : b.Ordered) :
    b.SameSteps ↔ b.missing = [] ∧ b.schedule.size = b.store.size := by
  rw [h.sameSteps_iff, ← h.inLockstep_iff, inLockstep, Bool.and_eq_true, beq_iff_eq, h.missing_eq]
  simp

variable [Movable α]

/-- Schedule and store as they can come about, each asked for anything since it was made. -/
structure Arises (b : Bench α) : Prop where
  schedule : ∃ number fresh history,
    Schedule.create number = .ok fresh ∧ b.schedule = fresh.after history
  store : ∃ device history, b.store = ({ device := device } : Store α).after history

theorem Arises.ordered (h : b.Arises) : b.Ordered := by
  obtain ⟨⟨number, fresh, requests, hfresh, hs⟩, ⟨device, changes, ht⟩⟩ := h
  refine ⟨?_, ?_⟩
  · have hslots : Slot.Ascending fresh.slots := by
      unfold Schedule.create at hfresh
      split at hfresh
      · cases hfresh
      · obtain rfl := Except.ok.inj hfresh
        exact List.Pairwise.nil
    rw [hs]
    exact Schedule.lasting_ascending.after requests hslots
  · rw [ht]
    have hempty : ({ device := device } : Store α).Ascending := List.Pairwise.nil
    exact hempty.after changes

/-- A check passes just if schedule and store have the same steps, and is otherwise refused with
both lists of steps. That is what sizes and a search by halving for each resident step come to, and
it changes nothing. -/
theorem Arises.check_decides (h : b.Arises) :
    (b.SameSteps → b.perform .requireLockstep = (.ok .done, b)) ∧
      (¬ b.SameSteps → b.perform .requireLockstep =
        (.error (.outOfLockstep b.store.steps b.schedule.steps), b)) ∧
      (∀ fault, (b.perform .requireLockstep).1 = .error fault → fault.kind = .contract) ∧
      (b.SameSteps ↔ b.missing = [] ∧ b.schedule.size = b.store.size) := by
  have hordered := h.ordered
  have hpasses (hsame : b.SameSteps) : b.perform .requireLockstep = (.ok .done, b) := by
    have hin := hordered.inLockstep_iff.mpr (hordered.sameSteps_iff.mp hsame)
    simp [perform, requireLockstep, hin, Except.map]
  have hrefused (hdiffer : ¬ b.SameSteps) : b.perform .requireLockstep =
      (.error (.outOfLockstep b.store.steps b.schedule.steps), b) := by
    have hout : b.inLockstep = false := by
      rw [← Bool.not_eq_true, hordered.inLockstep_iff, ← hordered.sameSteps_iff]
      exact hdiffer
    simp [perform, requireLockstep, hout, Except.map]
  refine ⟨hpasses, hrefused, fun fault hfault => ?_, hordered.sameSteps_iff_missing⟩
  by_cases hsame : b.SameSteps
  · simp [hpasses hsame] at hfault
  · rw [hrefused hsame] at hfault
    cases hfault
    rfl

/-- Four steps on either side, of which three are the same. -/
def crossed : Bench (Placed Nat) where
  schedule := (Schedule.ofBudget 3).after
    [.offer 0 true, .offer 7 false, .offer 5 false, .offer 2 false, .remove 5, .offer 9 false]
  store := ({} : Store (Placed Nat)).after
    [.put 9 (.data 90), .put 0 (.data 1), .put 2 (.data 20), .put 5 (.data 50),
      .put 2 (.data 21), .discard 7]

/-- The same after the store has got the one step in place of the other. -/
def uncrossed : Bench (Placed Nat) :=
  crossed.withStore (crossed.store.after [.discard 5, .put 7 (.data 70)])

theorem check_decides_crossed :
    crossed.missing = [5] ∧ crossed.schedule.size = crossed.store.size ∧
      crossed.perform .requireLockstep =
        (.error (.outOfLockstep [0, 2, 5, 9] [0, 2, 7, 9]), crossed) ∧
      uncrossed.perform .requireLockstep = (.ok .done, uncrossed) := by
  have hfresh : Schedule.create (.whole 3) = .ok (.ofBudget 3) := rfl
  have hcrossed : crossed.Arises := ⟨⟨_, _, _, hfresh, rfl⟩, none, _, rfl⟩
  have huncrossed : uncrossed.Arises := ⟨⟨_, _, _, hfresh, rfl⟩, none, _, List.foldl_append.symm⟩
  have hmissing : crossed.missing = [5] := hcrossed.ordered.missing_eq
  obtain ⟨_, hrefused, _, hsame⟩ := hcrossed.check_decides
  obtain ⟨hpasses, _⟩ := huncrossed.check_decides
  exact ⟨hmissing, rfl, hrefused (by simp [hsame, hmissing]), hpasses fun step => Iff.rfl⟩

end Bench
end ReverseSweep
