import ReverseSweep.Proofs.Histories
import ReverseSweep.Proofs.Lockstep
import ReverseSweep.Sweep.Script

/-! Callbacks that intervene: whatever they do to schedule and store is done by requests, as is what
a sweep does itself. Requests keep both sides in order, so that a check of their sizes and of one
inclusion finds every difference between them. -/

namespace ReverseSweep

variable {ω α ε : Type}

namespace Store

variable {s : Store α}

def Ascending (s : Store α) : Prop := s.steps.Pairwise (· < ·)

theorem lt_of_mem_insertEntry {entries : List (Int × α)} {first step : Int} {state : α}
    (hfirst : first < step) (hrest : ∀ entry ∈ entries, first < entry.1) :
    ∀ entry ∈ insertEntry step state entries, first < entry.1 := by
  intro entry he
  rcases mem_insertEntry he with rfl | he
  · exact hfirst
  · exact hrest entry he

theorem ascending_insertEntry {entries : List (Int × α)}
    (h : entries.Pairwise fun a b => a.1 < b.1) (step : Int) (state : α) :
    (insertEntry step state entries).Pairwise fun a b => a.1 < b.1 := by
  induction entries with
  | nil => simp [insertEntry]
  | cons entry rest ih =>
    have hp := List.pairwise_cons.mp h
    simp only [insertEntry]
    by_cases hlt : step < entry.1
    · rw [if_pos hlt, List.pairwise_cons]
      refine ⟨?_, h⟩
      intro later hm
      rcases List.mem_cons.mp hm with rfl | hm
      · exact hlt
      · exact Int.lt_trans hlt (hp.1 later hm)
    rw [if_neg hlt]
    by_cases he : step = entry.1
    · rw [if_pos he, List.pairwise_cons]
      exact ⟨fun later hm => he ▸ hp.1 later hm, hp.2⟩
    · rw [if_neg he, List.pairwise_cons]
      exact ⟨lt_of_mem_insertEntry (by omega) hp.1, ih hp.2⟩

theorem ascending_iff : s.Ascending ↔ s.entries.Pairwise fun a b => a.1 < b.1 := List.pairwise_map

theorem Ascending.discard (h : s.Ascending) (step : Int) : (s.discard step).2.Ascending := by
  rw [ascending_iff] at h
  unfold Store.discard
  split
  · exact ascending_iff.mpr (h.sublist List.eraseP_sublist)
  · exact ascending_iff.mpr h

variable [Movable α]

/-- The store after a history of requests, refused ones included. -/
def after (s : Store α) (history : List (Request α)) : Store α :=
  history.foldl (fun s r => (s.perform r).2) s

theorem Ascending.perform (h : s.Ascending) (r : Request α) : (s.perform r).2.Ascending := by
  cases r with
  | put step state =>
    simp only [Store.perform, put]
    cases s.settle state with
    | error fault => exact h
    | ok kept => exact ascending_iff.mpr (ascending_insertEntry (ascending_iff.mp h) step kept)
  | discard step => exact h.discard step
  | clear => exact List.Pairwise.nil
  | _ => exact h

theorem Ascending.after (h : s.Ascending) (history : List (Request α)) :
    (s.after history).Ascending := by
  induction history generalizing s with
  | nil => exact h
  | cons r history ih => exact ih (h.perform r)

end Store

namespace Bench

variable {b c d : Bench α} {step : Int}

structure Ordered (b : Bench α) : Prop where
  schedule : Slot.Ascending b.schedule.slots
  store : b.store.Ascending

/-- Two sides without repetition are equal if they have the same size and one includes the other. -/
theorem Ordered.inLockstep_iff (h : b.Ordered) : b.inLockstep = true ↔ b.Lockstep := by
  have hheld : b.schedule.steps.Pairwise (· < ·) := List.pairwise_map.mpr h.schedule
  constructor
  · intro hb
    simp only [inLockstep, Bool.and_eq_true, List.all_eq_true, beq_iff_eq] at hb
    have hsub : b.store.steps ⊆ b.schedule.steps :=
      fun step hm => Schedule.holds_iff.mp (hb.1 step hm)
    have hnodup : b.store.steps.Nodup := h.store.imp fun hlt => Int.ne_of_lt hlt
    have hlen : b.schedule.steps.length ≤ b.store.steps.length := by
      have hsize := hb.2
      simp only [Schedule.size, Store.size] at hsize
      simp [Schedule.steps, Store.steps, hsize]
    have hperm := (List.subperm_of_subset hnodup hsub).perm_of_length_le hlen
    exact hperm.eq_of_pairwise (fun a b _ _ hab hba => absurd hab (by omega)) h.store hheld
  · intro hl
    have hr := hl.requireLockstep
    unfold requireLockstep at hr
    split at hr
    · assumption
    · cases hr

variable [Movable α]

/-- What requests to schedule and store can make of a bench. -/
structure Reaches (b c : Bench α) : Prop where
  schedule : ∃ history, c.schedule = b.schedule.after history
  store : ∃ history, c.store = b.store.after history

namespace Reaches

theorem of_eq (hs : c.schedule = b.schedule) (ht : c.store = b.store) : b.Reaches c :=
  ⟨⟨[], hs⟩, ⟨[], ht⟩⟩

theorem refl (b : Bench α) : b.Reaches b := of_eq rfl rfl

theorem trans (h : b.Reaches c) (h' : c.Reaches d) : b.Reaches d := by
  obtain ⟨⟨requests, hs⟩, ⟨changes, ht⟩⟩ := h
  obtain ⟨⟨later, hs'⟩, ⟨others, ht'⟩⟩ := h'
  refine ⟨⟨requests ++ later, ?_⟩, ⟨changes ++ others, ?_⟩⟩
  · rw [hs', hs, Schedule.after_append]
  · rw [ht', ht]
    exact List.foldl_append.symm

theorem ordered (h : b.Reaches c) (hb : b.Ordered) : c.Ordered := by
  obtain ⟨⟨requests, hs⟩, ⟨changes, ht⟩⟩ := h
  refine ⟨?_, ?_⟩
  · rw [hs]
    exact Schedule.lasting_ascending.after requests hb.schedule
  · rw [ht]
    exact hb.store.after changes

theorem mem_of_persistent (h : b.Reaches c) {slot : Slot} (hp : slot.persistent = true)
    (hm : slot ∈ b.schedule.slots) : slot ∈ c.schedule.slots := by
  obtain ⟨requests, hs⟩ := h.schedule
  rw [hs]
  exact (Schedule.lasting_mem hp).after requests hm

end Reaches

theorem reaches_withSchedule (b : Bench α) (r : Schedule.Request) :
    b.Reaches (b.withSchedule (b.schedule.perform r).2) := ⟨⟨[r], rfl⟩, ⟨[], rfl⟩⟩

theorem reaches_withStore (b : Bench α) (r : Store.Request α) :
    b.Reaches (b.withStore (b.store.perform r).2) := ⟨⟨[], rfl⟩, ⟨[r], rfl⟩⟩

theorem reaches_put (b : Bench α) (step : Int) (state : α) :
    b.Reaches (b.put step state).2 := by
  have h := b.reaches_withStore (.put step state)
  simp only [Store.perform] at h
  unfold put
  cases hp : b.store.put step state with
  | error fault => exact .refl b
  | ok store => rwa [hp] at h

theorem reaches_keep (b : Bench α) (step : Int) (state : α) :
    b.Reaches (b.keep step state).2 := by
  have h := b.reaches_withSchedule (.offer step true)
  simp only [Schedule.perform] at h
  unfold keep
  generalize b.schedule.offer step true = result at h
  obtain ⟨_ | admission, s⟩ := result
  · exact h
  · exact h.trans (reaches_put _ step state)

theorem reaches_putOffered (b : Bench α) (step : Int) (state : α) :
    b.Reaches (b.putOffered step state).2 := by
  have h := b.reaches_put step state
  unfold putOffered
  generalize b.put step state = result at h
  obtain ⟨_ | _, c⟩ := result <;> exact h

theorem reaches_offer (b : Bench α) (step : Int) (state : α) :
    b.Reaches (b.offer step state).2 := by
  have h := b.reaches_withSchedule (.offer step false)
  simp only [Schedule.perform] at h
  unfold offer
  generalize b.schedule.offer step = result at h
  obtain ⟨_ | _ | old | _, s⟩ := result
  · exact h
  · exact h.trans (reaches_putOffered _ step state)
  · have hd := (b.withSchedule s).reaches_withStore (.discard old)
    simp only [Store.perform] at hd
    have he : (b.withSchedule s).store.discard old = b.store.discard old := rfl
    rw [he] at hd
    dsimp only
    generalize b.store.discard old = result at hd
    obtain ⟨_ | _, store⟩ := result
    · exact h
    · exact (h.trans hd).trans (reaches_putOffered _ step state)
  · exact h

theorem reaches_offerAgain (b : Bench α) (step : Int) (state : α) :
    b.Reaches (b.offerAgain step state).2 := by
  have h := b.reaches_offer step state
  unfold offerAgain
  generalize b.offer step state = result at h
  obtain ⟨_ | _ | _, c⟩ := result
  · exact h
  · exact h
  · exact h.trans (c.reaches_withSchedule .countRecomputation)

theorem reaches_release (b : Bench α) (step : Int) : b.Reaches (b.release step).2 := by
  have h := b.reaches_withSchedule (.remove step)
  simp only [Schedule.perform] at h
  unfold release
  generalize b.schedule.remove step = result at h
  obtain ⟨_ | _ | _, s⟩ := result
  · exact h.trans ((b.withSchedule s).reaches_withStore (.discard step))
  · exact h
  · exact h

theorem reaches_perform (b : Bench α) (r : Request α) : b.Reaches (b.perform r).2 := by
  cases r with
  | schedule r => exact b.reaches_withSchedule r
  | store r => exact b.reaches_withStore r
  | offer step state => exact b.reaches_offer step state
  | release step => exact b.reaches_release step
  | log index phase step schedule store =>
    simp only [perform]
    split <;> exact .of_eq rfl rfl
  | _ => exact .of_eq rfl rfl

end Bench

variable [Movable α]

/-- The callbacks may do anything to schedule and store at any call, but only by requests. -/
structure Callbacks.Intervenes (cb : Callbacks ω α ε) : Prop where
  update : ∀ n y w (b : Bench α), b.Reaches (cb.update n y w b).2.2
  reverse : ∀ n y w (b : Bench α), b.Reaches (cb.reverse n y w b).2.2

namespace Script

theorem reaches_requests (reach : Reach) (rs : List (Bench.Request (Except Fault α)))
    (b : Bench α) : b.Reaches (requests reach rs b).2 := by
  induction rs generalizing b with
  | nil => exact .refl b
  | cons r rs ih =>
    have h : b.Reaches (request reach r b).2 := by
      unfold request
      split
      · exact .refl b
      · split
        · exact .refl b
        · exact b.reaches_perform _
    simp only [requests]
    generalize request reach r b = result at h
    obtain ⟨_ | _, c⟩ := result
    · exact h
    · exact h.trans (ih c)

theorem reaches_intervene (s : Script α) (kind : CallKind) (step : Int) (updates : Nat)
    (b : Bench α) : b.Reaches (s.intervene kind step updates b).2 := by
  have h := reaches_requests s.reach
    ((s.interventions.filter fun i => i.1.fits kind step updates).flatMap (·.2)) b
  simp only [intervene]
  generalize requests s.reach _ b = result at h
  obtain ⟨_ | _, c⟩ := result
  · exact h
  · dsimp only
    split
    · split <;> exact h
    · exact h

theorem callbacks_intervenes (s : Script α) : s.callbacks.Intervenes where
  update := fun step _ updates b =>
    have hclock : b.Reaches (b.advanceClock s.seconds) := .of_eq rfl rfl
    hclock.trans (s.reaches_intervene .update step (updates + 1) (b.advanceClock s.seconds))
  reverse := fun step _ updates b => s.reaches_intervene .reverse step updates b

end Script
end ReverseSweep
