import Mathlib.Data.List.Sort
import ReverseSweep.Proofs.Events

/-! Schedules that have been reset. Nothing is left of their history but the persistent steps: from
there on they answer as a new schedule does that was offered just these. -/

namespace ReverseSweep

/-- Slots in order are given by the steps that they are of, in whatever order these are listed. -/
theorem Slot.Ascending.eq_map_mergeSort {slots : List Slot} (h : Slot.Ascending slots)
    {steps : List Int} (hperm : slots.Perm (steps.map fun step => ⟨step, true⟩)) :
    slots = (steps.mergeSort (· ≤ ·)).map fun step => ⟨step, true⟩ := by
  have hslots : slots.Pairwise fun a b => a.step ≤ b.step := h.imp le_of_lt
  have hsorted : (steps.mergeSort (· ≤ ·)).Pairwise (· ≤ ·) := List.pairwise_mergeSort' _ steps
  have hsame := (List.mergeSort_perm steps (· ≤ ·)).map fun step => (⟨step, true⟩ : Slot)
  refine List.Perm.eq_of_pairwise ?_ hslots (List.pairwise_map.mpr hsorted)
    (hperm.trans hsame.symm)
  intro a b ha hb hle hge
  obtain ⟨i, _, rfl⟩ := List.mem_map.mp (hperm.mem_iff.mp ha)
  obtain ⟨j, _, rfl⟩ := List.mem_map.mp hb
  exact congrArg (Slot.mk · true) (le_antisymm hle hge)

namespace Schedule

/-- The steps that were offered as persistent and not refused. -/
def Event.persisted (all : List Event) : List Int :=
  all.filterMap fun
    | .offered step true _ => some step
    | _ => none

/-- The persistent slots are those of the persisted steps, each of which has raised the capacity. -/
structure Remembers (number : Number) (budget : Int) (all : List Event) (s : Schedule) : Prop where
  sound : s.Sound budget
  perm : (s.slots.filter (·.persistent)).Perm ((Event.persisted all).map fun step => ⟨step, true⟩)
  capacity : s.capacity = Number.succ^[(Event.persisted all).length] number

/-- What is asked of a schedule one after another, answered. -/
def replies (s : Schedule) : List Request → List (Except Fault Reply)
  | [] => []
  | r :: history => (s.perform r).1 :: (s.perform r).2.replies history

/-- A reply without what it tells of the counters. -/
def Reply.uncounted : Reply → Reply
  | .counters _ => .counters {}
  | .stats st => .stats ⟨st.size, st.capacity, st.utilization, {}, st.persistent⟩
  | reply => reply

variable {number : Number} {budget : Int} {all : List Event} {s t : Schedule} {step : Int}

theorem Event.persisted_append (all later : List Event) :
    persisted (all ++ later) = persisted all ++ persisted later := List.filterMap_append

theorem Remembers.of_unpersistent (h : Remembers number budget all s) {later : List Event}
    (ht : t.Sound budget) (hnone : Event.persisted later = [])
    (hslots : (t.slots.filter (·.persistent)).Perm (s.slots.filter (·.persistent)))
    (hcapacity : t.capacity = s.capacity) : Remembers number budget (all ++ later) t := by
  have hsame : Event.persisted (all ++ later) = Event.persisted all := by
    rw [Event.persisted_append, hnone, List.append_nil]
  exact ⟨ht, hsame ▸ hslots.trans h.perm, hsame ▸ hcapacity.trans h.capacity⟩

/-- A step that is not persistent leaves the persistent slots alone. -/
theorem Admits.perm_filter_persistent {admission : Admission} {slots : List Slot}
    (h : s.Admits ⟨step, false⟩ admission slots) :
    (slots.filter (·.persistent)).Perm (s.slots.filter (·.persistent)) := by
  cases h with
  | kept => simpa using (Slot.perm_insert ⟨step, false⟩ s.slots).filter (·.persistent)
  | evicted _ i hi hc =>
    obtain ⟨_, hfree, _⟩ := Slot.candidate?_eq_some hc
    have hinsert := (Slot.perm_insert ⟨step, false⟩ (s.slots.eraseIdx i)).filter (·.persistent)
    have herase := (List.getElem_cons_eraseIdx_perm hi).filter (·.persistent)
    have hfree' : s.slots[i].persistent = false := hfree
    simp [hfree'] at hinsert herase
    exact hinsert.trans herase
  | dropped => exact .refl _

/-- A persistent step is kept, for it has brought its own room. -/
theorem Sound.kept_of_admits (h : s.Sound budget) {admission : Admission} {slots : List Slot}
    (ha : Admits ⟨s.slots, s.roomFor true, s.counters⟩ ⟨step, true⟩ admission slots) :
    admission = .kept ∧ slots = (⟨step, true⟩ : Slot).insert s.slots := by
  have hroom := h.above_roomFor
  cases ha with
  | kept => exact ⟨rfl, rfl⟩
  | evicted hfull => cases hroom.symm.trans hfull
  | dropped hfull => cases hroom.symm.trans hfull

/-- An offer that is not refused adds its step to the persisted ones if it is persistent. -/
theorem Remembers.offer (h : Remembers number budget all s) (step : Int) (persistent : Bool) :
    Remembers number budget (all ++ offerEvents step persistent (s.offer step persistent).1)
      (s.offer step persistent).2 := by
  have hsound := h.sound.offer step persistent
  have ho := s.offered step persistent
  generalize s.offer step persistent = result at ho hsound
  cases ho with
  | invalid => exact h.of_unpersistent hsound rfl (.refl _) rfl
  | held => exact h.of_unpersistent hsound rfl (.refl _) rfl
  | overfull _ hfull => simp [h.sound.not_overfull] at hfull
  | admitted admission slots hnew ha =>
    cases persistent with
    | false => exact h.of_unpersistent hsound rfl ha.perm_filter_persistent rfl
    | true =>
      obtain ⟨rfl, rfl⟩ := h.sound.kept_of_admits ha
      have hpersisted : Event.persisted (all ++ [.offered step true .kept]) =
          Event.persisted all ++ [step] := Event.persisted_append _ _
      have hinsert := (Slot.perm_insert ⟨step, true⟩ s.slots).filter (·.persistent)
      refine ⟨hsound, ?_, ?_⟩
      · rw [offerEvents, hpersisted, List.map_append]
        exact hinsert.trans ((h.perm.cons _).trans (List.perm_append_singleton _ _).symm)
      · rw [offerEvents, hpersisted, List.length_append, List.length_singleton,
          Function.iterate_succ_apply', ← h.capacity]
        rfl

theorem recorded_remembers (number : Number) (budget : Int) :
    Recorded (Remembers number budget) where
  offer := fun _ _ step persistent h => h.offer step persistent
  remove := by
    intro all s step h
    have hsound := h.sound.remove step
    have hr := s.removed step
    generalize s.remove step = result at hr hsound
    cases hr with
    | notHeld => exact h.of_unpersistent hsound rfl (.refl _) rfl
    | persistent => exact h.of_unpersistent hsound rfl (.refl _) rfl
    | removed before after hslots =>
      refine h.of_unpersistent hsound rfl ?_ rfl
      rw [hslots]
      simp
  reset := fun _ _ h => h.of_unpersistent h.sound.reset rfl (by simp [Schedule.reset]) rfl
  countRecomputation := fun _ _ h =>
    h.of_unpersistent ((Sound.lasting budget).counters _ _ h.sound) rfl (.refl _) rfl
  resetCounters := fun _ _ h =>
    h.of_unpersistent ((Sound.lasting budget).counters _ _ h.sound) rfl (.refl _) rfl

/-- Two schedules that may only differ in what they have counted. -/
structure Alike (s t : Schedule) : Prop where
  slots : s.slots = t.slots
  capacity : s.capacity = t.capacity

namespace Alike

theorem ite {c : Prop} [Decidable c] {α : Type} {p p' q q' : α × Schedule}
    (hp : p.1 = p'.1 ∧ Alike p.2 p'.2) (hq : q.1 = q'.1 ∧ Alike q.2 q'.2) :
    (if c then p else q).1 = (if c then p' else q').1 ∧
      Alike (if c then p else q).2 (if c then p' else q').2 := by
  by_cases hc : c
  · simpa only [if_pos hc] using hp
  · simpa only [if_neg hc] using hq

theorem offer (h : Alike s t) (step : Int) (persistent : Bool) :
    (s.offer step persistent).1 = (t.offer step persistent).1 ∧
      Alike (s.offer step persistent).2 (t.offer step persistent).2 := by
  have hsame := h
  obtain ⟨slots, capacity, _⟩ := s
  obtain ⟨_, _, _⟩ := t
  obtain ⟨rfl, rfl⟩ := h
  refine ite ⟨rfl, hsame⟩ (ite ⟨rfl, hsame⟩ (ite ?_ ⟨rfl, rfl, rfl⟩))
  exact ite ⟨rfl, rfl, rfl⟩ ⟨rfl, rfl, rfl⟩

theorem offerEach (h : Alike s t) (steps : List Int) :
    (s.offerEach steps).1 = (t.offerEach steps).1 ∧
      Alike (s.offerEach steps).2 (t.offerEach steps).2 := by
  induction steps generalizing s t with
  | nil => exact ⟨rfl, h⟩
  | cons step steps ih =>
    obtain ⟨hresult, hrest⟩ := h.offer step false
    simp only [Schedule.offerEach]
    generalize s.offer step = p at hresult hrest
    generalize t.offer step = q at hresult hrest
    obtain ⟨result, s'⟩ := p
    obtain ⟨_, t'⟩ := q
    obtain rfl := hresult
    cases result with
    | error fault => exact ⟨rfl, hrest⟩
    | ok admission =>
      obtain ⟨hresults, hlater⟩ := ih hrest
      dsimp only
      generalize s'.offerEach steps = p at hresults hlater
      generalize t'.offerEach steps = q at hresults hlater
      obtain ⟨results, s''⟩ := p
      obtain ⟨_, t''⟩ := q
      obtain rfl := hresults
      cases results <;> exact ⟨rfl, hlater⟩

theorem remove (h : Alike s t) (step : Int) :
    (s.remove step).1 = (t.remove step).1 ∧ Alike (s.remove step).2 (t.remove step).2 := by
  obtain ⟨slots, capacity, _⟩ := s
  obtain ⟨_, _, _⟩ := t
  obtain ⟨rfl, rfl⟩ := h
  simp only [Schedule.remove]
  cases slots.find? (·.step == step) with
  | none => exact ⟨rfl, rfl, rfl⟩
  | some slot => exact ite ⟨rfl, rfl, rfl⟩ ⟨rfl, rfl, rfl⟩

/-- What two such schedules answer differs in the counters at most, and they stay alike. -/
theorem perform (h : Alike s t) (r : Request) :
    (s.perform r).1.map Reply.uncounted = (t.perform r).1.map Reply.uncounted ∧
      Alike (s.perform r).2 (t.perform r).2 := by
  cases r with
  | offer step persistent =>
    obtain ⟨hresult, hrest⟩ := h.offer step persistent
    exact ⟨by simp only [Schedule.perform, hresult], hrest⟩
  | offerRange first stop stride =>
    cases hp : progression first stop stride with
    | error fault => simpa [Schedule.perform, hp] using h
    | ok steps =>
      obtain ⟨hresult, hrest⟩ := h.offerEach steps
      simpa [Schedule.perform, hp, hresult] using hrest
  | remove step =>
    obtain ⟨hresult, hrest⟩ := h.remove step
    exact ⟨by simp only [Schedule.perform, hresult], hrest⟩
  | erase step =>
    obtain ⟨hresult, hrest⟩ := h.remove step
    exact ⟨by simp only [Schedule.perform, erase, hresult], hrest⟩
  | reset =>
    have hslots := congrArg (List.filter fun slot : Slot => slot.persistent) h.slots
    exact ⟨rfl, hslots, h.capacity⟩
  | _ =>
    obtain ⟨slots, capacity, _⟩ := s
    obtain ⟨_, _, _⟩ := t
    obtain ⟨rfl, rfl⟩ := h
    exact ⟨rfl, rfl, rfl⟩

theorem after (h : Alike s t) (later : List Request) : Alike (s.after later) (t.after later) := by
  induction later generalizing s t with
  | nil => exact h
  | cons r later ih => exact ih (h.perform r).2

theorem replies (h : Alike s t) (later : List Request) :
    (s.replies later).map (·.map Reply.uncounted) =
      (t.replies later).map (·.map Reply.uncounted) := by
  induction later generalizing s t with
  | nil => rfl
  | cons r later ih =>
    obtain ⟨hreply, hrest⟩ := h.perform r
    simp only [Schedule.replies, List.map_cons, hreply, ih hrest]

end Alike

namespace Sound

theorem offer_persistent (h : s.Sound budget)
    (hnew : 0 ≤ step ∧ step ≠ noStep ∧ step ∉ s.steps) :
    s.offer step true = (.ok .kept,
      ⟨(⟨step, true⟩ : Slot).insert s.slots, s.capacity.succ, s.counters.count .kept⟩) := by
  have ho := s.offered step true
  generalize s.offer step true = result at ho
  cases ho with
  | invalid hinvalid => omega
  | held hheld => exact absurd hheld hnew.2.2
  | overfull _ hfull => simp [h.not_overfull] at hfull
  | admitted admission slots _ ha =>
    obtain ⟨rfl, rfl⟩ := h.kept_of_admits ha
    rfl

theorem offer_each_persistent (h : s.Sound budget) {order : List Int} (hnodup : order.Nodup)
    (hnew : ∀ step ∈ order, 0 ≤ step ∧ step ≠ noStep ∧ step ∉ s.steps)
    (hall : ∀ slot ∈ s.slots, slot.persistent = true) :
    Event.persisted (s.eventsAfter (order.map (.offer · true))) = order ∧
      ∀ slot ∈ (s.after (order.map (.offer · true))).slots, slot.persistent = true := by
  induction order generalizing s with
  | nil => exact ⟨rfl, hall⟩
  | cons step order ih =>
    obtain ⟨hnotMem, hrest⟩ := List.nodup_cons.mp hnodup
    have hoffer := h.offer_persistent (hnew step List.mem_cons_self)
    have hsound := h.offer step true
    rw [hoffer] at hsound
    have hlater := ih hsound hrest ?_ ?_
    · simp only [List.map_cons, eventsAfter, events, Schedule.perform, Schedule.after,
        List.foldl_cons, hoffer, offerEvents] at hlater ⊢
      exact ⟨congrArg (step :: ·) hlater.1, hlater.2⟩
    · intro a ha
      obtain ⟨h0, hne, hnot⟩ := hnew a (List.mem_cons_of_mem _ ha)
      refine ⟨h0, hne, fun hm => ?_⟩
      obtain ⟨slot, hslot, rfl⟩ := List.mem_map.mp hm
      rcases Slot.mem_insert_iff.mp hslot with rfl | hslot
      · exact hnotMem ha
      · exact hnot (List.mem_map_of_mem hslot)
    · intro slot hm
      rcases Slot.mem_insert_iff.mp hm with rfl | hm
      · rfl
      · exact hall slot hm

end Sound

theorem remembers_of_create {fresh : Schedule} (hn : number.whole? = some budget)
    (hc : create number = .ok fresh) : Remembers number budget [] fresh ∧ fresh.slots = [] := by
  have hsound := sound_of_create hn hc
  unfold create at hc
  split at hc
  · cases hc
  · obtain rfl := Except.ok.inj hc
    exact ⟨⟨hsound, .refl _, rfl⟩, rfl⟩

namespace Remembers

theorem persisted_nodup (h : Remembers number budget all s) : (Event.persisted all).Nodup := by
  have hascending := h.sound.reset.ascending
  have hnodup : ((s.slots.filter (·.persistent)).map (·.step)).Nodup :=
    List.pairwise_map.mpr (hascending.imp fun hlt => ne_of_lt hlt)
  have hperm := h.perm.map (·.step)
  simp only [List.map_map, Function.comp_def, List.map_id'] at hperm
  exact hperm.nodup_iff.mp hnodup

theorem valid_of_mem (h : Remembers number budget all s) (hm : step ∈ Event.persisted all) :
    0 ≤ step ∧ step ≠ noStep := by
  have hslot : ⟨step, true⟩ ∈ s.reset.slots := h.perm.mem_iff.mpr (List.mem_map_of_mem hm)
  exact h.sound.reset.valid _ hslot

theorem reset_slots (h : Remembers number budget all s) :
    s.reset.slots = ((Event.persisted all).mergeSort (· ≤ ·)).map fun step => ⟨step, true⟩ :=
  h.sound.reset.ascending.eq_map_mergeSort h.perm

theorem reset_capacity (h : Remembers number budget all s) :
    s.reset.capacity.whole? = some (budget + (Event.persisted all).length) := by
  have hcount : s.reset.slots.countP (·.persistent) = (Event.persisted all).length := by
    rw [h.reset_slots, List.countP_map]
    simp [Function.comp_def]
  exact hcount ▸ h.sound.reset.capacity

/-- Two schedules with the same persistent steps are alike when nothing else is left of either. -/
theorem alike_reset {later : List Event} (h : Remembers number budget all s)
    (ht : Remembers number budget later t) (hall : ∀ slot ∈ t.slots, slot.persistent = true)
    (hperm : (Event.persisted later).Perm (Event.persisted all)) : Alike s.reset t where
  slots := by
    have hslots := ht.perm.trans (hperm.map _)
    rw [List.filter_eq_self.mpr hall] at hslots
    exact h.reset_slots.trans (ht.sound.ascending.eq_map_mergeSort hslots).symm
  capacity := by
    have hcapacity := ht.capacity
    rw [hperm.length_eq] at hcapacity
    exact h.capacity.trans hcapacity.symm

end Remembers

/-- A reset leaves just the slots of the steps that were offered as persistent, and nothing else of
the history: what is asked afterwards is answered as by a new schedule to which these steps were
offered, in any order, but for the counters. -/
theorem reset_forgets {fresh : Schedule} (hn : number.whole? = some budget)
    (hc : create number = .ok fresh) (history : List Request) :
    let persisted := Event.persisted (fresh.eventsAfter history)
    let s := (fresh.after history).reset
    persisted.Nodup ∧
      s.slots = (persisted.mergeSort (· ≤ ·)).map (fun step => ⟨step, true⟩) ∧
      s.capacity.whole? = some (budget + persisted.length) ∧
      ∀ order, order.Perm persisted →
        let offers := order.map fun step => Request.offer step true
        let t := fresh.after offers
        Event.persisted (fresh.eventsAfter offers) = order ∧
          ∀ later,
            (s.replies later).map (·.map Reply.uncounted) =
              (t.replies later).map (·.map Reply.uncounted) ∧
            (s.after later).slots = (t.after later).slots ∧
            (s.after later).capacity = (t.after later).capacity := by
  intro persisted s
  obtain ⟨hfresh, hempty⟩ := remembers_of_create hn hc
  have hremembers : Remembers number budget (fresh.eventsAfter history) (fresh.after history) :=
    (recorded_remembers number budget).after history hfresh
  refine ⟨hremembers.persisted_nodup, hremembers.reset_slots, hremembers.reset_capacity, ?_⟩
  intro order horder offers t
  have hnew : ∀ step ∈ order, 0 ≤ step ∧ step ≠ noStep ∧ step ∉ fresh.steps := by
    intro step hm
    obtain ⟨h0, hne⟩ := hremembers.valid_of_mem (horder.mem_iff.mp hm)
    exact ⟨h0, hne, by simp [steps, hempty]⟩
  obtain ⟨hoffered, hall⟩ := hfresh.sound.offer_each_persistent
    (horder.nodup_iff.mpr hremembers.persisted_nodup) hnew (by simp [hempty])
  have hoffers : Remembers number budget (fresh.eventsAfter offers) t :=
    (recorded_remembers number budget).after offers hfresh
  have halike : Alike s t := hremembers.alike_reset hoffers hall (hoffered.symm ▸ horder)
  exact ⟨hoffered, fun later => ⟨halike.replies later, (halike.after later).slots,
    (halike.after later).capacity⟩⟩

theorem reset_forgets_two :
    let history : List Request :=
      [.offer 7 true, .offerRange 1 6 2, .offer 3 true, .offer 4 true, .offer (-1) true, .remove 7,
        .reset, .offer 9 false, .countRecomputation]
    let s := ((ofBudget 2).after history).reset
    let t := (ofBudget 2).after [.offer 4 true, .offer 7 true]
    s.slots = [⟨4, true⟩, ⟨7, true⟩] ∧ s.capacity.whole? = some (2 + 2) ∧
      s.counters ≠ t.counters ∧
      ∀ later, (s.replies later).map (·.map Reply.uncounted) =
        (t.replies later).map (·.map Reply.uncounted) := by
  intro history s t
  have hpersisted : Event.persisted ((ofBudget 2).eventsAfter history) = [7, 4] := by decide
  have hcreate : create (.whole 2) = .ok (ofBudget 2) := rfl
  obtain ⟨_, _, hcapacity, hlater⟩ := reset_forgets rfl hcreate history
  rw [hpersisted] at hcapacity hlater
  obtain ⟨_, hreplies⟩ := hlater [4, 7] (by decide)
  exact ⟨by decide, hcapacity, by decide, fun later => (hreplies later).1⟩

end Schedule
end ReverseSweep
