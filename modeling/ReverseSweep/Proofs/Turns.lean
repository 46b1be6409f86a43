import ReverseSweep.Proofs.Lockstep

/-! Offers and releases in any order, refused ones among them. Schedule and store stay in lockstep,
and each resident state is the one that was given last for its step. -/

namespace ReverseSweep

variable {α : Type}

inductive Turn (α : Type)
  | offer (step : Int) (state : α)
  | release (step : Int)

namespace Turn

def request : Turn α → Bench.Request α
  | offer step state => .offer step state
  | release step => .release step

variable [Movable α]

/-- The store can keep the state, if there is one. -/
def Fits (s : Store α) : Turn α → Prop
  | offer _ state => ∃ kept, s.settle state = .ok kept
  | release _ => True

theorem fits_of_no_device {s : Store α} (h : s.device = none) (turn : Turn α) : turn.Fits s := by
  cases turn with
  | offer step state => exact ⟨state, by rw [Store.settle, h]⟩
  | release step => trivial

/-- Whether a state that was given for the step is resident now, unless it was refused. -/
def given (b : Bench α) (step : Int) : Turn α → Option (Bool × α)
  | offer s state => if s = step then (b.offer s state).1.toOption.map (·, state) else none
  | release _ => none

theorem Fits.of_device_eq {s t : Store α} {turn : Turn α} (h : turn.Fits s)
    (hd : t.device = s.device) : turn.Fits t := by
  cases turn with
  | offer step state =>
    obtain ⟨kept, hk⟩ := h
    exact ⟨kept, by rw [Store.settle_of_device_eq hd, hk]⟩
  | release step => trivial

end Turn

namespace Bench

/-- The latest state that was given for a step and not refused, and whether it was resident. -/
def lastGiven [Movable α] (b : Bench α) (step : Int) : List (Turn α) → Option (Bool × α)
  | [] => none
  | turn :: turns => ((b.perform turn.request).2.lastGiven step turns).or (turn.given b step)

structure Orderly (b : Bench α) : Prop where
  lockstep : b.Lockstep
  ascending : Slot.Ascending b.schedule.slots

variable {b c : Bench α} {step : Int}

theorem orderly_of_create {budget : Number} (hs : Schedule.create budget = .ok b.schedule)
    (he : b.store.entries = []) : b.Orderly := by
  have hslots : b.schedule.slots = [] := by
    unfold Schedule.create at hs
    split at hs
    · cases hs
    · rw [← Except.ok.inj hs]
  exact ⟨by simp [Lockstep, Store.steps, Schedule.steps, he, hslots], by
    simp [Slot.Ascending, hslots]⟩

theorem Orderly.ne_of_mem_entries (h : b.Orderly) (hn : step ∉ b.schedule.steps) {entry : Int × α}
    (he : entry ∈ b.store.entries) : entry.1 ≠ step := by
  rintro rfl
  exact hn (h.lockstep ▸ List.mem_map_of_mem he)

inductive Releases (b : Bench α) (step : Int) : Except Fault Unit × Bench α → Prop
  | refused (h : step ∉ b.schedule.steps) : Releases b step (.error (.retiredNotHeld step), b)
  | released (c : Bench α) (h : step ∈ b.schedule.steps) (hc : c.Orderly)
    (hentries : ∀ entry ∈ c.store.entries, entry ∈ b.store.entries)
    (hdevice : c.store.device = b.store.device) : Releases b step (.ok (), c)

/-- What an offer may come to, if the store keeps the state as `kept`. -/
inductive Offers (b : Bench α) (step : Int) (kept : α) : Except Fault Bool × Bench α → Prop
  | invalid (h : step < 0 ∨ step = noStep) : Offers b step kept (.error (.invalidStep step), b)
  | held (h : step ∈ b.schedule.steps) : Offers b step kept (.error (.alreadyHeld step), b)
  | dropped (c : Bench α) (h : 0 ≤ step ∧ step ≠ noStep ∧ step ∉ b.schedule.steps)
    (hc : c.Orderly) (hstore : c.store = b.store) : Offers b step kept (.ok false, c)
  | taken (c : Bench α) (h : 0 ≤ step ∧ step ≠ noStep ∧ step ∉ b.schedule.steps) (hc : c.Orderly)
    (hmem : step ∈ c.store.steps)
    (hentries : ∀ entry ∈ c.store.entries, entry = (step, kept) ∨ entry ∈ b.store.entries)
    (hdevice : c.store.device = b.store.device) : Offers b step kept (.ok true, c)

theorem Releases.refused_iff {p : Except Fault Unit × Bench α} (h : b.Releases step p) :
    (∃ fault d, p = (.error fault, d)) ↔ step ∉ b.schedule.steps := by
  cases h with
  | refused hn => exact ⟨fun _ => hn, fun _ => ⟨_, b, rfl⟩⟩
  | released c hm => simp [hm]

theorem Releases.eq_of_refused {fault : Fault} (h : b.Releases step (.error fault, c)) :
    c = b ∧ fault = .retiredNotHeld step := by
  cases h
  exact ⟨rfl, rfl⟩

theorem Offers.refused_iff {kept : α} {p : Except Fault Bool × Bench α}
    (h : b.Offers step kept p) : (∃ fault d, p = (.error fault, d)) ↔
      step < 0 ∨ step = noStep ∨ step ∈ b.schedule.steps := by
  cases h with
  | invalid hi => exact ⟨fun _ => hi.elim .inl fun hn => .inr (.inl hn), fun _ => ⟨_, b, rfl⟩⟩
  | held hm => exact ⟨fun _ => .inr (.inr hm), fun _ => ⟨_, b, rfl⟩⟩
  | dropped c hnew => simp [hnew]
  | taken c hnew => simp [hnew]

theorem Offers.eq_of_refused {kept : α} {fault : Fault}
    (h : b.Offers step kept (.error fault, c)) :
    c = b ∧ ((step < 0 ∨ step = noStep) ∧ fault = .invalidStep step ∨
      step ∈ b.schedule.steps ∧ fault = .alreadyHeld step) := by
  cases h with
  | invalid hi => exact ⟨rfl, .inl ⟨hi, rfl⟩⟩
  | held hm => exact ⟨rfl, .inr ⟨hm, rfl⟩⟩

theorem Offers.taken_iff (hb : b.Orderly) {kept : α} {taken : Bool}
    (h : b.Offers step kept (.ok taken, c)) : taken = true ↔ step ∈ c.store.steps := by
  cases h with
  | dropped _ hnew _ hstore =>
    rw [hstore, hb.lockstep]
    simp [hnew]
  | taken _ _ _ hmem => simp [hmem]

theorem Orderly.releases (h : b.Orderly) (step : Int) : b.Releases step (b.release step) := by
  by_cases hmem : step ∈ b.schedule.steps
  · obtain ⟨slot, hslot, rfl⟩ := List.mem_map.mp hmem
    obtain ⟨c, hc, hg⟩ := exists_release_eq_ok h.lockstep h.ascending hslot
    have hascending : Slot.Ascending c.schedule.slots := by
      rw [hg.schedule, Schedule.remove_of_mem h.ascending hslot]
      split
      · exact h.ascending
      · exact h.ascending.sublist List.eraseP_sublist
    rw [hc]
    exact .released c hmem ⟨hg.lockstep, hascending⟩ hg.mem_entries hg.device
  · have hrefused : b.release step = (.error (.retiredNotHeld step), b) := by
      rw [release, Schedule.remove_of_notMem hmem]
      rfl
    rw [hrefused]
    exact .refused hmem

variable [Movable α]

theorem Orderly.offers (h : b.Orderly) (step : Int) {state kept : α}
    (hk : b.store.settle state = .ok kept) : b.Offers step kept (b.offer step state) := by
  by_cases hvalid : step < 0 ∨ step = noStep
  · have hrefused : b.offer step state = (.error (.invalidStep step), b) := by
      rw [offer, Schedule.offer, if_pos hvalid]
      rfl
    rw [hrefused]
    exact .invalid hvalid
  by_cases hmem : step ∈ b.schedule.steps
  · have hrefused : b.offer step state = (.error (.alreadyHeld step), b) := by
      rw [offer, Schedule.offer, if_neg hvalid, if_pos (Schedule.holds_iff.mpr hmem)]
      rfl
    rw [hrefused]
    exact .held hmem
  -- past both checks the schedule decides, and the store can follow it
  obtain ⟨admission, s, ho⟩ :=
    Schedule.exists_offer_eq_ok (by omega) (fun he => hvalid (.inr he)) hmem
  obtain ⟨hnew, hadmits, _⟩ := Schedule.offer_eq_ok ho
  have hascending := hadmits.ascending h.ascending hmem
  by_cases hdropped : admission = .dropped
  · subst hdropped
    have hslots : s.slots = b.schedule.slots := by
      generalize s.slots = slots at hadmits
      cases hadmits
      rfl
    have hdrop : b.offer step state = (.ok false, b.withSchedule s) := by
      rw [offer, ho]
    have hlock : (b.withSchedule s).Lockstep := by
      rw [Lockstep, Schedule.steps]
      exact hslots ▸ h.lockstep
    rw [hdrop]
    exact .dropped _ hnew ⟨hlock, hascending⟩ rfl
  · obtain ⟨c, hc, rfl, ht⟩ := exists_offer_eq_ok h.lockstep h.ascending ho hdropped hk
    have hheld : step ∈ c.store.steps := by
      rw [ht.lockstep]
      exact Schedule.holds_iff.mp (holds_of_offer hc)
    rw [hc]
    exact .taken c hnew ⟨ht.lockstep, hascending⟩ hheld ht.mem_entries ht.device

/-- A bench that comes after another one: a state that is resident was given in between, or it was
resident before. -/
structure Follows (b c : Bench α) (given : Int → Option (Bool × α)) : Prop where
  orderly : c.Orderly
  device : c.store.device = b.store.device
  entries : ∀ entry ∈ c.store.entries,
    (∃ state, given entry.1 = some (true, state) ∧ b.store.settle state = .ok entry.2) ∨
      given entry.1 = none ∧ entry ∈ b.store.entries

theorem Orderly.turn (h : b.Orderly) {turn : Turn α} (hfits : turn.Fits b.store) :
    b.Follows (b.perform turn.request).2 (turn.given b) := by
  cases turn with
  | offer step state =>
    obtain ⟨kept, hk⟩ := hfits
    change b.Follows (b.offer step state).2 fun s =>
      if step = s then (b.offer step state).1.toOption.map (·, state) else none
    have ho := h.offers step hk
    generalize b.offer step state = p at ho
    cases ho with
    | invalid => exact ⟨h, rfl, fun entry he => .inr ⟨by simp [Except.toOption], he⟩⟩
    | held => exact ⟨h, rfl, fun entry he => .inr ⟨by simp [Except.toOption], he⟩⟩
    | dropped c hnew hc hstore =>
      refine ⟨hc, congrArg _ hstore, fun entry he => .inr ⟨if_neg ?_, hstore ▸ he⟩⟩
      exact (h.ne_of_mem_entries hnew.2.2 (hstore ▸ he)).symm
    | taken c hnew hc _ hentries hdevice =>
      refine ⟨hc, hdevice, fun entry he => ?_⟩
      rcases hentries entry he with rfl | hbefore
      · exact .inl ⟨state, if_pos rfl, hk⟩
      · exact .inr ⟨if_neg (h.ne_of_mem_entries hnew.2.2 hbefore).symm, hbefore⟩
  | release step =>
    change b.Follows (b.release step).2 _
    have hr := h.releases step
    generalize b.release step = p at hr
    cases hr with
    | refused => exact ⟨h, rfl, fun entry he => .inr ⟨rfl, he⟩⟩
    | released c _ hc hentries hdevice =>
      exact ⟨hc, hdevice, fun entry he => .inr ⟨rfl, hentries entry he⟩⟩

theorem Orderly.turns (h : b.Orderly) {turns : List (Turn α)}
    (hfits : ∀ turn ∈ turns, turn.Fits b.store) :
    b.Follows (b.after (turns.map Turn.request)) (b.lastGiven · turns) := by
  induction turns generalizing b with
  | nil => exact ⟨h, rfl, fun entry he => .inr ⟨rfl, he⟩⟩
  | cons turn turns ih =>
    obtain ⟨horderly, hdevice, hentries⟩ := h.turn (hfits turn (by simp))
    obtain ⟨horderly', hdevice', hentries'⟩ := ih horderly fun turn ht =>
      (hfits turn (by simp [ht])).of_device_eq hdevice
    refine ⟨horderly', hdevice'.trans hdevice, fun entry he => ?_⟩
    -- given by a later turn, or else by this one or before it
    rcases hentries' entry he with ⟨state, hgiven, hsettle⟩ | ⟨hnone, hbefore⟩
    · refine .inl ⟨state, by simp [lastGiven, hgiven], ?_⟩
      rwa [Store.settle_of_device_eq hdevice] at hsettle
    · simpa [lastGiven, hnone] using hentries entry hbefore

/-- However offers and releases follow each other, refused ones among them, schedule and store hold
the same steps, each with the state that was given last for it. An offer is refused just for a step
that is invalid or held, and tells otherwise whether its step is resident afterwards; a release is
refused just for a step that is not held. What is refused changes nothing. -/
theorem lockstep_of_turns {budget : Number} (hs : Schedule.create budget = .ok b.schedule)
    (he : b.store.entries = []) {turns : List (Turn α)}
    (hfits : ∀ turn ∈ turns, turn.Fits b.store) (hc : b.after (turns.map Turn.request) = c) :
    c.store.steps = c.schedule.steps ∧
      (∀ entry ∈ c.store.entries, ∃ state,
        b.lastGiven entry.1 turns = some (true, state) ∧ b.store.settle state = .ok entry.2) ∧
      (∀ step state, (Turn.offer step state).Fits b.store →
        ((∃ fault d, c.offer step state = (.error fault, d)) ↔
          step < 0 ∨ step = noStep ∨ step ∈ c.schedule.steps) ∧
        (∀ fault d, c.offer step state = (.error fault, d) →
          d = c ∧ ((step < 0 ∨ step = noStep) ∧ fault = .invalidStep step ∨
            step ∈ c.schedule.steps ∧ fault = .alreadyHeld step)) ∧
        ∀ taken d, c.offer step state = (.ok taken, d) →
          (taken = true ↔ step ∈ d.store.steps)) ∧
      ∀ step,
        ((∃ fault d, c.release step = (.error fault, d)) ↔ step ∉ c.schedule.steps) ∧
        ∀ fault d, c.release step = (.error fault, d) →
          d = c ∧ fault = .retiredNotHeld step := by
  obtain ⟨horderly, hdevice, hentries⟩ := hc ▸ (orderly_of_create hs he).turns hfits
  refine ⟨horderly.lockstep, fun entry hm => ?_, fun step state hfit => ?_, fun step => ?_⟩
  · rcases hentries entry hm with hgiven | ⟨_, hbefore⟩
    · exact hgiven
    · simp [he] at hbefore
  · obtain ⟨kept, hk⟩ := hfit.of_device_eq hdevice
    have hoffers := horderly.offers step hk
    exact ⟨hoffers.refused_iff, fun fault d hd => (hd ▸ hoffers).eq_of_refused,
      fun taken d hd => (hd ▸ hoffers).taken_iff horderly⟩
  · have hreleases := horderly.releases step
    exact ⟨hreleases.refused_iff, fun fault d hd => (hd ▸ hreleases).eq_of_refused⟩

def narrow : Bench (Placed Nat) := ⟨.ofBudget 1, {}, none, 0⟩

theorem lockstep_of_turns_narrow :
    let turns : List (Turn (Placed Nat)) :=
      [.offer 5 (.data 50), .offer 5 (.data 51), .release 9, .offer 2 (.data 20),
        .offer (-1) (.data 10)]
    let c := narrow.after (turns.map Turn.request)
    c.store.steps = c.schedule.steps ∧ c.store.entries = [(2, .data 20)] ∧
      (∃ state, narrow.lastGiven 2 turns = some (true, state) ∧
        narrow.store.settle state = .ok (.data 20)) ∧
      ∃ fault d, c.release 5 = (.error fault, d) := by
  intro turns c
  have hfits : ∀ turn ∈ turns, turn.Fits narrow.store :=
    fun turn _ => turn.fits_of_no_device rfl
  obtain ⟨hlock, hgiven, _, hreleases⟩ :=
    lockstep_of_turns (show Schedule.create (.whole 1) = .ok narrow.schedule from rfl) rfl hfits rfl
  have hentries : c.store.entries = [(2, .data 20)] := rfl
  have hmem : (2, .data 20) ∈ c.store.entries := hentries ▸ List.mem_singleton_self _
  have hsteps : 5 ∉ c.schedule.steps := by
    rw [← hlock, Store.steps, hentries]
    decide
  exact ⟨hlock, hentries, hgiven _ hmem, (hreleases 5).1.mpr hsteps⟩

end Bench
end ReverseSweep
