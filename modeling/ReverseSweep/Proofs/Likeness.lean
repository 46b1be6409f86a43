import ReverseSweep.Proofs.Beside
import ReverseSweep.Proofs.Interventions
import ReverseSweep.Proofs.Setup

/-! Sweeps that are alike. Two sides agree on what the one can tell of the other, each call and each
change of the bench keeps that, and so does the whole sweep. -/

namespace ReverseSweep

variable {ω ω' α α' ε ε' β β' : Type}

namespace Bench

variable {b c : Bench α} {budget step : Int} {y : α}

/-- A schedule that is sound, and a store with the same steps. -/
structure Tidy (budget : Int) (b : Bench α) : Prop where
  sound : b.schedule.Sound budget
  lockstep : b.Lockstep

theorem Tidy.of_eq (h : b.Tidy budget) (hs : c.schedule = b.schedule) (ht : c.store = b.store) :
    c.Tidy budget := by
  refine ⟨hs ▸ h.sound, ?_⟩
  rw [Lockstep, hs, ht]
  exact h.lockstep

theorem Tidy.nonneg_of_latest (h : b.Tidy budget) {last : Int}
    (hl : b.schedule.latest? = some last) : 0 ≤ last := by
  obtain ⟨slot, hm, rfl⟩ := List.mem_map.mp (Schedule.latest?_eq_some_iff.mp hl).1
  exact (h.sound.valid slot hm).1

variable [Movable α]

theorem Reaches.sound (h : b.Reaches c) (hb : b.schedule.Sound budget) :
    c.schedule.Sound budget := by
  obtain ⟨history, hs⟩ := h.schedule
  rw [hs]
  exact (Schedule.Sound.lasting budget).after history hb

theorem exists_settle_of_put {result : Unit} (h : b.put step y = (.ok result, c)) :
    ∃ kept, b.store.settle y = .ok kept ∧ c = b.withStore (b.store.insert step kept) := by
  unfold put Store.put at h
  cases hs : b.store.settle y with
  | error fault => simp [hs, Except.map] at h
  | ok kept =>
    simp only [hs, Except.map, Prod.mk.injEq] at h
    exact ⟨kept, rfl, h.2.symm⟩

theorem exists_settle_of_putOffered {taken : Bool} (h : b.putOffered step y = (.ok taken, c)) :
    ∃ kept, b.store.settle y = .ok kept := by
  unfold putOffered at h
  split at h
  · cases h
  · rename_i hput
    obtain ⟨kept, hkept, _⟩ := exists_settle_of_put hput
    exact ⟨kept, hkept⟩

/-- An offer that is not refused leaves both sides with the same steps, also where the step is
dropped. -/
theorem Lockstep.of_offer (hl : b.Lockstep) (ha : Slot.Ascending b.schedule.slots) {taken : Bool}
    (h : b.offer step y = (.ok taken, c)) : c.Lockstep := by
  rcases ho : b.schedule.offer step with ⟨fault | admission, s⟩
  · simp [offer, ho] at h
  by_cases hd : admission = .dropped
  · subst hd
    obtain rfl : b.withSchedule s = c := by
      simp only [offer, ho, Prod.mk.injEq] at h
      exact h.2
    obtain ⟨_, hadmits, _⟩ := Schedule.offer_eq_ok ho
    have hslots : s.slots = b.schedule.slots := by
      generalize s.slots = slots at hadmits
      cases hadmits
      rfl
    rw [Lockstep, Schedule.steps, show (b.withSchedule s).schedule = s from rfl, hslots]
    exact hl
  have hsettle : ∃ kept, b.store.settle y = .ok kept := by
    cases admission with
    | dropped => exact absurd rfl hd
    | kept =>
      simp only [offer, ho] at h
      obtain ⟨kept, hkept⟩ := exists_settle_of_putOffered h
      exact ⟨kept, hkept⟩
    | evicted old =>
      simp only [offer, ho] at h
      split at h
      · cases h
      · rename_i store hdiscard
        obtain ⟨kept, hkept⟩ := exists_settle_of_putOffered h
        refine ⟨kept, (Store.settle_of_device_eq ?_ y).trans hkept⟩
        unfold Store.discard at hdiscard
        split at hdiscard <;> cases hdiscard
        rfl
  obtain ⟨kept, hkept⟩ := hsettle
  obtain ⟨c', hc', _, htakes⟩ := exists_offer_eq_ok hl ha ho hd hkept
  obtain rfl : c' = c := congrArg Prod.snd (hc'.symm.trans h)
  exact htakes.lockstep

theorem Tidy.offer (h : b.Tidy budget) {taken : Bool}
    (ho : b.offer step y = (.ok taken, c)) : c.Tidy budget := by
  have hreaches := b.reaches_offer step y
  rw [ho] at hreaches
  exact ⟨hreaches.sound h.sound, h.lockstep.of_offer h.sound.ascending ho⟩

theorem Tidy.offerAgain (h : b.Tidy budget) {result : Unit}
    (ho : b.offerAgain step y = (.ok result, c)) : c.Tidy budget := by
  unfold Bench.offerAgain at ho
  split at ho
  · rename_i d hd
    cases ho
    have hkept := h.offer hd
    exact ⟨(Schedule.Sound.lasting budget).counters _ _ hkept.sound, hkept.lockstep⟩
  · cases ho
  · cases ho

theorem Tidy.keep (h : b.Tidy budget) {result : Unit}
    (hk : b.keep step y = (.ok result, c)) : c.Tidy budget := by
  have hreaches := b.reaches_keep step y
  rw [hk] at hreaches
  refine ⟨hreaches.sound h.sound, ?_⟩
  have ho := b.schedule.offered step true
  unfold Bench.keep at hk
  generalize b.schedule.offer step true = offered at ho hk
  cases ho with
  | invalid => cases hk
  | held => cases hk
  | overfull => cases hk
  | admitted admission slots hnew hadmits =>
    obtain ⟨kept, _, rfl⟩ := exists_settle_of_put hk
    have hroom := h.sound.above_roomFor
    cases hadmits with
    | kept => exact @Store.steps_insertEntry α _ _ ⟨step, true⟩ h.lockstep hnew.2.2 kept
    | evicted hfull => cases hroom.symm.trans hfull
    | dropped hfull => cases hroom.symm.trans hfull

omit [Movable α] in
theorem Lockstep.of_release (hl : b.Lockstep) (ha : Slot.Ascending b.schedule.slots)
    {result : Unit} (h : b.release step = (.ok result, c)) : c.Lockstep := by
  by_cases hm : step ∈ b.schedule.steps
  · obtain ⟨slot, hslot, rfl⟩ := List.mem_map.mp hm
    obtain ⟨c', hc', hgives⟩ := exists_release_eq_ok hl ha hslot
    obtain rfl : c' = c := congrArg Prod.snd (hc'.symm.trans h)
    exact hgives.lockstep
  · simp [release, Schedule.remove_of_notMem hm] at h

theorem Tidy.release (h : b.Tidy budget) {result : Unit}
    (hr : b.release step = (.ok result, c)) : c.Tidy budget := by
  have hreaches := b.reaches_release step
  rw [hr] at hreaches
  exact ⟨hreaches.sound h.sound, h.lockstep.of_release h.sound.ascending hr⟩

end Bench

/-- The callbacks leave schedule and store alone. They may fail. -/
structure Callbacks.Bystands (cb : Callbacks ω α ε) : Prop where
  update : ∀ (n : Nat) y w b, (cb.update n y w b).2.2.schedule = b.schedule ∧
    (cb.update n y w b).2.2.store = b.store
  reverse : ∀ (n : Nat) y w b, (cb.reverse n y w b).2.2.schedule = b.schedule ∧
    (cb.reverse n y w b).2.2.store = b.store

theorem Callbacks.Follows.bystands {cb : Callbacks ω α ε} {next : Nat → α → α → Prop}
    (h : cb.Follows next) : cb.Bystands where
  update := by
    intro n y w b
    obtain ⟨z, w', b', hu, _, hsame⟩ := h.update n y w b
    rw [hu]
    exact hsame
  reverse := by
    intro n y w b
    obtain ⟨w', b', hu, hsame⟩ := h.reverse n y w b
    rw [hu]
    exact hsame

/-- How two sweeps may be alike: in their states, their benches, their worlds, the failures of their
callbacks and the number of rows that they have logged. -/
structure Likeness (ω ω' α α' ε ε' : Type) where
  state : α → α' → Prop
  bench : Bench α → Bench α' → Prop
  world : ω → ω' → Prop
  failure : ε → ε' → Prop
  logged : Nat → Nat → Prop

namespace Likeness

variable (L : Likeness ω ω' α α' ε ε')

structure Calls (call : Call α) (call' : Call α') : Prop where
  kind : call.kind = call'.kind
  step : call.step = call'.step
  state : L.state call.state call'.state
  bench : L.bench call.bench call'.bench

structure Runs (r : Run ω α) (r' : Run ω' α') : Prop where
  world : L.world r.world r'.world
  bench : L.bench r.bench r'.bench
  calls : List.Forall₂ L.Calls r.latestCalls r'.latestCalls
  logged : L.logged r.logged r'.logged

/-- Runs that are alike, between two calls or changes of the bench. -/
structure Stands (budget : Int) (r : Run ω α) (r' : Run ω' α') : Prop where
  runs : L.Runs r r'
  tidy : r.bench.Tidy budget

inductive Stops : Stop ε → Stop ε' → Prop
  | fault (f : Fault) : Stops (.fault f) (.fault f)
  | callback {e : ε} {e' : ε'} (h : L.failure e e') : Stops (.callback e) (.callback e')

def Halts (e : Stop ε) (e' : Stop ε') (r : Run ω α) (r' : Run ω' α') : Prop :=
  L.Stops e e' ∧ L.Runs r r'

/-- The ends of two sweeps: states that are alike, or stops that are. -/
def Closes (budget : Int) :
    Except (Stop ε) α × Run ω α → Except (Stop ε') α' × Run ω' α' → Prop :=
  Sweep.BothEnd (fun z z' r r' => L.state z z' ∧ L.Stands budget r r') L.Halts

/-- What the benches answer: values that correspond, or the same refusal. -/
inductive Answers (V : β → β' → Prop) :
    Except Fault β × Bench α → Except Fault β' × Bench α' → Prop
  | ok {a : β} {a' : β'} {b : Bench α} {b' : Bench α'} (hv : V a a') (hb : L.bench b b') :
      Answers V (.ok a, b) (.ok a', b')
  | error (fault : Fault) {b : Bench α} {b' : Bench α'} (hb : L.bench b b') :
      Answers V (.error fault, b) (.error fault, b')

/-- What two callbacks come to: values that correspond, or failures that do. -/
inductive Replies (V : β → β' → Prop) :
    Except ε β × ω × Bench α → Except ε' β' × ω' × Bench α' → Prop
  | ok {a : β} {a' : β'} {w : ω} {w' : ω'} {b : Bench α} {b' : Bench α'} (hv : V a a')
      (hw : L.world w w') (hb : L.bench b b') : Replies V (.ok a, w, b) (.ok a', w', b')
  | error {e : ε} {e' : ε'} {w : ω} {w' : ω'} {b : Bench α} {b' : Bench α'}
      (he : L.failure e e') (hw : L.world w w') (hb : L.bench b b') :
      Replies V (.error e, w, b) (.error e', w', b')

/-- In worlds and benches that are alike the callbacks come to the same. -/
structure Pairs (cb : Callbacks ω α ε) (cb' : Callbacks ω' α' ε') : Prop where
  update : ∀ (n : Nat) y y' w w' b b', L.state y y' → L.world w w' → L.bench b b' →
    L.Replies L.state (cb.update n y w b) (cb'.update n y' w' b')
  reverse : ∀ (n : Nat) y y' w w' b b', L.state y y' → L.world w w' → L.bench b b' →
    L.Replies (fun _ _ => True) (cb.reverse n y w b) (cb'.reverse n y' w' b')

def counts : List (Journal → Journal) :=
  [Journal.recordForward, Journal.recordRecomputed, Journal.recordReverse]

/-- What a sweep does to its bench it does alike on both sides. -/
structure Lawful [Movable α] [Movable α'] : Prop where
  latest : ∀ b b', L.bench b b' → b'.schedule.latest? = b.schedule.latest?
  lockstep : ∀ b b', L.bench b b' → b.Lockstep → b'.Lockstep
  keep : ∀ step b b' y y', L.bench b b' → L.state y y' →
    L.Answers (fun _ _ => True) (b.keep step y) (b'.keep step y')
  offer : ∀ step b b' y y', L.bench b b' → L.state y y' →
    L.Answers (· = ·) (b.offer step y) (b'.offer step y')
  counted : ∀ b b', L.bench b b' → L.bench (b.withSchedule b.schedule.countRecomputation)
    (b'.withSchedule b'.schedule.countRecomputation)
  get : ∀ step b b', L.bench b b' →
    L.Answers L.state (b.store.get step, b) (b'.store.get step, b')
  release : ∀ step b b', L.bench b b' →
    L.Answers (fun _ _ => True) (b.release step) (b'.release step)
  record : ∀ f ∈ counts, ∀ b b', L.bench b b' → L.bench (b.mapJournal f) (b'.mapJournal f)
  logRow : ∀ phase step (r : Run ω α) (r' : Run ω' α'), L.bench r.bench r'.bench →
    L.logged r.logged r'.logged →
    L.bench (r.logRow phase step).bench (r'.logRow phase step).bench ∧
      L.logged (r.logRow phase step).logged (r'.logRow phase step).logged

end Likeness

namespace Run

theorem world_logRow (r : Run ω α) (phase : String) (step : Int) :
    (r.logRow phase step).world = r.world := by
  unfold logRow
  split <;> rfl

theorem latestCalls_logRow (r : Run ω α) (phase : String) (step : Int) :
    (r.logRow phase step).latestCalls = r.latestCalls := by
  unfold logRow
  split <;> rfl

theorem schedule_logRow (r : Run ω α) (phase : String) (step : Int) :
    (r.logRow phase step).bench.schedule = r.bench.schedule := by
  unfold logRow
  split <;> rfl

theorem store_logRow (r : Run ω α) (phase : String) (step : Int) :
    (r.logRow phase step).bench.store = r.bench.store := by
  unfold logRow
  split <;> rfl

end Run

namespace Likeness

open Sweep

variable {L : Likeness ω ω' α α' ε ε'} {budget : Int} {V : β → β' → Prop}

theorem relates_onBench {f : Bench α → Except Fault β × Bench α}
    {f' : Bench α' → Except Fault β' × Bench α'}
    (hf : ∀ b b', L.bench b b' → L.Answers V (f b) (f' b'))
    (htidy : ∀ b a c, b.Tidy budget → f b = (.ok a, c) → c.Tidy budget) :
    Relates (L.Stands budget) (onBench f : Sweep ω α ε β) (onBench f' : Sweep ω' α' ε' β')
      (fun a a' r r' => V a a' ∧ L.Stands budget r r') L.Halts := by
  rintro r r' ⟨hr, ht⟩
  have hanswers := hf _ _ hr.bench
  have htidied := htidy r.bench
  simp only [onBench]
  generalize f r.bench = p at hanswers htidied
  generalize f' r'.bench = p' at hanswers
  cases hanswers with
  | ok hv hb => exact .ok ⟨hv, ⟨hr.world, hb, hr.calls, hr.logged⟩, htidied _ _ ht rfl⟩
  | error fault hb => exact .error ⟨.fault fault, hr.world, hb, hr.calls, hr.logged⟩

theorem relates_callback {kind : CallKind} {n : Int} {y : α} {y' : α'} (hy : L.state y y')
    {f : ω → Bench α → Except ε β × ω × Bench α}
    {f' : ω' → Bench α' → Except ε' β' × ω' × Bench α'}
    (hf : ∀ w w' b b', L.world w w' → L.bench b b' → L.Replies V (f w b) (f' w' b'))
    (halone : ∀ w b, (f w b).2.2.schedule = b.schedule ∧ (f w b).2.2.store = b.store) :
    Relates (L.Stands budget) (callback kind n y f) (callback kind n y' f')
      (fun a a' r r' => V a a' ∧ L.Stands budget r r') L.Halts := by
  rintro r r' ⟨hr, ht⟩
  have hreplies := hf _ _ _ _ hr.world hr.bench
  have hsame := halone r.world r.bench
  have hcalls : List.Forall₂ L.Calls (⟨kind, n, y, r.bench⟩ :: r.latestCalls)
      (⟨kind, n, y', r'.bench⟩ :: r'.latestCalls) := .cons ⟨rfl, rfl, hy, hr.bench⟩ hr.calls
  simp only [callback]
  generalize f r.world r.bench = p at hreplies hsame
  generalize f' r'.world r'.bench = p' at hreplies
  cases hreplies with
  | ok hv hw hb => exact .ok ⟨hv, ⟨hw, hb, hcalls, hr.logged⟩, ht.of_eq hsame.1 hsame.2⟩
  | error he hw hb => exact .error ⟨.callback he, hw, hb, hcalls, hr.logged⟩

variable [Movable α] [Movable α'] {cb : Callbacks ω α ε} {cb' : Callbacks ω' α' ε'}
  {verify verify' : Bool} {y : α} {y' : α'}

theorem Lawful.offerAgain (hL : L.Lawful) (step : Int) (b : Bench α) (b' : Bench α')
    (hb : L.bench b b') (hy : L.state y y') :
    L.Answers (fun _ _ => True) (b.offerAgain step y) (b'.offerAgain step y') := by
  have hanswers := hL.offer step b b' y y' hb hy
  unfold Bench.offerAgain
  generalize b.offer step y = p at hanswers
  generalize b'.offer step y' = p' at hanswers
  cases hanswers with
  | @ok taken _ c c' hv hc =>
    subst hv
    cases taken with
    | false => exact .error _ hc
    | true => exact .ok trivial (hL.counted c c' hc)
  | error fault hc => exact .error fault hc

theorem relates_verified (hL : L.Lawful) :
    Relates (L.Stands budget) (verified verify : Sweep ω α ε Unit)
      (verified verify' : Sweep ω' α' ε' Unit) (fun _ _ => L.Stands budget) L.Halts :=
  Relates.verified fun _ _ hr =>
    ⟨hr.tidy.lockstep, hL.lockstep _ _ hr.runs.bench hr.tidy.lockstep⟩

theorem relates_record (hL : L.Lawful) {f : Journal → Journal} (hf : f ∈ counts) :
    Relates (L.Stands budget) (changeBench fun b => b.mapJournal f : Sweep ω α ε Unit)
      (changeBench fun b => b.mapJournal f : Sweep ω' α' ε' Unit)
      (fun _ _ => L.Stands budget) L.Halts :=
  fun _ _ hr => .ok ⟨⟨hr.runs.world, hL.record f hf _ _ hr.runs.bench, hr.runs.calls,
    hr.runs.logged⟩, hr.tidy.of_eq rfl rfl⟩

theorem relates_logIfDue (hL : L.Lawful) (phase : String) (step : Int) :
    Relates (L.Stands budget) (logIfDue phase step : Sweep ω α ε Unit)
      (logIfDue phase step : Sweep ω' α' ε' Unit) (fun _ _ => L.Stands budget) L.Halts := by
  refine Relates.logIfDue fun r r' hr => ⟨⟨?_, ?_, ?_, ?_⟩, ?_⟩
  · rw [r.world_logRow, r'.world_logRow]
    exact hr.runs.world
  · exact (hL.logRow phase step r r' hr.runs.bench hr.runs.logged).1
  · rw [r.latestCalls_logRow, r'.latestCalls_logRow]
    exact hr.runs.calls
  · exact (hL.logRow phase step r r' hr.runs.bench hr.runs.logged).2
  · exact hr.tidy.of_eq (r.schedule_logRow phase step) (r.store_logRow phase step)

theorem relates_start (hL : L.Lawful) (hy : L.state y y') :
    Relates (L.Stands budget) (start verify y : Sweep ω α ε Unit)
      (start verify' y' : Sweep ω' α' ε' Unit) (fun _ _ => L.Stands budget) L.Halts := by
  have hkeep (b : Bench α) (b' : Bench α') (hb : L.bench b b') := hL.keep 0 b b' y y' hb hy
  refine (relates_onBench hkeep fun _ _ _ ht => ht.keep).andThen fun _ _ => ?_
  exact (relates_verified hL).mono (fun _ _ hr => hr.2) fun _ _ _ _ h => h

omit [Movable α] [Movable α'] in
theorem relates_update (hcb : L.Pairs cb cb') (halone : cb.Bystands) (n : Nat)
    (hy : L.state y y') :
    Relates (L.Stands budget) (update cb n y) (update cb' n y')
      (fun z z' r r' => L.state z z' ∧ L.Stands budget r r') L.Halts :=
  relates_callback hy (fun w w' b b' => hcb.update n y y' w w' b b' hy) (halone.update n y)

omit [Movable α] [Movable α'] in
theorem relates_reverse (hcb : L.Pairs cb cb') (halone : cb.Bystands) (n : Nat)
    (hy : L.state y y') :
    Relates (L.Stands budget) (reverse cb n y) (reverse cb' n y')
      (fun _ _ r r' => True ∧ L.Stands budget r r') L.Halts :=
  relates_callback hy (fun w w' b b' => hcb.reverse n y y' w w' b b' hy) (halone.reverse n y)

theorem relates_forward (hL : L.Lawful) (hcb : L.Pairs cb cb') (halone : cb.Bystands) (n : Nat)
    (hy : L.state y y') :
    Relates (L.Stands budget) (forward cb verify n y) (forward cb' verify' n y')
      (fun z z' r r' => L.state z z' ∧ L.Stands budget r r') L.Halts := by
  refine (relates_update hcb halone n hy).andThen fun z z' => Relates.of_and fun hz => ?_
  have hoffer (b : Bench α) (b' : Bench α') (hb : L.bench b b') :=
    hL.offer (n + 1) b b' z z' hb hz
  refine (relates_onBench hoffer fun _ _ _ ht => ht.offer).andThen fun _ _ => ?_
  refine Relates.of_and fun _ => ?_
  refine (relates_verified hL).andThen fun _ _ => ?_
  refine (relates_record hL (by simp [counts])).andThen fun _ _ => ?_
  exact (relates_logIfDue hL _ _).andThen fun _ _ => Relates.done fun _ _ hr => ⟨hz, hr⟩

theorem relates_get (hL : L.Lawful) (step : Int) :
    Relates (L.Stands budget) (onBench fun b => (b.store.get step, b) : Sweep ω α ε α)
      (onBench fun b => (b.store.get step, b) : Sweep ω' α' ε' α')
      (fun y y' r r' => L.state y y' ∧ L.Stands budget r r') L.Halts := by
  refine relates_onBench (hL.get step) fun b y c ht hc => ?_
  obtain rfl : b = c := (Prod.mk.inj hc).2
  exact ht

theorem relates_recompute (hL : L.Lawful) (hcb : L.Pairs cb cb') (halone : cb.Bystands)
    (n : Nat) :
    Relates (L.Stands budget) (recompute cb verify n) (recompute cb' verify' n)
      (fun _ _ => L.Stands budget) L.Halts := by
  refine (relates_get hL n).andThen fun y y' => Relates.of_and fun hy => ?_
  refine (relates_update hcb halone n hy).andThen fun z z' => Relates.of_and fun hz => ?_
  have hoffer (b : Bench α) (b' : Bench α') (hb : L.bench b b') :=
    hL.offerAgain (n + 1) b b' hb hz
  refine (relates_onBench hoffer fun _ _ _ ht => ht.offerAgain).andThen fun _ _ => ?_
  refine Relates.of_and fun _ => ?_
  exact (relates_verified hL).andThen fun _ _ => relates_record hL (by simp [counts])

theorem relates_reach (hL : L.Lawful) (hcb : L.Pairs cb cb') (halone : cb.Bystands)
    (target : Int) :
    Relates (L.Stands budget) (reach cb verify target) (reach cb' verify' target)
      (fun _ _ => L.Stands budget) L.Halts := by
  refine Relates.reach ?_ (fun _ _ hr => hL.latest _ _ hr.runs.bench)
    fun _ _ hr => ⟨.fault .emptySchedule, hr.runs⟩
  rintro last r r' ⟨hr, hlast⟩
  obtain ⟨n, rfl⟩ := Int.eq_ofNat_of_zero_le (hr.tidy.nonneg_of_latest hlast)
  exact relates_recompute hL hcb halone n r r' hr

theorem relates_stepBack (hL : L.Lawful) (hcb : L.Pairs cb cb') (halone : cb.Bystands)
    (i : Nat) :
    Relates (L.Stands budget) (stepBack cb verify i) (stepBack cb' verify' i)
      (fun _ _ => L.Stands budget) L.Halts := by
  refine (relates_reach hL hcb halone i).andThen fun _ _ => ?_
  refine (relates_get hL i).andThen fun y y' => Relates.of_and fun hy => ?_
  refine (relates_reverse hcb halone i hy).andThen fun _ _ => Relates.of_and fun _ => ?_
  refine (relates_onBench (hL.release i) fun _ _ _ ht => ht.release).andThen fun _ _ => ?_
  refine Relates.of_and fun _ => ?_
  refine (relates_verified hL).andThen fun _ _ => ?_
  exact (relates_record hL (by simp [counts])).andThen fun _ _ => relates_logIfDue hL _ _

/-- Sweeps that start alike end alike, with the same refusal if they are refused. -/
theorem relates_sweepOf (hL : L.Lawful) (hcb : L.Pairs cb cb') (halone : cb.Bystands)
    (steps : Except Fault Nat) (hy : L.state y y') :
    Relates (L.Stands budget) (sweepOf cb verify steps y) (sweepOf cb' verify' steps y')
      (fun z z' r r' => L.state z z' ∧ L.Stands budget r r') L.Halts := by
  cases steps with
  | error fault =>
    exact (relates_start hL hy).andThen fun _ _ _ _ hr => .error ⟨.fault fault, hr.runs⟩
  | ok n =>
    refine (relates_start hL hy).andThen fun _ _ => ?_
    have hforward (n : Nat) (y : α) (y' : α') (hy : L.state y y') :
        Relates (L.Stands budget) (forward cb verify n y) (forward cb' verify' n y')
          (fun z z' r r' => L.state z z' ∧ L.Stands budget r r') L.Halts :=
      relates_forward hL hcb halone n hy
    refine (Relates.advance hforward n 0 hy).andThen fun z z' => Relates.of_and fun hz => ?_
    refine (Relates.retreat (relates_stepBack hL hcb halone) n).andThen fun _ _ => ?_
    exact Relates.done fun _ _ hr => ⟨hz, hr⟩

end Likeness

namespace Setup

variable (s : Setup α) {b : Bench α}

theorem run_of_bench [Movable α] (h : s.bench = .ok b) (cb : Callbacks ω α ε) (w : ω) :
    s.run cb w = .ok (Sweep.sweepOf cb s.verify s.steps.count s.state ⟨w, b, [], 0⟩) := by
  rw [run, h, Except.map]

theorem run_of_refused [Movable α] {fault : Fault} (h : s.bench = .error fault)
    (cb : Callbacks ω α ε) (w : ω) : s.run cb w = .error fault := by
  rw [run, h, Except.map]

/-- Schedule and store are empty at first, so that they have the same steps. -/
theorem tidy_of_bench {budget : Int} (h : s.bench = .ok b) (hs : b.schedule.Sound budget) :
    b.Tidy budget := by
  obtain ⟨_, hslots, hentries⟩ := bench_eq_ok h
  refine ⟨hs, ?_⟩
  rw [Bench.Lockstep, Store.steps, Schedule.steps, hslots, hentries]
  rfl

end Setup

namespace Likeness

variable [Movable α] [Movable α'] {L : Likeness ω ω' α α' ε ε'} {cb : Callbacks ω α ε}
  {cb' : Callbacks ω' α' ε'} {s : Setup α} {s' : Setup α'} {b : Bench α} {b' : Bench α'}

theorem exists_run_closes (hL : L.Lawful) (hcb : L.Pairs cb cb') (halone : cb.Bystands)
    (hsetup : s.bench = .ok b) (hsetup' : s'.bench = .ok b') {budget : Int}
    (hsound : b.schedule.Sound budget) (hsteps : s'.steps.count = s.steps.count)
    (hy : L.state s.state s'.state) (hb : L.bench b b') (hlogged : L.logged 0 0) {w : ω} {w' : ω'}
    (hw : L.world w w') :
    ∃ p p', s.run cb w = .ok p ∧ s'.run cb' w' = .ok p' ∧ L.Closes budget p p' := by
  have hstart : L.Stands budget ⟨w, b, [], 0⟩ ⟨w', b', [], 0⟩ :=
    ⟨⟨hw, hb, .nil, hlogged⟩, s.tidy_of_bench hsetup hsound⟩
  have hrun' := s'.run_of_bench hsetup' cb' w'
  rw [hsteps] at hrun'
  exact ⟨_, _, s.run_of_bench hsetup cb w, hrun',
    relates_sweepOf hL hcb halone s.steps.count hy _ _ hstart⟩

end Likeness
end ReverseSweep
