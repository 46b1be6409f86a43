import Mathlib.Data.Option.Basic
import ReverseSweep.Proofs.Costs
import ReverseSweep.Proofs.Likeness

/-! Sweeps over states of unrelated kinds. Nothing looks at the states but the callbacks, so two
sweeps with as many steps and the same budget go the same way. -/

namespace ReverseSweep

variable {ω ω' α α' ε ε' β β' : Type}

namespace Store

theorem get_of_notMem {s : Store α} {step : Int} (h : step ∉ s.steps) :
    s.get step = .error (.notResident step) := by
  have hnone : s.entries.find? (·.1 == step) = none := by
    rw [List.find?_eq_none]
    intro entry hm he
    exact h (List.mem_map.mpr ⟨entry, hm, eq_of_beq he⟩)
  simp [get, get?, hnone]

/-- The stores have the same steps and the same counts, and take every state. -/
structure Twins [Movable α] [Movable α'] (s : Store α) (s' : Store α') : Prop where
  steps : s'.steps = s.steps
  puts : s'.puts = s.puts
  discards : s'.discards = s.discards
  settles : ∀ y, ∃ z, s.settle y = .ok z
  settles' : ∀ y, ∃ z, s'.settle y = .ok z

theorem map_insertEntry {entries : List (Int × α)} {entries' : List (Int × α')}
    (h : entries'.map (·.1) = entries.map (·.1)) (step : Int) (y : α) (y' : α') :
    (insertEntry step y' entries').map (·.1) = (insertEntry step y entries).map (·.1) := by
  induction entries generalizing entries' with
  | nil =>
    obtain rfl : entries' = [] := by simpa using h
    rfl
  | cons entry rest ih =>
    cases entries' with
    | nil => simp at h
    | cons entry' rest' =>
      obtain ⟨hstep, hrest⟩ := List.cons.inj h
      have hi := ih hrest
      simp only [insertEntry, hstep]
      split
      · simpa using h
      · split
        · simpa using hrest
        · simpa [hstep] using hi

namespace Twins

variable [Movable α] [Movable α'] {s : Store α} {s' : Store α'}

theorem size_eq (h : s.Twins s') : s'.size = s.size := by
  have hlen := congrArg List.length h.steps
  simpa [Store.steps, Store.size] using hlen

theorem holds_eq (h : s.Twins s') (step : Int) : s'.holds step = s.holds step := by
  rw [Bool.eq_iff_iff, holds_iff, holds_iff, h.steps]

theorem insert (h : s.Twins s') (step : Int) (y : α) (y' : α') :
    (s.insert step y).Twins (s'.insert step y') where
  steps := map_insertEntry h.steps step y y'
  puts := congrArg (· + 1) h.puts
  discards := h.discards
  settles := h.settles
  settles' := h.settles'

theorem discard (h : s.Twins s') (step : Int) :
    (s'.discard step).1 = (s.discard step).1 ∧ (s.discard step).2.Twins (s'.discard step).2 := by
  unfold Store.discard
  rw [h.holds_eq step]
  split
  · refine ⟨rfl, ?_, h.puts, congrArg (· + 1) h.discards, h.settles, h.settles'⟩
    have herased := congrArg (List.eraseP (· == step)) h.steps
    simpa [Store.steps, List.eraseP_map, Function.comp_def] using herased
  · exact ⟨rfl, h⟩

end Twins
end Store

/-- The cells of a row but the last one, which is the time. -/
def Row.timeless (r : Row) : List (List Char) := r.fields.dropLast

namespace Journal

/-- The journals have the same counts and rows, apart from the time. -/
structure Twins (j j' : Journal) : Prop where
  interval : j'.interval = j.interval
  forward : j'.forward = j.forward
  recomputed : j'.recomputed = j.recomputed
  reverse : j'.reverse = j.reverse
  rows : j'.latestRows.map Row.timeless = j.latestRows.map Row.timeless

variable {j j' : Journal}

theorem Twins.due_eq (h : j.Twins j') : j'.due = j.due := by
  rw [due, due, stepsMade, stepsMade, h.interval, h.forward, h.reverse]

theorem Twins.record (h : j.Twins j') {f : Journal → Journal} (hf : f ∈ Likeness.counts) :
    (f j).Twins (f j') := by
  obtain ⟨hi, hf', hc, hr, hrows⟩ := h
  simp only [Likeness.counts, List.mem_cons, List.not_mem_nil, or_false] at hf
  rcases hf with rfl | rfl | rfl
  · exact ⟨hi, congrArg (· + 1) hf', hc, hr, hrows⟩
  · exact ⟨hi, hf', congrArg (· + 1) hc, hr, hrows⟩
  · exact ⟨hi, hf', hc, congrArg (· + 1) hr, hrows⟩

theorem Twins.log (h : j.Twins j') (now now' : Float) (index : Int) (phase : String) (step : Int)
    (reported : Reported) :
    (j.log now index phase step reported).Twins (j'.log now' index phase step reported) := by
  refine ⟨h.interval, h.forward, h.recomputed, h.reverse, ?_⟩
  simp only [Journal.log, List.map_cons, h.rows, Row.timeless, Row.fields, h.forward,
    h.recomputed, h.reverse]
  rfl

end Journal

namespace Bench

/-- The benches are the same as far as they do not hold states or tell the time. -/
structure Twins [Movable α] [Movable α'] (b : Bench α) (b' : Bench α') : Prop where
  schedule : b'.schedule = b.schedule
  store : b.store.Twins b'.store
  journal : Option.Rel Journal.Twins b.journal b'.journal

namespace Twins

variable [Movable α] [Movable α'] {b : Bench α} {b' : Bench α'}

theorem withSchedule (h : b.Twins b') (s : Schedule) :
    (b.withSchedule s).Twins (b'.withSchedule s) := ⟨rfl, h.store, h.journal⟩

theorem withStore (h : b.Twins b') {store : Store α} {store' : Store α'}
    (hs : store.Twins store') : (b.withStore store).Twins (b'.withStore store') :=
  ⟨h.schedule, hs, h.journal⟩

theorem mapJournal (h : b.Twins b') {f f' : Journal → Journal}
    (hf : ∀ j j', j.Twins j' → (f j).Twins (f' j')) : (b.mapJournal f).Twins (b'.mapJournal f') := by
  refine ⟨h.schedule, h.store, ?_⟩
  have hj := h.journal
  simp only [Bench.mapJournal]
  generalize b.journal = journal at hj
  generalize b'.journal = journal' at hj
  cases hj with
  | some hj => exact .some (hf _ _ hj)
  | none => exact .none

theorem due_eq (h : b.Twins b') : b'.journal.any Journal.due = b.journal.any Journal.due := by
  have hj := h.journal
  generalize b.journal = journal at hj
  generalize b'.journal = journal' at hj
  cases hj with
  | some hj => exact hj.due_eq
  | none => rfl

/-- Both stores take the state that they are given. -/
theorem put (h : b.Twins b') (step : Int) (y : α) (y' : α') :
    ∃ c c', b.put step y = (.ok (), c) ∧ b'.put step y' = (.ok (), c') ∧ c.Twins c' := by
  obtain ⟨z, hz⟩ := h.store.settles y
  obtain ⟨z', hz'⟩ := h.store.settles' y'
  refine ⟨_, _, ?_, ?_, h.withStore (h.store.insert step z z')⟩
  · simp only [Bench.put, Store.put, hz, Except.map]
  · simp only [Bench.put, Store.put, hz', Except.map]

end Twins
end Bench

namespace Likeness

open Bench

/-- Nothing is known of the states, and the callbacks do not fail. -/
def twins [Movable α] [Movable α'] : Likeness ω ω' α α' ε ε' where
  state _ _ := True
  bench := Bench.Twins
  world _ _ := True
  failure _ _ := False
  logged := (· = ·)

variable [Movable α] [Movable α'] {b : Bench α} {b' : Bench α'}

theorem answers_put (h : b.Twins b') (step : Int) (y : α) (y' : α') :
    (twins : Likeness ω ω' α α' ε ε').Answers (fun _ _ => True) (b.put step y)
      (b'.put step y') := by
  obtain ⟨c, c', hc, hc', htwins⟩ := h.put step y y'
  rw [hc, hc']
  exact .ok trivial htwins

theorem answers_putOffered (h : b.Twins b') (step : Int) (y : α) (y' : α') :
    (twins : Likeness ω ω' α α' ε ε').Answers (· = ·) (b.putOffered step y)
      (b'.putOffered step y') := by
  obtain ⟨c, c', hc, hc', htwins⟩ := h.put step y y'
  simp only [Bench.putOffered, hc, hc']
  exact .ok rfl htwins

theorem answers_keep (h : b.Twins b') (step : Int) (y : α) (y' : α') :
    (twins : Likeness ω ω' α α' ε ε').Answers (fun _ _ => True) (b.keep step y)
      (b'.keep step y') := by
  unfold Bench.keep
  rw [h.schedule]
  rcases b.schedule.offer step true with ⟨fault | _, s⟩
  · exact .error fault (h.withSchedule s)
  · exact answers_put (h.withSchedule s) step y y'

theorem answers_offer (h : b.Twins b') (step : Int) (y : α) (y' : α') :
    (twins : Likeness ω ω' α α' ε ε').Answers (· = ·) (b.offer step y) (b'.offer step y') := by
  unfold Bench.offer
  rw [h.schedule]
  rcases b.schedule.offer step with ⟨fault | _ | old | _, s⟩
  · exact .error fault (h.withSchedule s)
  · exact answers_putOffered (h.withSchedule s) step y y'
  · obtain ⟨hresident, hrest⟩ := h.store.discard old
    dsimp only
    generalize b.store.discard old = p at hresident hrest
    generalize b'.store.discard old = p' at hresident hrest
    obtain ⟨resident, store⟩ := p
    obtain ⟨resident', store'⟩ := p'
    obtain rfl : resident' = resident := hresident
    cases resident' with
    | false => exact .error _ (h.withSchedule s)
    | true => exact answers_putOffered ((h.withSchedule s).withStore hrest) step y y'
  · exact .ok rfl (h.withSchedule s)

theorem answers_get (h : b.Twins b') (step : Int) :
    (twins : Likeness ω ω' α α' ε ε').Answers (fun _ _ => True) (b.store.get step, b)
      (b'.store.get step, b') := by
  by_cases hm : step ∈ b.store.steps
  · obtain ⟨y, hy, _⟩ := Store.exists_get_eq_ok hm
    obtain ⟨y', hy', _⟩ := Store.exists_get_eq_ok (h.store.steps ▸ hm)
    rw [hy, hy']
    exact .ok trivial h
  · rw [Store.get_of_notMem hm, Store.get_of_notMem (h.store.steps ▸ hm)]
    exact .error _ h

theorem answers_release (h : b.Twins b') (step : Int) :
    (twins : Likeness ω ω' α α' ε ε').Answers (fun _ _ => True) (b.release step)
      (b'.release step) := by
  unfold Bench.release
  rw [h.schedule]
  rcases b.schedule.remove step with ⟨_ | _ | _, s⟩
  · exact .ok trivial ((h.withSchedule s).withStore (h.store.discard step).2)
  · exact .error _ (h.withSchedule s)
  · exact .ok trivial (h.withSchedule s)

theorem lawful_twins : (twins : Likeness ω ω' α α' ε ε').Lawful where
  latest := fun _ _ h => by rw [h.schedule]
  lockstep := fun b b' h hl => by rwa [Lockstep, h.schedule, h.store.steps]
  keep := fun step _ _ y y' h _ => answers_keep h step y y'
  offer := fun step _ _ y y' h _ => answers_offer h step y y'
  counted := fun b b' h => by
    rw [h.schedule]
    exact h.withSchedule _
  get := fun step _ _ h => answers_get h step
  release := fun step _ _ h => answers_release h step
  record := fun _ hf _ _ h => h.mapJournal fun _ _ hj => hj.record hf
  logRow := by
    rintro phase step ⟨w, b, calls, logged⟩ ⟨w', b', calls', _⟩ h rfl
    have hreported : b'.reported = b.reported := by
      rw [Bench.reported, Bench.reported, h.schedule, h.store.size_eq]
    unfold Run.logRow
    dsimp only
    rw [h.due_eq, hreported]
    split
    · exact ⟨h.mapJournal fun _ _ hj => hj.log _ _ _ _ _ _, rfl⟩
    · exact ⟨h, rfl⟩

variable {cb : Callbacks ω α ε} {cb' : Callbacks ω' α' ε'}

theorem bench_twins_of_alone (h : b.Twins b') {c : Bench α} {c' : Bench α'}
    (hsame : c.schedule = b.schedule ∧ c.store = b.store)
    (hsame' : c'.schedule = b'.schedule ∧ c'.store = b'.store)
    (hj : c.journal = b.journal) (hj' : c'.journal = b'.journal) : c.Twins c' := by
  refine ⟨?_, ?_, ?_⟩
  · rw [hsame.1, hsame'.1, h.schedule]
  · rw [hsame.2, hsame'.2]
    exact h.store
  · rw [hj, hj']
    exact h.journal

theorem pairs_twins (hcb : cb.Harmless) (hcb' : cb'.Harmless) (hj : cb.LeavesJournal)
    (hj' : cb'.LeavesJournal) : twins.Pairs cb cb' where
  update := by
    intro n y y' w w' b b' _ _ h
    obtain ⟨z, v, c, hu, _, hsame⟩ := hcb.update n y w b
    obtain ⟨z', v', c', hu', _, hsame'⟩ := hcb'.update n y' w' b'
    have hleft := hj.update n y w b
    have hleft' := hj'.update n y' w' b'
    rw [hu] at hleft ⊢
    rw [hu'] at hleft' ⊢
    exact .ok trivial trivial (bench_twins_of_alone h hsame hsame' hleft hleft')
  reverse := by
    intro n y y' w w' b b' _ _ h
    obtain ⟨v, c, hu, hsame⟩ := hcb.reverse n y w b
    obtain ⟨v', c', hu', hsame'⟩ := hcb'.reverse n y' w' b'
    have hleft := hj.reverse n y w b
    have hleft' := hj'.reverse n y' w' b'
    rw [hu] at hleft ⊢
    rw [hu'] at hleft' ⊢
    exact .ok trivial trivial (bench_twins_of_alone h hsame hsame' hleft hleft')

end Likeness

/-- A call without its state: what is called, and what is held and resident then. -/
structure Outline where
  kind : CallKind
  step : Int
  schedule : Schedule
  resident : List Int

def Call.outline (c : Call α) : Outline := ⟨c.kind, c.step, c.bench.schedule, c.bench.store.steps⟩

/-- The runs went the same way. -/
structure Run.Twins (t : Run ω α) (t' : Run ω' α') : Prop where
  calls : t'.calls.map Call.outline = t.calls.map Call.outline
  schedule : t'.bench.schedule = t.bench.schedule
  resident : t'.bench.store.steps = t.bench.store.steps
  puts : t'.bench.store.puts = t.bench.store.puts
  discards : t'.bench.store.discards = t.bench.store.discards
  rows : t'.bench.journal.map (fun j => j.rows.map Row.timeless) =
    t.bench.journal.map fun j => j.rows.map Row.timeless

/-- Sweeps that both end with a state, or both with the same refusal, and went the same way. -/
inductive EndTwins : Except (Stop ε) α × Run ω α → Except (Stop ε') α' × Run ω' α' → Prop
  | ok (z : α) (z' : α') {t : Run ω α} {t' : Run ω' α'} (h : t.Twins t') :
      EndTwins (.ok z, t) (.ok z', t')
  | error (fault : Fault) {t : Run ω α} {t' : Run ω' α'} (h : t.Twins t') :
      EndTwins (.error (.fault fault), t) (.error (.fault fault), t')

namespace Likeness

variable [Movable α] [Movable α']

theorem map_outline_eq {calls : List (Call α)} {calls' : List (Call α')}
    (h : List.Forall₂ (twins : Likeness ω ω' α α' ε ε').Calls calls calls') :
    calls'.map Call.outline = calls.map Call.outline := by
  induction h with
  | nil => rfl
  | @cons call call' _ _ hcall _ ih =>
    have hbench : call.bench.Twins call'.bench := hcall.bench
    simp only [List.map_cons, Call.outline, hcall.kind, hcall.step, hbench.schedule,
      hbench.store.steps, ih]

theorem run_twins {t : Run ω α} {t' : Run ω' α'}
    (h : (twins : Likeness ω ω' α α' ε ε').Runs t t') : t.Twins t' := by
  have hbench : t.bench.Twins t'.bench := h.bench
  refine ⟨?_, hbench.schedule, hbench.store.steps, hbench.store.puts, hbench.store.discards, ?_⟩
  · rw [Run.calls, Run.calls, List.map_reverse, List.map_reverse, map_outline_eq h.calls]
  · have hj := hbench.journal
    generalize t.bench.journal = journal at hj
    generalize t'.bench.journal = journal' at hj
    cases hj with
    | some hj => simp only [Option.map_some, Journal.rows, List.map_reverse, hj.rows]
    | none => rfl

theorem endTwins_of_closes {budget : Int} {p : Except (Stop ε) α × Run ω α}
    {p' : Except (Stop ε') α' × Run ω' α'}
    (h : (twins : Likeness ω ω' α α' ε ε').Closes budget p p') : EndTwins p p' := by
  cases h with
  | ok h => exact .ok _ _ (run_twins h.2.runs)
  | error h =>
    obtain ⟨hstops, hruns⟩ := h
    cases hstops with
    | fault fault => exact .error fault (run_twins hruns)
    | callback he => exact absurd he id

end Likeness

namespace Setup

variable [Movable α] [Movable α'] {s : Setup α} {s' : Setup α'} {cb : Callbacks ω α ε}
  {cb' : Callbacks ω' α' ε'} {n budget : Nat}

/-- Sweeps over as many steps with the same budget go the same way, whatever their states, their
callbacks and their worlds are, whether their schedule was supplied or made for the storage size,
and whether they are checked. -/
theorem Asks.end_twins (h : s.Asks n budget) (h' : s'.Asks n budget) (hb : 1 ≤ budget)
    (hcb : cb.Harmless) (hcb' : cb'.Harmless) (hj : cb.LeavesJournal) (hj' : cb'.LeavesJournal)
    (hstore : s.store.Twins s'.store) (hjournal : Option.Rel Journal.Twins s.journal s'.journal)
    (w : ω) (w' : ω') :
    ∃ p p', s.run cb w = .ok p ∧ s'.run cb' w' = .ok p' ∧ EndTwins p p' ∧
      ((∃ z, p.1 = .ok z) ↔ (n : Int) < noStep) := by
  have hsound : (s.begin budget).schedule.Sound budget :=
    Schedule.sound_of_create (show (Number.whole budget).whole? = _ from rfl) rfl
  have hcount : s'.steps.count = s.steps.count := by rw [h.steps, h'.steps]
  obtain ⟨p, p', hrun, hrun', hcloses⟩ :=
    Likeness.exists_run_closes Likeness.lawful_twins (Likeness.pairs_twins hcb hcb' hj hj')
      hcb.bystands (h.bench_eq hb) (h'.bench_eq hb) hsound hcount trivial
      ⟨rfl, hstore, hjournal⟩ rfl trivial
  refine ⟨p, p', hrun, hrun', Likeness.endTwins_of_closes hcloses, ?_⟩
  rw [← h.exists_run_eq_ok_iff hb hcb hstore.settles w, hrun]
  constructor
  · rintro ⟨z, hz⟩
    exact ⟨z, _, congrArg Except.ok (Prod.ext hz rfl)⟩
  · rintro ⟨z, t, ht⟩
    exact ⟨z, congrArg Prod.fst (Except.ok.inj ht)⟩

/-- A sweep over tensors, with a schedule of its own and a storage size that is never read. -/
def blocks (n budget : Nat) (journal : Option Journal := none) : Setup (Placed (List Int)) where
  steps := .int n
  storageSize := .int (-3)
  state := .data [1, 2]
  supply := .schedule (.ofBudget budget)
  journal := journal

/-- Each step sends the numbers away, so that only their shape is left. -/
def sending : Callbacks (List Int) (Placed (List Int)) Empty where
  update step _ world b := (.ok .shape, step :: world, b)
  reverse _ _ world b := (.ok (), world, b)

theorem harmless_sending : sending.Harmless where
  update := fun _ _ _ b => ⟨_, _, b, rfl, trivial, rfl, rfl⟩
  reverse := fun _ _ _ b => ⟨_, b, rfl, rfl, rfl⟩

theorem end_twins_seven_three :
    ∃ p p', (counted 7 3 (some ⟨.whole 2, 0, 0, 0, 0, []⟩)).run BudgetGrid.counting () = .ok p ∧
      (blocks 7 3 (some ⟨.whole 2, 40, 0, 0, 0, []⟩)).run sending [] = .ok p' ∧
      EndTwins p p' ∧ ∃ z, p.1 = .ok z := by
  obtain ⟨p, p', hrun, hrun', hends, hok⟩ :=
    (asks_counted 7 3 (some ⟨.whole 2, 0, 0, 0, 0, []⟩)).end_twins
      (⟨rfl, .inl rfl, rfl⟩ : (blocks 7 3 (some ⟨.whole 2, 40, 0, 0, 0, []⟩)).Asks 7 3) (by decide)
      computes_counting.harmless harmless_sending ⟨fun _ _ _ _ => rfl, fun _ _ _ _ => rfl⟩
      ⟨fun _ _ _ _ => rfl, fun _ _ _ _ => rfl⟩
      ⟨rfl, rfl, rfl, fun y => ⟨y, rfl⟩, fun y => ⟨y, rfl⟩⟩ (.some ⟨rfl, rfl, rfl, rfl, rfl⟩) () []
  exact ⟨p, p', hrun, hrun', hends, hok.mpr (by decide)⟩

end Setup
end ReverseSweep
