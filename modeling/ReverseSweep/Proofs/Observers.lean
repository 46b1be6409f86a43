import ReverseSweep.Proofs.Likeness

/-! Checks and rows only watch a sweep. With or without them the same calls are made, on the same
schedules and stores, and the sweep ends the same. -/

namespace ReverseSweep

variable {ω α ε β : Type}

/-- Schedule and store, without what is written about them. -/
def Bench.bare (b : Bench α) : Bench α := ⟨b.schedule, b.store, none, 0⟩

def Call.bare (c : Call α) : Call α := ⟨c.kind, c.step, c.state, c.bench.bare⟩

namespace Bench

variable [Movable α]

theorem bare_put (b : Bench α) (step : Int) (y : α) :
    b.bare.put step y = ((b.put step y).1, (b.put step y).2.bare) := by
  unfold put
  rw [show b.bare.store = b.store from rfl]
  cases b.store.put step y <;> rfl

theorem bare_putOffered (b : Bench α) (step : Int) (y : α) :
    b.bare.putOffered step y = ((b.putOffered step y).1, (b.putOffered step y).2.bare) := by
  unfold putOffered
  rw [bare_put]
  rcases b.put step y with ⟨_ | _, c⟩ <;> rfl

theorem bare_keep (b : Bench α) (step : Int) (y : α) :
    b.bare.keep step y = ((b.keep step y).1, (b.keep step y).2.bare) := by
  unfold keep
  rw [show b.bare.schedule = b.schedule from rfl]
  rcases b.schedule.offer step true with ⟨_ | _, s⟩
  · rfl
  · exact bare_put (b.withSchedule s) step y

theorem bare_offer (b : Bench α) (step : Int) (y : α) :
    b.bare.offer step y = ((b.offer step y).1, (b.offer step y).2.bare) := by
  unfold offer
  rw [show b.bare.schedule = b.schedule from rfl, show b.bare.store = b.store from rfl]
  rcases b.schedule.offer step with ⟨_ | _ | old | _, s⟩
  · rfl
  · exact bare_putOffered (b.withSchedule s) step y
  · dsimp only
    rcases b.store.discard old with ⟨_ | _, store⟩
    · rfl
    · exact bare_putOffered ((b.withSchedule s).withStore store) step y
  · rfl

omit [Movable α] in
theorem bare_release (b : Bench α) (step : Int) :
    b.bare.release step = ((b.release step).1, (b.release step).2.bare) := by
  unfold release
  rw [show b.bare.schedule = b.schedule from rfl, show b.bare.store = b.store from rfl]
  rcases b.schedule.remove step with ⟨_ | _ | _, s⟩ <;> rfl

omit [Movable α] in
theorem eq_of_bare_eq {b c : Bench α} (h : b.bare = c.bare) :
    b.schedule = c.schedule ∧ b.store = c.store := by
  simpa [bare] using h

end Bench

theorem Run.bare_logRow (r : Run ω α) (phase : String) (step : Int) :
    (r.logRow phase step).bench.bare = r.bench.bare := by
  unfold logRow
  split <;> rfl

namespace Likeness

theorem Answers.of_eq {ω' α' ε' : Type} {L : Likeness ω ω' α α' ε ε'} {V : β → β → Prop}
    (hV : ∀ a, V a a) {p : Except Fault β × Bench α} {p' : Except Fault β × Bench α'}
    (hfst : p.1 = p'.1) (hsnd : L.bench p.2 p'.2) : L.Answers V p p' := by
  obtain ⟨result, b⟩ := p
  obtain ⟨result', b'⟩ := p'
  obtain rfl : result = result' := hfst
  cases result with
  | ok a => exact .ok (hV a) hsnd
  | error fault => exact .error fault hsnd

/-- Nothing differs at all, so that the sweeps may only differ in their checks. -/
def same : Likeness ω ω α α ε ε := ⟨(· = ·), (· = ·), (· = ·), (· = ·), (· = ·)⟩

/-- Nothing differs but what is written about the sweep. -/
def unwritten : Likeness ω ω α α ε ε where
  state := (· = ·)
  bench b b' := b.bare = b'.bare
  world := (· = ·)
  failure := (· = ·)
  logged _ _ := True

variable [Movable α]

theorem lawful_same : (same : Likeness ω ω α α ε ε).Lawful where
  latest := by
    rintro b _ rfl
    rfl
  lockstep := by
    rintro b _ rfl hl
    exact hl
  keep := by
    rintro step b _ y _ rfl rfl
    exact .of_eq (fun _ => trivial) rfl rfl
  offer := by
    rintro step b _ y _ rfl rfl
    exact .of_eq (fun _ => rfl) rfl rfl
  counted := by
    rintro b _ rfl
    rfl
  get := by
    rintro step b _ rfl
    exact .of_eq (fun _ => rfl) rfl rfl
  release := by
    rintro step b _ rfl
    exact .of_eq (fun _ => trivial) rfl rfl
  record := by
    rintro f _ b _ rfl
    rfl
  logRow := by
    rintro phase step ⟨w, b, calls, logged⟩ ⟨w', _, calls', _⟩ rfl rfl
    unfold Run.logRow
    dsimp only
    split <;> exact ⟨rfl, rfl⟩

omit [Movable α] in
/-- What is done to schedule and store without regard to the rest. -/
theorem answers_unwritten {V : β → β → Prop} (hV : ∀ a, V a a)
    {f : Bench α → Except Fault β × Bench α} (hf : ∀ b, f b.bare = ((f b).1, (f b).2.bare))
    {b b' : Bench α} (hb : b.bare = b'.bare) :
    (unwritten : Likeness ω ω α α ε ε).Answers V (f b) (f b') := by
  have heq : ((f b).1, (f b).2.bare) = ((f b').1, (f b').2.bare) := by rw [← hf, ← hf, hb]
  exact .of_eq hV (Prod.mk.inj heq).1 (Prod.mk.inj heq).2

theorem lawful_unwritten : (unwritten : Likeness ω ω α α ε ε).Lawful where
  latest := by
    intro b b' hb
    rw [(Bench.eq_of_bare_eq hb).1]
  lockstep := by
    intro b b' hb hl
    rwa [Bench.Lockstep, ← (Bench.eq_of_bare_eq hb).1, ← (Bench.eq_of_bare_eq hb).2]
  keep := by
    rintro step b b' y _ hb rfl
    exact answers_unwritten (f := fun b => b.keep step y) (fun _ => trivial)
      (fun b => b.bare_keep step y) hb
  offer := by
    rintro step b b' y _ hb rfl
    exact answers_unwritten (f := fun b => b.offer step y) (fun _ => rfl)
      (fun b => b.bare_offer step y) hb
  counted := by
    intro b b' hb
    simp only [unwritten, Bench.bare, Bench.withSchedule, Bench.mk.injEq] at hb ⊢
    simpa [hb.1] using hb
  get := fun step b b' hb => answers_unwritten (f := fun b => (b.store.get step, b))
    (fun _ => rfl) (fun _ => rfl) hb
  release := fun step b b' hb => answers_unwritten (f := fun b => b.release step)
    (fun _ => trivial) (fun b => b.bare_release step) hb
  record := fun _ _ _ _ hb => hb
  logRow := by
    intro phase step r r' hb _
    refine ⟨?_, trivial⟩
    change (r.logRow phase step).bench.bare = (r'.logRow phase step).bench.bare
    rwa [r.bare_logRow, r'.bare_logRow]

omit [Movable α] in
theorem map_bare_eq {calls calls' : List (Call α)}
    (h : List.Forall₂ (unwritten : Likeness ω ω α α ε ε).Calls calls calls') :
    calls.map Call.bare = calls'.map Call.bare := by
  induction h with
  | nil => rfl
  | @cons call call' _ _ hcall _ ih =>
    have hbare : call.bench.bare = call'.bench.bare := hcall.bench
    have hstate : call.state = call'.state := hcall.state
    simp only [List.map_cons, Call.bare, hcall.kind, hcall.step, hstate, hbare, ih]

end Likeness

/-- What the callbacks do depends on schedule and store, not on rows and the clock. -/
structure Callbacks.Unaware (cb : Callbacks ω α ε) : Prop where
  update : ∀ (n : Nat) y w b c, b.bare = c.bare →
    (cb.update n y w b).1 = (cb.update n y w c).1 ∧
      (cb.update n y w b).2.1 = (cb.update n y w c).2.1
  reverse : ∀ (n : Nat) y w b c, b.bare = c.bare →
    (cb.reverse n y w b).1 = (cb.reverse n y w c).1 ∧
      (cb.reverse n y w b).2.1 = (cb.reverse n y w c).2.1

namespace Script

variable [Movable α] {s : Script α}

theorem exists_intervene_eq (h : s.interventions = []) (kind : CallKind) (step : Int)
    (updates : Nat) : ∃ result, ∀ b, s.intervene kind step updates b = (result, b) := by
  unfold intervene
  simp only [h, List.filter_nil, List.flatMap_nil, requests]
  cases s.failure with
  | none => exact ⟨_, fun _ => rfl⟩
  | some failure =>
    dsimp only
    split
    · exact ⟨_, fun _ => rfl⟩
    · exact ⟨_, fun _ => rfl⟩

theorem bystands (h : s.interventions = []) : s.callbacks.Bystands where
  update := by
    intro n y updates b
    obtain ⟨result, hresult⟩ := exists_intervene_eq h .update n (updates + 1)
    simp [callbacks, hresult, Bench.advanceClock]
  reverse := by
    intro n y updates b
    obtain ⟨result, hresult⟩ := exists_intervene_eq h .reverse n updates
    simp [callbacks, hresult]

theorem unaware (h : s.interventions = []) : s.callbacks.Unaware where
  update := by
    intro n y updates b c _
    obtain ⟨result, hresult⟩ := exists_intervene_eq h .update n (updates + 1)
    simp [callbacks, hresult]
  reverse := by
    intro n y updates b c _
    obtain ⟨result, hresult⟩ := exists_intervene_eq h .reverse n updates
    simp [callbacks, hresult]

end Script

namespace Likeness

variable {cb : Callbacks ω α ε}

theorem Replies.of_eq {L : Likeness ω ω α α ε ε} (hL : ∀ e, L.failure e e) {V : β → β → Prop}
    (hV : ∀ a, V a a) {p p' : Except ε β × ω × Bench α} (hresult : p.1 = p'.1)
    (hw : L.world p.2.1 p'.2.1) (hb : L.bench p.2.2 p'.2.2) : L.Replies V p p' := by
  obtain ⟨result, w, b⟩ := p
  obtain ⟨result', w', b'⟩ := p'
  obtain rfl : result = result' := hresult
  cases result with
  | ok a => exact .ok (hV a) hw hb
  | error e => exact .error (hL e) hw hb

theorem pairs_same (cb : Callbacks ω α ε) : same.Pairs cb cb where
  update := by
    rintro n y _ w _ b _ rfl rfl rfl
    exact .of_eq (fun _ => rfl) (fun _ => rfl) rfl rfl rfl
  reverse := by
    rintro n y _ w _ b _ rfl rfl rfl
    exact .of_eq (fun _ => rfl) (fun _ => trivial) rfl rfl rfl

theorem bare_eq_of_bystands {b b' c c' : Bench α} (h : b.bare = b'.bare)
    (hc : c.schedule = b.schedule ∧ c.store = b.store)
    (hc' : c'.schedule = b'.schedule ∧ c'.store = b'.store) : c.bare = c'.bare := by
  obtain ⟨hschedule, hstore⟩ := Bench.eq_of_bare_eq h
  simp only [Bench.bare, hc.1, hc.2, hc'.1, hc'.2, hschedule, hstore]

theorem pairs_unwritten (halone : cb.Bystands) (hcb : cb.Unaware) : unwritten.Pairs cb cb where
  update := by
    rintro n y _ w _ b b' rfl rfl hb
    obtain ⟨hresult, hworld⟩ := hcb.update n y w b b' hb
    exact .of_eq (fun _ => rfl) (fun _ => rfl) hresult hworld
      (bare_eq_of_bystands hb (halone.update n y w b) (halone.update n y w b'))
  reverse := by
    rintro n y _ w _ b b' rfl rfl hb
    obtain ⟨hresult, hworld⟩ := hcb.reverse n y w b b' hb
    exact .of_eq (fun _ => rfl) (fun _ => trivial) hresult hworld
      (bare_eq_of_bystands hb (halone.reverse n y w b) (halone.reverse n y w b'))

end Likeness

namespace Likeness

open Sweep

variable {budget : Int}

theorem eq_of_runs_same {r r' : Run ω α} (h : (same : Likeness ω ω α α ε ε).Runs r r') :
    r = r' := by
  have hcalls : r.latestCalls = r'.latestCalls := by
    refine List.forall₂_eq_eq_eq ▸ h.calls.imp ?_
    rintro ⟨_, _, _, _⟩ ⟨_, _, _, _⟩ ⟨rfl, rfl, rfl, rfl⟩
    rfl
  obtain ⟨w, b, calls, logged⟩ := r
  obtain ⟨rfl, rfl, _, rfl⟩ := h
  obtain rfl := hcalls
  rfl

theorem eq_of_closes_same {p p' : Except (Stop ε) α × Run ω α}
    (h : (same : Likeness ω ω α α ε ε).Closes budget p p') :
    p = p' := by
  cases h with
  | ok h => rw [h.1, eq_of_runs_same h.2.runs]
  | error h =>
    obtain ⟨hstops, hruns⟩ := h
    rw [eq_of_runs_same hruns]
    cases hstops with
    | fault f => rfl
    | callback he => exact congrArg (fun e => (Except.error (Stop.callback e), _)) he

end Likeness

/-- How a run has ended, and what it shows besides its rows. -/
structure Shown (ω α ε : Type) where
  result : Except (Stop ε) α
  world : ω
  calls : List (Call α)
  schedule : Schedule
  store : Store α

def Shown.of (p : Except (Stop ε) α × Run ω α) : Shown ω α ε :=
  ⟨p.1, p.2.world, p.2.calls.map Call.bare, p.2.bench.schedule, p.2.bench.store⟩

namespace Likeness

open Sweep

theorem shown_eq_of_runs {r r' : Run ω α} (h : (unwritten : Likeness ω ω α α ε ε).Runs r r')
    (result : Except (Stop ε) α) : Shown.of (result, r) = Shown.of (result, r') := by
  have hworld : r.world = r'.world := h.world
  have hcalls : r.calls.map Call.bare = r'.calls.map Call.bare := by
    rw [Run.calls, Run.calls, List.map_reverse, List.map_reverse, map_bare_eq h.calls]
  obtain ⟨hschedule, hstore⟩ := Bench.eq_of_bare_eq h.bench
  simp only [Shown.of, hworld, hcalls, hschedule, hstore]

theorem shown_eq {budget : Int} {p p' : Except (Stop ε) α × Run ω α}
    (h : (unwritten : Likeness ω ω α α ε ε).Closes budget p p') :
    Shown.of p = Shown.of p' := by
  cases h with
  | ok h =>
    obtain ⟨rfl, hstands⟩ := h
    exact shown_eq_of_runs hstands.runs _
  | error h =>
    obtain ⟨hstops, hruns⟩ := h
    cases hstops with
    | fault f => exact shown_eq_of_runs hruns _
    | @callback e e' he =>
      obtain rfl : e = e' := he
      exact shown_eq_of_runs hruns _

end Likeness

namespace Setup

variable [Movable α] {s : Setup α} {cb : Callbacks ω α ε}

/-- The same sweep, with checks and rows or without. -/
def watched (s : Setup α) (journal : Option Journal) (verify : Bool) (now : Float) : Setup α :=
  ⟨s.steps, s.storageSize, s.state, s.supply, s.store, journal, verify, now⟩

omit [Movable α] in
theorem bench_watched (s : Setup α) (journal : Option Journal) (verify : Bool) (now : Float) :
    (s.watched journal verify now).bench =
      s.bench.map fun b => ⟨b.schedule, b.store, journal, now⟩ := by
  have hschedule : (s.watched journal verify now).schedule = s.schedule := rfl
  unfold bench
  rw [hschedule, show (s.watched journal verify now).steps = s.steps from rfl]
  cases s.steps.number with
  | error fault => rfl
  | ok steps =>
    simp only [Bind.bind, Except.bind]
    split
    · rfl
    · cases s.schedule with
      | error fault => rfl
      | ok schedule =>
        dsimp only
        rw [show (s.watched journal verify now).store = s.store from rfl]
        split <;> rfl

/-- Rows, the clock and checks change nothing that a run shows: neither its calls with their states,
schedules and stores, nor its result or failure, nor what it leaves. -/
theorem shown_watched (hs : ∀ fresh, s.schedule = .ok fresh → ∃ budget, fresh.Reachable budget)
    (halone : cb.Bystands) (hcb : cb.Unaware) (journal : Option Journal) (verify : Bool)
    (now : Float) (w : ω) :
    ((s.watched journal verify now).run cb w).map Shown.of = (s.run cb w).map Shown.of := by
  have hwatched := s.bench_watched journal verify now
  cases hb : s.bench with
  | error fault =>
    rw [hb] at hwatched
    rw [s.run_of_refused hb, run_of_refused _ hwatched]
  | ok b =>
    rw [hb] at hwatched
    obtain ⟨budget, hreach⟩ := hs _ (bench_eq_ok hb).1
    obtain ⟨p, p', hrun, hrun', hcloses⟩ :=
      Likeness.exists_run_closes Likeness.lawful_unwritten (Likeness.pairs_unwritten halone hcb)
        halone hwatched hb hreach.sound rfl rfl rfl trivial rfl
    rw [hrun, hrun']
    exact congrArg Except.ok (Likeness.shown_eq hcloses)

/-- The third update fails. -/
def failingScript : Script Nat where
  next := fun _ _ x => .ok (x + 1)
  failure := some (⟨.update, none, some 3⟩, "no room")

theorem shown_watched_failing :
    (((counted 4 2).watched (some ⟨.whole 1, 0, 0, 0, 0, []⟩) true 5).run
        failingScript.callbacks 0).map Shown.of =
      ((counted 4 2).run failingScript.callbacks 0).map Shown.of ∧
      ((counted 4 2).run failingScript.callbacks 0).map (·.1) =
        .ok (.error (.callback (.failure "no room"))) := by
  refine ⟨shown_watched ?_ (Script.bystands rfl) (Script.unaware rfl) _ _ _ _, rfl⟩
  intro fresh hfresh
  obtain rfl : Schedule.ofBudget 2 = fresh := Except.ok.inj hfresh
  exact ⟨2, .whole 2, .ofBudget 2, [], rfl, rfl, rfl⟩

/-- Whether a sweep is checked makes no difference at all. -/
theorem run_checked (hs : ∀ fresh, s.schedule = .ok fresh → ∃ budget, fresh.Sound budget)
    (halone : cb.Bystands) (verify : Bool) (w : ω) :
    (s.watched s.journal verify s.now).run cb w = s.run cb w := by
  have hwatched : (s.watched s.journal verify s.now).bench = s.bench := rfl
  cases hb : s.bench with
  | error fault => rw [s.run_of_refused hb, run_of_refused _ (hwatched.trans hb)]
  | ok b =>
    obtain ⟨budget, hsound⟩ := hs _ (bench_eq_ok hb).1
    obtain ⟨p, p', hrun, hrun', hcloses⟩ :=
      Likeness.exists_run_closes Likeness.lawful_same (Likeness.pairs_same cb) halone
        (hwatched.trans hb) hb hsound rfl rfl rfl rfl rfl
    rw [hrun, hrun']
    exact congrArg Except.ok (Likeness.eq_of_closes_same hcloses)

end Setup
end ReverseSweep
