import ReverseSweep.Proofs.Residents
import ReverseSweep.Sweep.Script

/-! A call that fails. The sweep ends with that failure, and leaves the calls, the schedule, the
store and the journal as they were when the call started. -/

namespace ReverseSweep

variable {ω α β ε : Type}

/-- Nothing but the clock may differ. -/
structure Bench.Agrees (b c : Bench α) : Prop where
  schedule : c.schedule = b.schedule
  store : c.store = b.store
  journal : c.journal = b.journal

namespace Callbacks

/-- A callback whose call number `k` fails. What it has done by then is up to `crash`. -/
def failAt (k : Nat) (e : ε) (crash : Call α → ω → ω × Bench α) (kind : CallKind) (step : Int)
    (y : α) (f : ω → Bench α → Except ε β × ω × Bench α) (w : ω × Nat) (b : Bench α) :
    Except ε β × (ω × Nat) × Bench α :=
  if w.2 = k then
    let (world, b) := crash ⟨kind, step, y, b⟩ w.1
    (.error e, (world, w.2 + 1), b)
  else
    let (result, world, b) := f w.1 b
    (result, (world, w.2 + 1), b)

/-- The same callbacks, but their call number `k` fails. Their world counts the calls. -/
def failingAt (cb : Callbacks ω α ε) (k : Nat) (e : ε) (crash : Call α → ω → ω × Bench α) :
    Callbacks (ω × Nat) α ε where
  update n y := failAt k e crash .update n y (cb.update n y)
  reverse n y := failAt k e crash .reverse n y (cb.reverse n y)

def failureAt (k : Nat) (e : ε) (crash : Call α → ω → ω × Bench α) :
    Interruption (ω × Nat) ω α ε where
  same := fun j w w' => w = (w', j) ∧ j ≤ k
  fails := fun j call e' b => j = k ∧ e' = e ∧ ∃ w, b = (crash call w).2

variable (k : Nat) (e : ε) (crash : Call α → ω → ω × Bench α)

theorem agree_failAt (kind : CallKind) (step : Int) (y : α)
    (f : ω → Bench α → Except ε β × ω × Bench α) :
    (failureAt k e crash).Agree kind step y (failAt k e crash kind step y f) f := by
  rintro j _ w ⟨rfl, hj⟩ b
  unfold failAt
  by_cases hk : j = k
  · rw [if_pos hk]
    exact .inr ⟨e, _, _, rfl, hk, rfl, w, rfl⟩
  · rw [if_neg hk]
    exact .inl ⟨_, _, _, _, rfl, rfl, rfl, Nat.lt_of_le_of_ne hj hk⟩

theorem failureAt_cuts (cb : Callbacks ω α ε) :
    (failureAt k e crash).Cuts (cb.failingAt k e crash) cb :=
  ⟨fun n y => agree_failAt k e crash .update n y _,
    fun n y => agree_failAt k e crash .reverse n y _⟩

end Callbacks

namespace Setup

variable [Movable α] {s : Setup α} {cb : Callbacks ω α ε} {k n budget : Nat} {w : ω}

/-- Whatever the callbacks do, a sweep ends at the call that fails. -/
theorem exists_run_failingAt {result : Except (Stop ε) α} {t : Run ω α}
    (hrun : s.run cb w = .ok (result, t)) {call : Call α} (hcall : t.calls[k]? = some call)
    (e : ε) (crash : Call α → ω → ω × Bench α) :
    ∃ q, s.run (cb.failingAt k e crash) (w, 0) = .ok (.error (.callback e), q) ∧
      q.calls = t.calls.take (k + 1) ∧ ∃ w', q.bench = (crash call w').2 := by
  obtain ⟨p, hp, hout⟩ :=
    exists_run_outcome (Callbacks.failureAt_cuts k e crash cb) ⟨rfl, Nat.zero_le k⟩ hrun
  cases hout with
  | alike _ q _ h =>
    -- as long as both go on alike, there were not more than `k` calls
    have hk : k < t.calls.length := (List.getElem?_eq_some_iff.mp hcall).1
    have hle : q.latestCalls.length ≤ k := h.same.2
    rw [h.calls] at hle
    simp only [Run.calls, List.length_reverse] at hk
    omega
  | stopped e' q _ h =>
    obtain ⟨call', earlier, hq, hsuffix, rfl, rfl, w', hbench⟩ := h
    obtain rfl : call' = call :=
      Option.some.inj ((Run.getElem?_calls_of_suffix hsuffix).symm.trans hcall)
    refine ⟨q, hp, ?_, w', hbench⟩
    rw [Run.take_calls_of_suffix hsuffix, Run.calls, hq]

/-- If one of the calls fails, wherever it is, the sweep ends with that failure. What was called is
what is called without it, up to that call. Schedule, store and journal are left as the call found
them, so that schedule and store agree, with the states of the trajectory. -/
theorem Asks.stops_at_failure (h : s.Asks n budget) (hb : 1 ≤ budget) {f : Nat → α → α}
    (hcb : cb.Computes f) (hstore : s.store.Preserves (trajectory f s.state))
    (crash : Call α → ω → ω × Bench α)
    (hcrash : ∀ (call : Call α) w, call.bench.Agrees (crash call w).2) (w : ω) :
    ∃ result t, s.run cb w = .ok (result, t) ∧ ∀ k call, t.calls[k]? = some call → ∀ e, ∃ q,
      s.run (cb.failingAt k e crash) (w, 0) = .ok (.error (.callback e), q) ∧
        q.calls = t.calls.take (k + 1) ∧ call.bench.Agrees q.bench ∧
        q.bench.store.steps = q.bench.schedule.steps ∧
        ∀ entry ∈ q.bench.store.entries, ∃ i : Nat, entry = ((i : Int), trajectory f s.state i) := by
  obtain ⟨⟨result, t⟩, hrun, hfinds⟩ := h.exists_run_finds hb hcb hstore w
  refine ⟨result, t, hrun, fun k call hcall e => ?_⟩
  obtain ⟨⟨_, hfound⟩, _⟩ := hfinds k call hcall
  obtain ⟨q, hq, hcalls, w', hbench⟩ := exists_run_failingAt hrun hcall e crash
  have hagrees : call.bench.Agrees q.bench := hbench ▸ hcrash call w'
  refine ⟨q, hq, hcalls, hagrees, ?_, ?_⟩
  · rw [hagrees.store, hagrees.schedule]
    exact hfound.lockstep
  · rw [hagrees.store]
    exact hfound.residents

theorem Asks.exists_first_reverse (h : s.Asks n budget) (hb : 1 ≤ budget) (hn : (n : Int) < noStep)
    (hcb : cb.Harmless) (hsettle : ∀ y, ∃ z, s.store.settle y = .ok z) (w : ω) :
    ∃ z t call, s.run cb w = .ok (.ok z, t) ∧ t.calls[n]? = some call ∧
      call.heading = (.reverse, (n : Int)) := by
  have hc := course_steady_of_harmless hcb hb hn hsettle
  obtain ⟨z, t, held, hrun, _, hcompletes⟩ := h.exists_completes hc trivial w
  have hheadings : t.headings[n]? = some (.reverse, (n : Int)) := by
    have hback : backCalls held n = [(.reverse, (n : Int))] := by
      rw [backCalls, show held n = n from hcompletes.held_steps, Nat.sub_self]
      rfl
    rw [hcompletes.headings, show (s.course cb n budget _ _).steps = n from rfl, List.range_succ,
      List.reverse_append, List.flatMap_append]
    simp [hback, updates]
  obtain ⟨call, hcall, hheading⟩ :
      ∃ call, t.calls[n]? = some call ∧ call.heading = (.reverse, (n : Int)) := by
    simpa [Run.headings] using hheadings
  exact ⟨z, t, call, hrun, hcall, hheading⟩

def countingScript : Script Nat := { next := fun _ _ x => .ok (x + 1) }

theorem computes_countingScript : countingScript.callbacks.Computes fun _ x => x + 1 where
  update := fun _ _ _ _ => ⟨_, _, _, rfl, rfl, rfl, rfl⟩
  reverse := fun _ _ _ _ => ⟨_, _, rfl, rfl, rfl⟩

theorem stops_at_failure_six_two :
    ∃ q, (counted 6 2).run (countingScript.callbacks.failingAt 6 (.failure "no room")
        fun call w => (w, call.bench)) (0, 0) = .ok (.error (.callback (.failure "no room")), q) ∧
      q.headings[6]? = some (.reverse, 6) ∧ q.calls.length = 7 ∧
      q.bench.store.steps = q.bench.schedule.steps := by
  obtain ⟨z, t, call, hrun, hcall, hheading⟩ := (asks_counted 6 2).exists_first_reverse (by decide)
    (by decide) computes_countingScript.harmless (fun y => ⟨y, rfl⟩) 0
  obtain ⟨result, t', hrun', hfails⟩ := (asks_counted 6 2).stops_at_failure (by decide)
    computes_countingScript (fun _ => rfl) (fun call w => (w, call.bench))
    (fun _ _ => ⟨rfl, rfl, rfl⟩) 0
  obtain ⟨_, rfl⟩ := Prod.mk.inj (Except.ok.inj (hrun'.symm.trans hrun))
  obtain ⟨q, hq, hcalls, _, hlock, _⟩ := hfails 6 call hcall (.failure "no room")
  have hlen : 6 < t'.calls.length := (List.getElem?_eq_some_iff.mp hcall).1
  refine ⟨q, hq, ?_, ?_, hlock⟩
  · simpa [Run.headings, hcalls, hcall] using hheading
  · rw [hcalls, List.length_take]
    omega

end Setup
end ReverseSweep
