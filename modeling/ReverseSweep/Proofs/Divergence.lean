import ReverseSweep.Proofs.Ensures
import ReverseSweep.Proofs.Interventions
import ReverseSweep.Proofs.Interruption

/-! Sweeps with checks, against callbacks that intervene. After each call the sweep takes a step of
its own and checks what has come of both: no call is made on schedule and store that differ. -/

namespace ReverseSweep

variable {ω α β ε : Type}

namespace Bench

variable {b c d : Bench α}

/-- Both hold the same slots and states. -/
structure SameSides (b c : Bench α) : Prop where
  slots : b.schedule.slots = c.schedule.slots
  entries : b.store.entries = c.store.entries

theorem SameSides.trans (h : b.SameSides c) (h' : c.SameSides d) : b.SameSides d :=
  ⟨h.slots.trans h'.slots, h.entries.trans h'.entries⟩

theorem SameSides.lockstep (h : b.SameSides c) (hc : c.Lockstep) : b.Lockstep := by
  rw [Lockstep, Store.steps, Schedule.steps, h.slots, h.entries]
  exact hc

theorem sameSides_offerAgain [Movable α] (b : Bench α) (step : Int) (y : α) :
    (b.offer step y).2.SameSides (b.offerAgain step y).2 := by
  unfold offerAgain
  generalize b.offer step y = result
  obtain ⟨_ | _ | _, c⟩ := result <;> exact ⟨rfl, rfl⟩

end Bench

namespace Callbacks

def tell (cb : Callbacks ω α ε) (w : ω) (call : Call α) : ω :=
  match call.kind with
  | .update => (cb.update call.step call.state w call.bench).2.1
  | .reverse => (cb.reverse call.step call.state w call.bench).2.1

def worldAfter (cb : Callbacks ω α ε) (w : ω) (calls : List (Call α)) : ω := calls.foldl cb.tell w

theorem worldAfter_concat (cb : Callbacks ω α ε) (w : ω) (calls : List (Call α)) (call : Call α) :
    cb.worldAfter w (calls ++ [call]) = cb.tell (cb.worldAfter w calls) call := by
  simp [worldAfter]

variable [Movable α]

/-- The bench after a call and what the sweep does next: it offers the state of an update for the
step that follows, and releases the step of a reverse call. -/
def settled (cb : Callbacks ω α ε) (w : ω) (call : Call α) : Bench α :=
  match call.kind with
  | .update =>
    match cb.update call.step call.state w call.bench with
    | (.ok next, _, b) => (b.offer (call.step + 1) next).2
    | (.error _, _, b) => b
  | .reverse =>
    match cb.reverse call.step call.state w call.bench with
    | (.ok (), _, b) => (b.release call.step).2
    | (.error _, _, b) => b

/-- Calls, the latest first, that have led to a bench. Each of them was made in lockstep, and
settled in lockstep to what the next one found. -/
inductive LedTo (cb : Callbacks ω α ε) (w : ω) : List (Call α) → Bench α → Prop
  | start (b : Bench α) : LedTo cb w [] b
  | call {call : Call α} {earlier : List (Call α)} {b : Bench α} (hfound : call.bench.Lockstep)
      (hsettled : (cb.settled (cb.worldAfter w earlier.reverse) call).Lockstep)
      (hsame : (cb.settled (cb.worldAfter w earlier.reverse) call).SameSides b)
      (hearlier : LedTo cb w earlier call.bench) : LedTo cb w (call :: earlier) b

variable {cb : Callbacks ω α ε} {w : ω} {call : Call α} {calls earlier : List (Call α)}
  {b c : Bench α}

theorem LedTo.of_sameSides (h : cb.LedTo w calls b) (hsame : b.SameSides c) :
    cb.LedTo w calls c := by
  cases h with
  | start => exact .start c
  | call hfound hsettled hsame' hearlier =>
    exact .call hfound hsettled (hsame'.trans hsame) hearlier

theorem LedTo.of_suffix (h : cb.LedTo w calls b) (hs : call :: earlier <:+ calls) :
    call.bench.Lockstep ∧ cb.LedTo w earlier call.bench := by
  induction h with
  | start => simp at hs
  | call hfound _ _ hearlier ih =>
    rcases List.suffix_cons_iff.mp hs with he | hs
    · cases he
      exact ⟨hfound, hearlier⟩
    · exact ih hs

end Callbacks

namespace Run

variable [Movable α] {cb : Callbacks ω α ε} {w : ω} {r : Run ω α}

/-- Between a check and the next call. -/
structure Checked (cb : Callbacks ω α ε) (w : ω) (r : Run ω α) : Prop where
  world : r.world = cb.worldAfter w r.calls
  ledTo : cb.LedTo w r.latestCalls r.bench
  ordered : r.bench.Ordered
  lockstep : r.bench.Lockstep

/-- Between a call and the check: `ends` is what the sweep has still to do. -/
structure Unchecked (cb : Callbacks ω α ε) (w : ω) (ends : Bench α → Bench α) (call : Call α)
    (earlier : List (Call α)) (r : Run ω α) : Prop where
  world : r.world = cb.worldAfter w r.calls
  calls : r.latestCalls = call :: earlier
  found : call.bench.Lockstep
  ledTo : cb.LedTo w earlier call.bench
  ordered : r.bench.Ordered
  settled : (cb.settled (cb.worldAfter w earlier.reverse) call).SameSides (ends r.bench)

def Pending (cb : Callbacks ω α ε) (w : ω) (ends : Bench α → Bench α) (r : Run ω α) : Prop :=
  ∃ call earlier, r.Unchecked cb w ends call earlier

/-- Where a run stops, each call was made in lockstep, and led to by the earlier ones. -/
def Halted (cb : Callbacks ω α ε) (w : ω) (r : Run ω α) : Prop :=
  ∀ call earlier, call :: earlier <:+ r.latestCalls →
    call.bench.Lockstep ∧ cb.LedTo w earlier call.bench

theorem Checked.halted (h : r.Checked cb w) : r.Halted cb w := fun _ _ hs => h.ledTo.of_suffix hs

theorem halted_of_call {call : Call α} {earlier : List (Call α)}
    (hcalls : r.latestCalls = call :: earlier) (hfound : call.bench.Lockstep)
    (hled : cb.LedTo w earlier call.bench) : r.Halted cb w := by
  intro other before hs
  rw [hcalls] at hs
  rcases List.suffix_cons_iff.mp hs with he | hs
  · cases he
    exact ⟨hfound, hled⟩
  · exact hled.of_suffix hs

theorem Pending.halted {ends : Bench α → Bench α} (h : r.Pending cb w ends) : r.Halted cb w := by
  obtain ⟨call, earlier, h⟩ := h
  exact halted_of_call h.calls h.found h.ledTo

theorem Checked.mapJournal (h : r.Checked cb w) (f : Journal → Journal) (logged : Nat) :
    Checked cb w ⟨r.world, r.bench.mapJournal f, r.latestCalls, logged⟩ :=
  ⟨h.world, h.ledTo.of_sameSides ⟨rfl, rfl⟩, ⟨h.ordered.schedule, h.ordered.store⟩, h.lockstep⟩

variable {call next : Call α} {k : Nat}

theorem Halted.settled_of_next (h : r.Halted cb w) (hk : r.calls[k]? = some call)
    (hn : r.calls[k + 1]? = some next) :
    (cb.settled (cb.worldAfter w (r.calls.take k)) call).Lockstep ∧
      (cb.settled (cb.worldAfter w (r.calls.take k)) call).SameSides next.bench := by
  obtain ⟨before, hs, hbefore⟩ := exists_suffix_of_getElem? hn
  have hcut : before = call :: (r.calls.take k).reverse := by
    rw [← List.reverse_inj, hbefore, List.take_add_one, hk]
    simp
  have hled := (h next before hs).2
  rw [hcut] at hled
  cases hled with
  | call _ hsettled hsame _ =>
    rw [List.reverse_reverse] at hsettled hsame
    exact ⟨hsettled, hsame⟩

theorem Checked.settled_of_last (h : r.Checked cb w) (hk : r.calls[k]? = some call)
    (hlast : k + 1 = r.calls.length) :
    (cb.settled (cb.worldAfter w (r.calls.take k)) call).Lockstep := by
  have hcut : r.latestCalls = call :: (r.calls.take k).reverse := by
    have htake := List.take_length (l := r.calls)
    rw [← hlast, List.take_add_one, hk] at htake
    refine List.reverse_inj.mp (htake.symm.trans ?_)
    simp
  have hled := h.ledTo
  rw [hcut] at hled
  cases hled with
  | call _ hsettled _ _ => rwa [List.reverse_reverse] at hsettled

end Run

namespace Sweep

variable [Movable α]

/-- A part that ensures a property, or stops with all calls but the latest settled. -/
abbrev Guards (cb : Callbacks ω α ε) (w : ω) (P : Run ω α → Prop) (x : Sweep ω α ε β)
    (Q : β → Run ω α → Prop) : Prop := Ensures P x Q fun _ => Run.Halted cb w

variable {cb : Callbacks ω α ε} {w : ω}

theorem checked_callback {kind : CallKind} {n : Int} {y : α}
    {f : ω → Bench α → Except ε β × ω × Bench α} {ends : β → Bench α → Bench α}
    (hworld : ∀ v b, cb.tell v ⟨kind, n, y, b⟩ = (f v b).2.1)
    (hreach : ∀ v (b : Bench α), b.Reaches (f v b).2.2)
    (hsettled : ∀ v b a u c, f v b = (.ok a, u, c) →
      cb.settled v ⟨kind, n, y, b⟩ = ends a c) :
    Guards cb w (Run.Checked cb w) (callback kind n y f) fun a => Run.Pending cb w (ends a) := by
  refine Ensures.callback ?_ ?_
  · intro r a u c hr hf
    have hordered := hreach r.world r.bench
    have hnext := hworld r.world r.bench
    rw [hf] at hordered hnext
    refine ⟨_, _, ?_, rfl, hr.lockstep, hr.ledTo, hordered.ordered hr.ordered, ?_⟩
    · rw [Run.calls, List.reverse_cons, Callbacks.worldAfter_concat, ← Run.calls, ← hr.world]
      exact hnext.symm
    · rw [← Run.calls, ← hr.world, hsettled _ _ _ _ _ hf]
      exact ⟨rfl, rfl⟩
  · intro r e u c hr _
    exact Run.halted_of_call rfl hr.lockstep hr.ledTo

theorem checked_update (hcb : cb.Intervenes) (n : Int) (y : α) :
    Guards cb w (Run.Checked cb w) (update cb n y)
      fun next => Run.Pending cb w fun b => (b.offer (n + 1) next).2 := by
  refine checked_callback (fun _ _ => rfl) (hcb.update n y) ?_
  intro v b next u c hu
  simp only [Callbacks.settled, hu]

theorem checked_reverse (hcb : cb.Intervenes) (n : Int) (y : α) :
    Guards cb w (Run.Checked cb w) (reverse cb n y)
      fun _ => Run.Pending cb w fun b => (b.release n).2 := by
  refine checked_callback (fun _ _ => rfl) (hcb.reverse n y) ?_
  intro v b _ u c hu
  simp only [Callbacks.settled, hu]

theorem pending_onBench {ends : Bench α → Bench α} {f : Bench α → Except Fault β × Bench α}
    (hreach : ∀ b : Bench α, b.Reaches (f b).2) (hsame : ∀ b, (ends b).SameSides (f b).2) :
    Guards cb w (Run.Pending cb w ends) (onBench f) fun _ => Run.Pending cb w id := by
  have hnext (r : Run ω α) (hr : r.Pending cb w ends) :
      Run.Pending cb w id (r.withBench (f r.bench).2) := by
    obtain ⟨call, earlier, h⟩ := hr
    exact ⟨call, earlier, h.world, h.calls, h.found, h.ledTo,
      (hreach r.bench).ordered h.ordered, h.settled.trans (hsame r.bench)⟩
  refine Ensures.onBench ?_ ?_
  · intro r a c hr hf
    have hpending := hnext r hr
    rwa [hf] at hpending
  · intro r fault c hr hf
    have hpending := hnext r hr
    rw [hf] at hpending
    exact hpending.halted

theorem pending_verified :
    Guards cb w (Run.Pending cb w id) (verified true) fun _ => Run.Checked cb w := by
  refine Ensures.verified ?_ fun r _ hr => hr.halted
  rintro r ⟨call, earlier, h⟩ hchecked
  -- what is still to do is nothing, so that the call is settled in the bench just checked
  have hlock := h.ordered.inLockstep_iff.mp (hchecked rfl)
  refine ⟨h.world, ?_, h.ordered, hlock⟩
  rw [h.calls]
  exact .call h.found (h.settled.lockstep hlock) h.settled h.ledTo

theorem checked_changeJournal (f : Journal → Journal) :
    Guards cb w (Run.Checked cb w) (changeBench fun b => b.mapJournal f) fun _ =>
      Run.Checked cb w := Ensures.changeBench fun r hr => hr.mapJournal f r.logged

theorem checked_logIfDue (phase : String) (step : Int) :
    Guards cb w (Run.Checked cb w) (logIfDue phase step) fun _ => Run.Checked cb w :=
  Ensures.logIfDue (fun _ f logged hr => hr.mapJournal f logged) fun _ hr => hr

theorem checked_get (step : Int) :
    Guards cb w (Run.Checked cb w) (askBench fun b => b.store.get step) fun _ => Run.Checked cb w :=
  Ensures.askBench (fun _ _ hr _ => hr) fun _ _ hr _ => hr.halted

theorem checked_start (y : α) :
    Guards cb w (fun r => r.latestCalls = [] ∧ r.world = w ∧ r.bench.Ordered) (start true y)
      fun _ => Run.Checked cb w := by
  have hnone (r : Run ω α) (hr : r.latestCalls = []) : r.Halted cb w := by
    intro call earlier hs
    simp [hr] at hs
  refine Ensures.andThen (Q := fun _ r => r.latestCalls = [] ∧ r.world = w ∧ r.bench.Ordered)
    (Ensures.onBench ?_ fun r _ _ hr _ => hnone _ hr.1) fun _ => ?_
  · rintro r _ c ⟨hcalls, hworld, hordered⟩ hf
    have hc := (r.bench.reaches_keep 0 y).ordered hordered
    rw [hf] at hc
    exact ⟨hcalls, hworld, hc⟩
  · refine Ensures.verified ?_ fun r _ hr => hnone r hr.1
    rintro r ⟨hcalls, hworld, hordered⟩ hchecked
    refine ⟨?_, ?_, hordered, hordered.inLockstep_iff.mp (hchecked rfl)⟩
    · rw [Run.calls, hcalls, hworld]
      rfl
    · rw [hcalls]
      exact .start r.bench

theorem checked_forward (hcb : cb.Intervenes) (n : Nat) (y : α) :
    Guards cb w (Run.Checked cb w) (forward cb true n y) fun _ => Run.Checked cb w := by
  refine (checked_update hcb n y).andThen fun next => ?_
  refine (pending_onBench (fun b => b.reaches_offer (n + 1) next) fun _ => ⟨rfl, rfl⟩).andThen
    fun _ => ?_
  refine pending_verified.andThen fun _ => ?_
  refine (checked_changeJournal _).andThen fun _ => ?_
  exact (checked_logIfDue _ _).andThen fun _ => Ensures.done next fun _ hr => hr

theorem checked_recompute (hcb : cb.Intervenes) (last : Int) :
    Guards cb w (Run.Checked cb w) (recompute cb true last) fun _ => Run.Checked cb w := by
  refine (checked_get last).andThen fun y => ?_
  refine (checked_update hcb last y).andThen fun next => ?_
  refine (pending_onBench (fun b => b.reaches_offerAgain (last + 1) next)
    fun b => b.sameSides_offerAgain (last + 1) next).andThen fun _ => ?_
  exact pending_verified.andThen fun _ => checked_changeJournal _

theorem checked_reach (hcb : cb.Intervenes) (target : Int) :
    Guards cb w (Run.Checked cb w) (reach cb true target) fun _ => Run.Checked cb w := by
  refine Ensures.mono (Ensures.reach (P := Run.Checked cb w) (fun last => ?_) ?_)
    (fun _ hr => hr) (fun _ _ hr => hr.1) fun _ _ hr => hr
  · exact (checked_recompute hcb last).mono (fun _ hr => hr.1) (fun _ _ hr => hr) fun _ _ hr => hr
  · exact fun _ hr _ => hr.halted

theorem checked_stepBack (hcb : cb.Intervenes) (i : Nat) :
    Guards cb w (Run.Checked cb w) (stepBack cb true i) fun _ => Run.Checked cb w := by
  refine (checked_reach hcb i).andThen fun _ => ?_
  refine (checked_get i).andThen fun y => ?_
  refine (checked_reverse hcb i y).andThen fun _ => ?_
  refine (pending_onBench (fun b => b.reaches_release i) fun _ => ⟨rfl, rfl⟩).andThen fun _ => ?_
  refine pending_verified.andThen fun _ => ?_
  exact (checked_changeJournal _).andThen fun _ => checked_logIfDue _ _

theorem checked_sweepOf (hcb : cb.Intervenes) (steps : Except Fault Nat) (y : α) :
    Guards cb w (fun r => r.latestCalls = [] ∧ r.world = w ∧ r.bench.Ordered)
      (sweepOf cb true steps y) fun _ => Run.Checked cb w := by
  cases steps with
  | error fault =>
    exact (checked_start y).andThen fun _ => Ensures.askBench (fun _ _ hr _ => hr)
      fun _ _ hr _ => hr.halted
  | ok n =>
    have hforward := Ensures.advance (I := fun _ => Run.Checked cb w) (checked_forward hcb) n 0 y
    have hback := Ensures.retreat (I := fun _ => Run.Checked cb w) (checked_stepBack hcb) n
    refine (checked_start y).andThen fun _ => ?_
    refine hforward.andThen fun final => ?_
    exact hback.andThen fun _ => Ensures.done final fun _ hr => hr

end Sweep

namespace Setup

variable [Movable α] {s : Setup α} {cb : Callbacks ω α ε} {w : ω}
  {result : Except (Stop ε) α} {t : Run ω α}

theorem ends_of_verify (hv : s.verify = true) (hcb : cb.Intervenes)
    (hrun : s.run cb w = .ok (result, t)) :
    Sweep.Ends (fun _ => Run.Checked cb w) (fun _ => Run.Halted cb w) (result, t) := by
  obtain ⟨b, hb, hsweep⟩ := exists_bench_of_run hrun
  obtain ⟨_, hslots, hentries⟩ := bench_eq_ok hb
  have hordered : b.Ordered := by
    refine ⟨?_, ?_⟩
    · rw [hslots]
      exact List.Pairwise.nil
    · rw [Store.ascending_iff, hentries]
      exact List.Pairwise.nil
  rw [← hsweep, hv]
  exact Sweep.checked_sweepOf hcb s.steps.count s.state ⟨w, b, [], 0⟩ ⟨rfl, rfl, hordered⟩

/-- With checks, each call finds the same steps in store and schedule, whatever the callbacks did
before, and so does the caller at the end. What a call leaves is settled by the sweep's own step,
which the next call finds done. If the two still differ after it, the run stops and no call
follows. -/
theorem divergence_detected (hv : s.verify = true) (hcb : cb.Intervenes)
    (hrun : s.run cb w = .ok (result, t)) :
    (∀ call ∈ t.calls, call.bench.store.steps = call.bench.schedule.steps) ∧
      (∀ y, result = .ok y → t.bench.store.steps = t.bench.schedule.steps) ∧
      ∀ k call, t.calls[k]? = some call →
        (∀ next, t.calls[k + 1]? = some next →
          (cb.settled (cb.worldAfter w (t.calls.take k)) call).SameSides next.bench) ∧
        (¬ (cb.settled (cb.worldAfter w (t.calls.take k)) call).Lockstep →
          k + 1 = t.calls.length ∧ ∃ e, result = .error e) := by
  have hends := ends_of_verify hv hcb hrun
  have hhalted : t.Halted cb w := by
    cases hends with
    | ok _ _ h => exact h.halted
    | error _ _ h => exact h
  refine ⟨?_, ?_, ?_⟩
  · intro call hm
    obtain ⟨k, hk⟩ := List.getElem?_of_mem hm
    obtain ⟨earlier, hs, _⟩ := Run.exists_suffix_of_getElem? hk
    exact (hhalted call earlier hs).1
  · rintro y rfl
    cases hends with
    | ok _ _ h => exact h.lockstep
  · intro k call hk
    refine ⟨fun next hn => (hhalted.settled_of_next hk hn).2, fun hdiverged => ?_⟩
    -- a call that another one follows has settled in lockstep
    have hlast : k + 1 = t.calls.length := by
      have hlt := (List.getElem?_eq_some_iff.mp hk).1
      by_contra hne
      have hn := List.getElem?_eq_getElem (show k + 1 < t.calls.length by omega)
      exact hdiverged (hhalted.settled_of_next hk hn).1
    refine ⟨hlast, ?_⟩
    cases hends with
    | ok _ _ h => exact absurd (h.settled_of_last hk hlast) hdiverged
    | error e _ _ => exact ⟨e, rfl⟩

/-- The first update puts a state early, which the sweep makes good. The second one erases a
step. -/
def meddlingScript : Script Nat where
  next := fun _ _ x => .ok (x + 1)
  interventions :=
    [(⟨.update, some 0, none⟩, [.store (.put 1 (.ok 7))]),
      (⟨.update, some 1, none⟩, [.schedule (.erase 1)])]

def meddled : Setup Nat := ⟨.int 3, .int 2, 0, .fromStorageSize, {}, none, true, 0⟩

theorem divergence_detected_meddled :
    let cb := meddlingScript.callbacks
    ∃ t first second, meddled.run cb 0 =
        .ok (.error (.fault (.outOfLockstep [0, 1, 2] [0, 2])), t) ∧ t.calls = [first, second] ∧
      second.bench.schedule.steps = [0, 1] ∧ second.bench.store.steps = [0, 1] ∧
      (cb.settled (cb.worldAfter 0 []) first).SameSides second.bench ∧
      ¬ (cb.settled (cb.worldAfter 0 [first]) second).Lockstep ∧ 1 + 1 = t.calls.length := by
  intro cb
  obtain ⟨t, first, second, hrun, hcalls, hsteps, hstored, hheld⟩ : ∃ t first second,
      meddled.run cb 0 = .ok (.error (.fault (.outOfLockstep [0, 1, 2] [0, 2])), t) ∧
      t.calls = [first, second] ∧ second.bench.schedule.steps = [0, 1] ∧
      (cb.settled (cb.worldAfter 0 [first]) second).store.steps = [0, 1, 2] ∧
      (cb.settled (cb.worldAfter 0 [first]) second).schedule.steps = [0, 2] :=
    ⟨_, _, _, rfl, rfl, rfl, rfl, rfl⟩
  obtain ⟨hfound, _, hsettled⟩ :=
    divergence_detected rfl meddlingScript.callbacks_intervenes hrun
  rw [hcalls] at hfound hsettled
  have hdiverged : ¬ (cb.settled (cb.worldAfter 0 [first]) second).Lockstep := by
    rw [Bench.Lockstep, hstored, hheld]
    decide
  refine ⟨t, first, second, hrun, hcalls, hsteps, ?_, ?_, hdiverged, ?_⟩
  · rw [hfound second (by simp), hsteps]
  · exact (hsettled 0 first rfl).1 second rfl
  · rw [hcalls]
    exact ((hsettled 1 second rfl).2 hdiverged).1

end Setup
end ReverseSweep
