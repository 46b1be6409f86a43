import ReverseSweep.Proofs.Interruption
import ReverseSweep.Proofs.Trajectory

/-! What is resident while a sweep runs. Whenever a call starts, store and schedule agree, the call
is made on the latest step, and no more is held than the budget and step 0, not even while a state
is offered. -/

namespace ReverseSweep

variable {ω α ε : Type}

namespace Store

theorem length_insertEntry_le (step : Int) (state : α) (entries : List (Int × α)) :
    (insertEntry step state entries).length ≤ entries.length + 1 := by
  induction entries with
  | nil => simp [insertEntry]
  | cons entry rest ih =>
    simp only [insertEntry]
    split
    · simp
    · split
      · simp
      · simpa using ih

theorem size_discard_of_mem {s : Store α} {step : Int} (h : step ∈ s.steps) :
    (s.discard step).2.size + 1 = s.size := by
  obtain ⟨entry, hm, he⟩ := List.mem_map.mp h
  have hlen : (s.entries.eraseP (·.1 == step)).length = s.entries.length - 1 :=
    List.length_eraseP_of_mem hm (by simp [he])
  have hpos : 0 < s.entries.length := List.length_pos_of_mem hm
  rw [discard_of_mem h]
  simp only [size, hlen]
  omega

theorem size_discard_le (s : Store α) (step : Int) : (s.discard step).2.size ≤ s.size := by
  unfold discard
  split
  · exact List.eraseP_sublist.length_le
  · exact Nat.le_refl _

end Store

namespace Bench

theorem store_size_release_le (b : Bench α) (step : Int) :
    (b.release step).2.store.size ≤ b.store.size := by
  unfold release
  split
  · exact b.store.size_discard_le step
  · exact Nat.le_refl _
  · exact Nat.le_refl _

variable [Movable α]

/-- The benches that an offer goes through, from the one it is made on to the one it leaves. What
the schedule evicts is discarded before the state is put. -/
def offerStages (b : Bench α) (step : Int) (state : α) : List (Bench α) :=
  match b.schedule.offer step with
  | (.error _, s) => [b, b.withSchedule s]
  | (.ok .dropped, s) => [b, b.withSchedule s]
  | (.ok .kept, s) => [b, b.withSchedule s, ((b.withSchedule s).put step state).2]
  | (.ok (.evicted old), s) =>
    match b.store.discard old with
    | (false, _) => [b, b.withSchedule s]
    | (true, store) =>
      let emptied := (b.withSchedule s).withStore store
      [b, b.withSchedule s, emptied, (emptied.put step state).2]

theorem snd_putOffered (b : Bench α) (step : Int) (state : α) :
    (b.putOffered step state).2 = (b.put step state).2 := by
  unfold putOffered
  split <;> simp_all

theorem getLast?_offerStages (b : Bench α) (step : Int) (state : α) :
    (b.offerStages step state).getLast? = some (b.offer step state).2 := by
  unfold offerStages offer
  rcases b.schedule.offer step with ⟨_ | admission, s⟩
  · rfl
  · cases admission with
    | kept => simp [snd_putOffered]
    | dropped => rfl
    | evicted old =>
      dsimp only
      rcases b.store.discard old with ⟨_ | _, store⟩
      · rfl
      · simp [snd_putOffered]

theorem store_size_put_le (b : Bench α) (step : Int) (state : α) :
    (b.put step state).2.store.size ≤ b.store.size + 1 := by
  unfold put Store.put
  cases b.store.settle state with
  | error fault => exact Nat.le_succ _
  | ok kept => exact Store.length_insertEntry_le step kept b.store.entries

/-- A state is put only where there is room, or after the discard of another one. -/
theorem store_size_offerStages_le {b : Bench α} (hl : b.Lockstep) {bound : Nat}
    (hsize : b.schedule.size ≤ bound)
    (hroom : b.schedule.capacity.above b.schedule.size = true → b.schedule.size < bound)
    (step : Int) (state : α) : ∀ stage ∈ b.offerStages step state, stage.store.size ≤ bound := by
  have hb : b.store.size ≤ bound := hl.size_eq ▸ hsize
  unfold offerStages
  split
  · exact List.forall_mem_cons.mpr ⟨hb, List.forall_mem_singleton.mpr hb⟩
  · exact List.forall_mem_cons.mpr ⟨hb, List.forall_mem_singleton.mpr hb⟩
  · rename_i s ho
    obtain ⟨_, hadmits, _⟩ := Schedule.offer_eq_ok ho
    generalize s.slots = slots at hadmits
    cases hadmits with
    | kept habove =>
      have hlt : b.store.size < bound := hl.size_eq ▸ hroom habove
      have hput := Nat.le_trans (store_size_put_le (b.withSchedule s) step state) hlt
      exact List.forall_mem_cons.mpr
        ⟨hb, List.forall_mem_cons.mpr ⟨hb, List.forall_mem_singleton.mpr hput⟩⟩
  · rename_i old s ho
    obtain ⟨_, hadmits, _⟩ := Schedule.offer_eq_ok ho
    have hmem : old ∈ b.store.steps := by
      rw [hl]
      generalize s.slots = slots at hadmits
      cases hadmits with
      | evicted _ i hi => exact List.mem_map_of_mem (List.getElem_mem hi)
    split
    · exact List.forall_mem_cons.mpr ⟨hb, List.forall_mem_singleton.mpr hb⟩
    · rename_i store hd
      have hless : store.size + 1 ≤ bound := by
        have hdiscard := Store.size_discard_of_mem hmem
        rw [hd] at hdiscard
        exact hdiscard ▸ hb
      have hput := Nat.le_trans
        (store_size_put_le ((b.withSchedule s).withStore store) step state) hless
      exact List.forall_mem_cons.mpr ⟨hb, List.forall_mem_cons.mpr ⟨hb, List.forall_mem_cons.mpr
        ⟨Nat.le_of_succ_le hless, List.forall_mem_singleton.mpr hput⟩⟩⟩

end Bench

namespace Sweep

variable [Movable α] {cb : Callbacks ω α ε} {verify : Bool} {r r₀ r₁ : Run ω α} {y z : α}

theorem advance_add (a b n : Nat) (y : α) :
    advance cb verify (a + b) n y =
      advance cb verify a n y >>= fun z => advance cb verify b (n + a) z := by
  induction a generalizing n y with
  | zero => simp [advance]
  | succ a ih =>
    rw [show a + 1 + b = a + b + 1 by omega]
    simp only [advance, ih, bind_assoc, show n + 1 + a = n + (a + 1) by omega]

theorem cons_suffix_of_advance (count n : Nat) (y : α) (r : Run ω α) :
    ⟨.update, n, y, r.bench⟩ :: r.latestCalls <:+
      (advance cb verify (count + 1) n y r).2.latestCalls := by
  have h := parallel_grows cb
  rw [advance]
  refine suffix_andThen (update cb n y) (fun next => ?_) r
  refine (h.onBench _).andThen fun _ => (h.verified verify).andThen fun _ => ?_
  exact (h.onBench _).andThen fun _ => (h.logIfDue _ _).andThen fun _ => h.advance verify count _ _

theorem cons_suffix_of_sweep {j steps : Nat}
    (hstart : (start verify y : Sweep ω α ε Unit) r = (.ok (), r₀))
    (hadvance : advance cb verify j 0 y r₀ = (.ok z, r₁)) (hj : j < steps) :
    ⟨.update, j, z, r₁.bench⟩ :: r₁.latestCalls <:+
      (sweep cb verify steps y r).2.latestCalls := by
  obtain ⟨count, rfl⟩ : ∃ count, steps = j + (count + 1) := ⟨steps - j - 1, by omega⟩
  have h := parallel_grows cb
  have hfirst : ⟨.update, j, z, r₁.bench⟩ :: r₁.latestCalls <:+
      (advance cb verify (count + 1) j z r₁).2.latestCalls := cons_suffix_of_advance count j z r₁
  have hall : advance cb verify (j + (count + 1)) 0 y r₀ =
      advance cb verify (count + 1) j z r₁ := by
    rw [advance_add, bind_of_ok hadvance, Nat.zero_add]
  rw [← hall] at hfirst
  rw [sweep, bind_of_ok hstart]
  exact hfirst.trans (suffix_andThen _
    (fun _ => (h.retreat verify _).andThen fun _ => h.done _) r₀)

end Sweep

/-- What a call finds when it starts: schedule and store agree, and the latest step is its own. -/
structure Call.Finds [Movable α] (call : Call α) (budget : Nat) (x : Nat → α) (k : Nat) :
    Prop where
  step : call.step = k
  state : call.state = x k
  latest : call.bench.schedule.latest? = some (k : Int)
  lockstep : call.bench.store.steps = call.bench.schedule.steps
  root : (0 : Int) ∈ call.bench.schedule.steps
  persistent_iff : ∀ slot ∈ call.bench.schedule.slots, slot.persistent = true ↔ slot.step = 0
  residents : ∀ entry ∈ call.bench.store.entries, ∃ i : Nat, entry = ((i : Int), x i)
  size_le : call.bench.schedule.size ≤ min k budget + 1
  store_size_le : call.bench.store.size ≤ budget + 1
  offer : ∀ b : Bench α, b.schedule = call.bench.schedule → b.store = call.bench.store →
    ∀ step y, ∀ stage ∈ b.offerStages step y, stage.store.size ≤ budget + 1
  release : ∀ b : Bench α, b.store = call.bench.store →
    ∀ step, (b.release step).2.store.size ≤ budget + 1

theorem Course.Sees.finds [Movable α] {c : Course ω α ε} {call : Call α} {k : Nat} (h : c.Sees call k)
    {x : Nat → α} (hmade : ∀ k y, c.made k y → y = x k) (hkept : ∀ k y, c.kept k y → y = x k) :
    call.Finds c.budget x k := by
  obtain ⟨hstep, hholds, hstate⟩ := h
  have hrooted := hholds.rooted
  have hlock := hholds.lockstep
  have hsize := hrooted.size_le
  have hlatest := hrooted.size_le_latest hholds.latest
  have hstore : call.bench.store.size ≤ c.budget + 1 := hlock.size_eq ▸ hsize
  refine ⟨hstep, hstate.elim (hmade k _) (hkept k _), hholds.latest, hlock, hrooted.zero_mem,
    fun slot hm => hrooted.persistent_iff hm, ?_, by omega, hstore, ?_, ?_⟩
  · intro entry he
    have hmem : entry.1 ∈ call.bench.schedule.steps := hlock ▸ List.mem_map_of_mem he
    have hnonneg := hrooted.step_nonneg hmem
    refine ⟨entry.1.toNat, ?_⟩
    rw [Int.toNat_of_nonneg hnonneg, ← hkept _ _ (hholds.kept entry he)]
  · intro b hs ht
    have hlock' : b.Lockstep := by rw [Bench.Lockstep, hs, ht]; exact hlock
    exact Bench.store_size_offerStages_le hlock' (hs ▸ hsize) (hs ▸ hrooted.above_iff.mp)
  · intro b ht step
    exact (b.store_size_release_le step).trans (ht ▸ hstore)

/-- The store keeps these states as they are. -/
def Store.Preserves [Movable α] (s : Store α) (x : Nat → α) : Prop := ∀ i, s.settle (x i) = .ok (x i)

namespace Setup

variable [Movable α] {s : Setup α} {cb : Callbacks ω α ε} {n m j budget : Nat} {f : Nat → α → α}

def courseAlong (s : Setup α) (cb : Callbacks ω α ε) (f : Nat → α → α) (n budget : Nat) :
    Course ω α ε :=
  s.course cb n budget (fun k y => y = trajectory f s.state k) fun k y => y = trajectory f s.state k

theorem courseAlong_steady (hcb : cb.Computes f) (hb : 1 ≤ budget) (hm : (m : Int) < noStep)
    (hstore : s.store.Preserves (trajectory f s.state)) :
    (s.courseAlong cb f m budget).Steady := by
  refine course_steady hcb hb hm (fun k y hy => ⟨y, ?_, hy⟩) ?_
  · rw [hy]
    exact hstore k
  · intro k y z hy hz
    obtain hy : y = trajectory f s.state k := hy.elim id id
    rw [hz, hy]
    rfl

theorem courseAlong_finds {call : Call α} {k : Nat}
    (h : (s.courseAlong cb f m budget).Sees call k) :
    call.Finds budget (trajectory f s.state) k := h.finds (fun _ _ hy => hy) fun _ _ hy => hy

/-- The way forward as far as the step `m`, whatever comes after it. -/
theorem Asks.exists_advance (h : s.Asks n budget) (hb : 1 ≤ budget) (hcb : cb.Computes f)
    (hstore : s.store.Preserves (trajectory f s.state)) (hm : (m : Int) < noStep) (w : ω) :
    ∃ r₀ r₁, (Sweep.start s.verify s.state : Sweep ω α ε Unit) ⟨w, s.begin budget, [], 0⟩ =
        (.ok (), r₀) ∧
      Sweep.advance cb s.verify m 0 s.state r₀ = (.ok (trajectory f s.state m), r₁) ∧
      (s.courseAlong cb f m budget).Reached r₁ m ⟨m, 0, 0⟩ ∧ r₁.latestCalls.length = m := by
  have hc := courseAlong_steady hcb hb hm hstore
  obtain ⟨r₀, hstart, h₀, hcalls₀⟩ := (h.begins).reached_start hc rfl w
  obtain ⟨z, r₁, hadvance, hz, h₁, hcalls₁⟩ :=
    Course.Reached.advance hc m h₀ (Nat.le_of_eq (Nat.zero_add m)) rfl
  rw [Nat.zero_add] at hz h₁
  obtain rfl : z = trajectory f s.state m := hz
  refine ⟨r₀, r₁, hstart, hadvance, h₁, ?_⟩
  rw [hcalls₀, List.nil_append] at hcalls₁
  simpa [updates, Run.headings, Run.calls] using congrArg List.length hcalls₁

theorem Asks.exists_forward_call (h : s.Asks n budget) (hb : 1 ≤ budget) (hcb : cb.Computes f)
    (hstore : s.store.Preserves (trajectory f s.state)) (hn : (n : Int) ≤ Json.greatestIndex)
    (hj : j < n) (w : ω) :
    ∃ p call, s.run cb w = .ok p ∧ p.2.calls[j]? = some call ∧ call.kind = .update ∧
      call.Finds budget (trajectory f s.state) j ∧
      call.bench.schedule.size = min j budget + 1 := by
  have hmost : Json.greatestIndex = noStep := rfl
  obtain ⟨r₀, r₁, hstart, hadvance, h₁, hlen⟩ :=
    h.exists_advance hb hcb hstore (show (j : Int) < noStep by omega) w
  have hcall := Run.getElem?_calls_of_suffix (Sweep.cons_suffix_of_sweep hstart hadvance hj)
  rw [hlen] at hcall
  exact ⟨_, _, h.run_eq hb hn, hcall, rfl, courseAlong_finds ⟨rfl, h₁.holds, .inl rfl⟩,
    h₁.counts.filled rfl rfl⟩

/-- Where the last step is the number that stands for none, a sweep ends with its refusal. -/
theorem Asks.exists_run_noStep (h : s.Asks n budget) (hb : 1 ≤ budget) (hcb : cb.Computes f)
    (hstore : s.store.Preserves (trajectory f s.state)) (hn : (n : Int) = noStep) (w : ω) :
    ∃ t, s.run cb w = .ok (.error (.fault (.invalidStep noStep)), t) ∧ t.calls.length = n := by
  have hpos : 0 < noStep := by decide
  obtain ⟨m, rfl⟩ : ∃ m, n = m + 1 := ⟨n - 1, by omega⟩
  obtain ⟨r₀, r₁, hstart, hadvance, _, hlen⟩ :=
    h.exists_advance hb hcb hstore (show (m : Int) < noStep by omega) w
  obtain ⟨z, w', b, hu, _⟩ := hcb.update m (trajectory f s.state m) r₁.world r₁.bench
  let t : Run ω α :=
    ⟨w', b, ⟨.update, m, trajectory f s.state m, r₁.bench⟩ :: r₁.latestCalls, r₁.logged⟩
  have hoffer : (Sweep.onBench fun b => b.offer ((m : Int) + 1) z : Sweep ω α ε Bool) t =
      (.error (.fault (.invalidStep noStep)), t) := by
    rw [show ((m : Int) + 1) = noStep from hn]
    simp only [Sweep.onBench, Bench.offer, Schedule.offer_noStep]
    rfl
  have hrefused : Sweep.advance cb s.verify (m + 1) 0 s.state r₀ =
      (.error (.fault (.invalidStep noStep)), t) := by
    rw [Sweep.advance_add, Sweep.bind_of_ok hadvance, Nat.zero_add, Sweep.advance,
      Sweep.bind_of_ok (Sweep.update_of_ok hu)]
    exact Sweep.bind_of_error hoffer _
  refine ⟨t, ?_, by simp [Run.calls, t, hlen]⟩
  rw [h.run_eq hb (Int.le_of_eq hn), Sweep.sweep, Sweep.bind_of_ok hstart,
    Sweep.bind_of_error hrefused]

theorem Asks.forward_call_finds (h : s.Asks n budget) (hb : 1 ≤ budget) (hcb : cb.Computes f)
    (hstore : s.store.Preserves (trajectory f s.state)) (hn : (n : Int) ≤ Json.greatestIndex)
    {w : ω} {p : Except (Stop ε) α × Run ω α} (hrun : s.run cb w = .ok p) {call : Call α}
    (hcall : p.2.calls[j]? = some call) (hj : j < n) :
    call.kind = .update ∧ call.Finds budget (trajectory f s.state) j ∧
      call.bench.schedule.size = min j budget + 1 := by
  obtain ⟨p', call', hrun', hcall', hfinds⟩ := h.exists_forward_call hb hcb hstore hn hj w
  obtain rfl := Except.ok.inj (hrun'.symm.trans hrun)
  obtain rfl := Option.some.inj (hcall'.symm.trans hcall)
  exact hfinds

/-- Whatever the number of steps is, each call finds what the schedule has for it, and the first
calls are the updates of the way forward. -/
theorem Asks.exists_run_finds (h : s.Asks n budget) (hb : 1 ≤ budget) (hcb : cb.Computes f)
    (hstore : s.store.Preserves (trajectory f s.state)) (w : ω) :
    ∃ p, s.run cb w = .ok p ∧ ∀ j call, p.2.calls[j]? = some call →
      (∃ k, call.Finds budget (trajectory f s.state) k) ∧
        (j < n → call.kind = .update ∧ call.Finds budget (trajectory f s.state) j ∧
          call.bench.schedule.size = min j budget + 1) := by
  have hmost : Json.greatestIndex = noStep := rfl
  -- the sweep ends, or is refused at its last step, or does not come to a call at all
  rcases Int.lt_trichotomy n noStep with hn | hn | hn
  · have hc := courseAlong_steady hcb hb hn hstore
    obtain ⟨z, t, held, hrun, _, hcompletes⟩ := h.exists_completes hc rfl w
    refine ⟨_, hrun, fun j call hcall => ⟨?_, ?_⟩⟩
    · obtain ⟨k, hsees⟩ :=
        hcompletes.reached.sees call (List.mem_reverse.mp (List.mem_of_getElem? hcall))
      exact ⟨k, courseAlong_finds hsees⟩
    · exact h.forward_call_finds hb hcb hstore (by omega) hrun hcall
  · obtain ⟨t, hrun, hlen⟩ := h.exists_run_noStep hb hcb hstore hn w
    refine ⟨_, hrun, fun j call hcall => ?_⟩
    have hj : j < n := hlen ▸ (List.getElem?_eq_some_iff.mp hcall).1
    have hforward := h.forward_call_finds hb hcb hstore (by omega) hrun hcall hj
    exact ⟨⟨j, hforward.2.1⟩, fun _ => hforward⟩
  · have hc : (s.courseAlong cb f 0 budget).Steady :=
      courseAlong_steady hcb hb (by decide) hstore
    obtain ⟨t, hrun, _, hcalls⟩ := h.exists_run_tooManySteps_of_steady (by omega) hc rfl w
    exact ⟨_, hrun, fun j call hcall => by simp [hcalls] at hcall⟩

end Setup

/-- Callbacks that may fail at any call, but leave schedule and store alone. Where an update does not
fail, `f` says what it gives. -/
structure Callbacks.Attempts (cb : Callbacks ω α ε) (f : Nat → α → α) : Prop where
  update : ∀ (n : Nat) y w b, (∀ z, (cb.update n y w b).1 = .ok z → z = f n y) ∧
    (cb.update n y w b).2.2.schedule = b.schedule ∧ (cb.update n y w b).2.2.store = b.store
  reverse : ∀ (n : Nat) y w b, (cb.reverse n y w b).2.2.schedule = b.schedule ∧
    (cb.reverse n y w b).2.2.store = b.store

namespace Callbacks

variable {cb : Callbacks ω α ε} {f : Nat → α → α}

theorem Computes.attempts (h : cb.Computes f) : cb.Attempts f where
  update := by
    intro n y w b
    obtain ⟨z, w', b', hu, hz, hsame⟩ := h.update n y w b
    rw [hu]
    exact ⟨fun z' hz' => (Except.ok.inj hz').symm.trans hz, hsame⟩
  reverse := by
    intro n y w b
    obtain ⟨w', b', hu, hsame⟩ := h.reverse n y w b
    rw [hu]
    exact hsame

/-- The same callbacks, if they went on where they fail. -/
def completed (cb : Callbacks ω α ε) (f : Nat → α → α) : Callbacks ω α ε where
  update n y w b :=
    let (result, w, b) := cb.update n y w b
    match result with
    | .ok z => (.ok z, w, b)
    | .error _ => (.ok (f n.toNat y), w, b)
  reverse n y w b := (.ok (), (cb.reverse n y w b).2)

theorem completed_of_ok {n : Int} {y z : α} {w w' : ω} {b b' : Bench α}
    (h : cb.update n y w b = (.ok z, w', b')) (f : Nat → α → α) :
    (cb.completed f).update n y w b = (.ok z, w', b') := by
  simp only [completed, h]

theorem completed_of_error {n : Int} {y : α} {e : ε} {w w' : ω} {b b' : Bench α}
    (h : cb.update n y w b = (.error e, w', b')) (f : Nat → α → α) :
    (cb.completed f).update n y w b = (.ok (f n.toNat y), w', b') := by
  simp only [completed, h]

theorem Attempts.computes_completed (h : cb.Attempts f) : (cb.completed f).Computes f where
  update := by
    intro n y w b
    obtain ⟨hz, hsame⟩ := h.update n y w b
    rcases hu : cb.update n y w b with ⟨e | z, w', b'⟩ <;> rw [hu] at hz hsame
    · exact ⟨_, w', b', completed_of_error hu f, rfl, hsame⟩
    · exact ⟨z, w', b', completed_of_ok hu f, hz z rfl, hsame⟩
  reverse := fun n y w b => ⟨_, _, rfl, h.reverse n y w b⟩

def someFailure (ω α ε : Type) : Interruption ω ω α ε where
  same := fun _ w w' => w = w'
  fails := fun _ _ _ _ => True

theorem someFailure_cuts (cb : Callbacks ω α ε) (f : Nat → α → α) :
    (someFailure ω α ε).Cuts cb (cb.completed f) where
  update := by
    rintro n y _ w _ rfl b
    rcases hu : cb.update n y w b with ⟨e | z, w', b'⟩
    · exact .inr ⟨e, w', b', rfl, trivial⟩
    · exact .inl ⟨.ok z, w', w', b', rfl, completed_of_ok hu f, rfl⟩
  reverse := by
    rintro n y _ w _ rfl b
    rcases hu : cb.reverse n y w b with ⟨e | _, w', b'⟩
    · exact .inr ⟨e, w', b', rfl, trivial⟩
    · have hc : (cb.completed f).reverse n y w b = (.ok (), w', b') := by
        simp only [completed, hu]
      exact .inl ⟨.ok (), w', w', b', rfl, hc, rfl⟩

end Callbacks

namespace Setup

variable [Movable α] {s : Setup α} {cb : Callbacks ω α ε} {n budget : Nat} {f : Nat → α → α}

/-- At the start of each call, also of one that fails later on, schedule and store hold the same
steps, step 0 among them as the only persistent one, with the states of the trajectory. The latest
of them is the step of the call, and there are no more of them than that step and the budget allow;
on the way forward there are just as many. Neither an offer nor a release goes beyond the budget. -/
theorem Asks.residents_bounded (h : s.Asks n budget) (hb : 1 ≤ budget) (hcb : cb.Attempts f)
    (hstore : s.store.Preserves (trajectory f s.state)) (w : ω) :
    ∃ result t, s.run cb w = .ok (result, t) ∧ ∀ j call, t.calls[j]? = some call →
      (∃ k, call.Finds budget (trajectory f s.state) k) ∧
        (j < n → call.kind = .update ∧ call.Finds budget (trajectory f s.state) j ∧
          call.bench.schedule.size = min j budget + 1) := by
  -- up to the failure its calls are those of callbacks that go on
  obtain ⟨p', hrun', hfinds⟩ := h.exists_run_finds hb hcb.computes_completed hstore w
  obtain ⟨⟨result, t⟩, hrun, hout⟩ :=
    exists_run_outcome (Callbacks.someFailure_cuts cb f) (Eq.refl w) hrun'
  obtain ⟨later, hlater⟩ := hout.initial_calls
  refine ⟨result, t, hrun, fun j call hcall => hfinds j call ?_⟩
  have hj : j < t.calls.length := (List.getElem?_eq_some_iff.mp hcall).1
  rwa [← hlater, List.getElem?_append_left hj]

theorem residents_bounded_five_two :
    ∃ result t, (counted 5 2).run BudgetGrid.counting () = .ok (result, t) ∧
      ∃ call, t.calls[3]? = some call ∧ call.step = 3 ∧ call.bench.schedule.size = 3 ∧
        call.bench.store.steps = call.bench.schedule.steps := by
  obtain ⟨result, t, hrun, hfinds⟩ := (asks_counted 5 2).residents_bounded (by decide)
    computes_counting.attempts (fun _ => rfl) ()
  obtain ⟨p, call, hrun', hcall, _⟩ := (asks_counted 5 2).exists_forward_call (by decide)
    computes_counting (fun _ => rfl) (by decide) (show 3 < 5 by decide) ()
  obtain rfl := Except.ok.inj (hrun'.symm.trans hrun)
  obtain ⟨_, hforward, hsize⟩ := (hfinds 3 call hcall).2 (by decide)
  exact ⟨result, t, hrun, call, hcall, hforward.step, hsize, hforward.lockstep⟩

end Setup
end ReverseSweep
