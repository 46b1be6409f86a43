import ReverseSweep.Proofs.Course
import ReverseSweep.Sweep.Replay

/-! The loops of a sweep, one pass at a time. A pass that succeeds is an equation between runs, and
each pass keeps what is known of a course. -/

namespace ReverseSweep

def Call.heading {α : Type} (call : Call α) : CallKind × Int := (call.kind, call.step)

def Run.headings {ω α : Type} (r : Run ω α) : List (CallKind × Int) := r.calls.map Call.heading

theorem Run.headings_cons {ω α : Type} (r : Run ω α) (w : ω) (b : Bench α) (call : Call α) :
    Run.headings ⟨w, b, call :: r.latestCalls, r.logged⟩ = r.headings ++ [call.heading] := by
  simp [headings, calls]

def updates (start count : Nat) : List (CallKind × Int) :=
  (List.range' start count).map fun (n : Nat) => (.update, (n : Int))

theorem updates_succ (start count : Nat) :
    updates start (count + 1) = (.update, (start : Int)) :: updates (start + 1) count := rfl

theorem fst_of_mem_updates {start count : Nat} {heading : CallKind × Int}
    (h : heading ∈ updates start count) : heading.1 = .update := by
  obtain ⟨n, _, rfl⟩ := List.mem_map.mp h
  rfl

/-- The calls of a step back over `i`, when the latest step held before it is `held i`. -/
def backCalls (held : Nat → Nat) (i : Nat) : List (CallKind × Int) :=
  updates (held i) (i - held i) ++ [(.reverse, (i : Int))]

namespace Sweep

variable {ω α ε β γ δ : Type} {r t : Run ω α}

theorem bind_of_ok {x : Sweep ω α ε β} {a : β} (h : x r = (.ok a, t))
    (f : β → Sweep ω α ε γ) : (x >>= f) r = f a t := by
  rw [bind_apply, h]

theorem exists_of_bind_eq_ok {x : Sweep ω α ε β} {f : β → Sweep ω α ε γ} {a : γ}
    (h : (x >>= f) r = (.ok a, t)) : ∃ b s, x r = (.ok b, s) ∧ f b s = (.ok a, t) := by
  rw [bind_apply] at h
  split at h
  · exact ⟨_, _, ‹_›, h⟩
  · cases h

theorem bind_pure_apply (x : Sweep ω α ε β) (r : Run ω α) : (x >>= pure) r = x r := by
  rw [bind_apply]
  split <;> simp_all [pure_apply]

theorem bind_assoc_apply (x : Sweep ω α ε β) (f : β → Sweep ω α ε γ)
    (g : γ → Sweep ω α ε δ) (r : Run ω α) :
    (x >>= f >>= g) r = (x >>= fun a => f a >>= g) r := by
  simp only [bind_apply]
  rcases x r with ⟨_ | _, _⟩ <;> rfl

instance : LawfulMonad (Sweep ω α ε) :=
  .mk' _ (fun x => funext (bind_pure_apply x)) (fun _ _ => rfl)
    fun x f g => funext (bind_assoc_apply x f g)

theorem onBench_of_ok {f : Bench α → Except Fault β × Bench α} {a : β} {b : Bench α}
    (h : f r.bench = (.ok a, b)) :
    (onBench f : Sweep ω α ε β) r = (.ok a, r.withBench b) := by
  simp only [onBench, h, Except.mapError]

theorem askBench_of_ok {f : Bench α → Except Fault β} {a : β} (h : f r.bench = .ok a) :
    (askBench f : Sweep ω α ε β) r = (.ok a, r) :=
  onBench_of_ok (by rw [h])

theorem update_of_ok {cb : Callbacks ω α ε} {step : Int} {state next : α} {w : ω} {b : Bench α}
    (h : cb.update step state r.world r.bench = (.ok next, w, b)) :
    update cb step state r =
      (.ok next, ⟨w, b, ⟨.update, step, state, r.bench⟩ :: r.latestCalls, r.logged⟩) := by
  simp only [update, callback, h, Except.mapError]

theorem reverse_of_ok {cb : Callbacks ω α ε} {step : Int} {state : α} {w : ω} {b : Bench α}
    (h : cb.reverse step state r.world r.bench = (.ok (), w, b)) :
    reverse cb step state r =
      (.ok (), ⟨w, b, ⟨.reverse, step, state, r.bench⟩ :: r.latestCalls, r.logged⟩) := by
  simp only [reverse, callback, h, Except.mapError]

theorem verified_of_lockstep (h : r.bench.Lockstep) (verify : Bool) :
    (verified verify : Sweep ω α ε Unit) r = (.ok (), r) := by
  unfold verified
  split
  · exact askBench_of_ok h.requireLockstep
  · rfl

theorem exists_logIfDue_eq_ok (r : Run ω α) (phase : String) (step : Int) :
    ∃ t, (logIfDue phase step : Sweep ω α ε Unit) r = (.ok (), t) ∧
      t.bench.schedule = r.bench.schedule ∧ t.bench.store = r.bench.store ∧
      t.bench.journal.map Journal.progress = r.bench.journal.map Journal.progress ∧
      t.latestCalls = r.latestCalls := by
  unfold logIfDue
  split
  · refine ⟨_, rfl, rfl, rfl, ?_, rfl⟩
    simp only [Bench.log, Bench.mapJournal, Option.map_map]
    rfl
  · exact ⟨r, rfl, rfl, rfl, rfl, rfl⟩

variable [Movable α] {cb : Callbacks ω α ε} {verify : Bool} {target last : Int}

theorem reach_of_le (h : r.bench.schedule.latest? = some last) (hl : target ≤ last) :
    reach cb verify target r = (.ok (), r) := by
  rw [reach]
  split
  · simp_all
  · rename_i last' h'
    obtain rfl : last = last' := Option.some.inj (h.symm.trans h')
    rw [if_neg (Int.not_lt.mpr hl)]

theorem reach_of_lt (h : r.bench.schedule.latest? = some last) (hl : last < target)
    (hr : recompute cb verify last r = (.ok (), t)) :
    reach cb verify target r = reach cb verify target t := by
  rw [reach]
  split
  · simp_all
  · rename_i last' h'
    obtain rfl : last = last' := Option.some.inj (h.symm.trans h')
    rw [if_pos hl]
    split <;> simp_all

end Sweep

namespace Course

variable {ω α ε : Type}

/-- What the journal has been told. -/
def Told (c : Course ω α ε) (b : Bench α) (p : Progress) : Prop :=
  c.Journaled → b.journal.map Journal.progress = c.journal.map fun _ => p

/-- A call is made on the latest step and its state. -/
structure Sees (c : Course ω α ε) (call : Call α) (k : Nat) : Prop where
  step : call.step = (k : Int)
  holds : c.Holds call.bench k
  state : c.made k call.state ∨ c.kept k call.state

/-- A run that has come so far, with states held up to a step. -/
structure Reached (c : Course ω α ε) (r : Run ω α) (latest : Nat) (p : Progress) : Prop where
  holds : c.Holds r.bench latest
  counts : c.Counts r.bench p.forward p.replayed p.reversed
  told : c.Told r.bench p
  sees : ∀ call ∈ r.latestCalls, ∃ k, c.Sees call k

variable {c : Course ω α ε} {b b' : Bench α} {r : Run ω α} {i k n : Nat} {p q : Progress}

theorem Told.of_eq (h : c.Told b p) (hj : c.Journaled →
    b'.journal.map Journal.progress = b.journal.map Journal.progress) : c.Told b' p :=
  fun hc => (hj hc).trans (h hc)

theorem Told.mapJournal (h : c.Told b p) {f : Journal → Journal} (g : Progress → Progress)
    (hf : ∀ j : Journal, (f j).progress = g j.progress) : c.Told (b.mapJournal f) (g p) := by
  intro hc
  have hp := h hc
  cases hj : b.journal <;> cases hk : c.journal <;> simp_all [Bench.mapJournal]

theorem Reached.size_le_budget (h : c.Reached r k p) (hk : k < c.steps)
    (hle : c.steps ≤ c.budget) : r.bench.schedule.size ≤ c.budget := by
  have := h.holds.rooted.size_le_latest h.holds.latest
  omega

theorem Reached.withBench (h : c.Reached r k p) (hb : c.Holds b i)
    (hcounts : c.Counts b q.forward q.replayed q.reversed) (ht : c.Told b q) :
    c.Reached (r.withBench b) i q := ⟨hb, hcounts, ht, h.sees⟩

theorem Reached.logged (h : c.Reached r k p) (phase : String) (step : Int) :
    ∃ t, (Sweep.logIfDue phase step : Sweep ω α ε Unit) r = (.ok (), t) ∧ c.Reached t k p ∧
      t.bench.schedule = r.bench.schedule ∧ t.headings = r.headings := by
  obtain ⟨t, hlog, hs, ht, hj, hcalls⟩ := Sweep.exists_logIfDue_eq_ok (ε := ε) r phase step
  refine ⟨t, hlog,
    ⟨h.holds.of_eq hs ht, h.counts.of_eq hs ht, h.told.of_eq fun _ => hj, ?_⟩, hs, ?_⟩
  · rw [hcalls]
    exact h.sees
  · rw [Run.headings, Run.calls, hcalls]
    rfl

theorem Reached.called (h : c.Reached r k p) (kind : CallKind) {y : α}
    (hy : c.made k y ∨ c.kept k y) (w : ω) (hs : b.schedule = r.bench.schedule)
    (ht : b.store = r.bench.store) (hj : c.Journaled → b.journal = r.bench.journal) :
    c.Reached ⟨w, b, ⟨kind, k, y, r.bench⟩ :: r.latestCalls, r.logged⟩ k p := by
  refine ⟨h.holds.of_eq hs ht, h.counts.of_eq hs ht, h.told.of_eq fun hc => congrArg _ (hj hc), ?_⟩
  intro call hcall
  rcases List.mem_cons.mp hcall with rfl | hcall
  · exact ⟨k, rfl, h.holds, hy⟩
  · exact h.sees call hcall

variable [Movable α]

theorem Reached.update (h : c.Reached r k p) (hc : c.Steady) (hk : k < c.steps) {y : α}
    (hy : c.made k y ∨ c.kept k y) :
    ∃ z t, Sweep.update c.callbacks k y r = (.ok z, t) ∧ c.made (k + 1) z ∧ c.Reached t k p ∧
      t.bench.schedule = r.bench.schedule ∧ t.headings = r.headings ++ [(.update, (k : Int))] := by
  obtain ⟨z, w, b, hu, hz, hs, ht⟩ := hc.update k hk y hy r.world r.bench
  have hj : c.Journaled → b.journal = r.bench.journal := by
    intro hj
    simpa only [hu] using hj.update k y r.world r.bench
  exact ⟨z, _, Sweep.update_of_ok hu, hz, h.called .update hy w hs ht hj, hs,
    Run.headings_cons r w b _⟩

theorem Reached.reverse (h : c.Reached r k p) (hc : c.Steady) (hk : k ≤ c.steps) {y : α}
    (hy : c.kept k y) :
    ∃ t, Sweep.reverse c.callbacks k y r = (.ok (), t) ∧ c.Reached t k p ∧
      t.bench.schedule = r.bench.schedule ∧ t.headings = r.headings ++ [(.reverse, (k : Int))] := by
  obtain ⟨w, b, hu, hs, ht⟩ := hc.reverse k hk y hy r.world r.bench
  have hj : c.Journaled → b.journal = r.bench.journal := by
    intro hj
    simpa only [hu] using hj.reverse k y r.world r.bench
  exact ⟨_, Sweep.reverse_of_ok hu, h.called .reverse (.inr hy) w hs ht hj, hs,
    Run.headings_cons r w b _⟩

theorem Reached.forward (h : c.Reached r k ⟨k, 0, 0⟩) (hc : c.Steady) (hk : k < c.steps) {y : α}
    (hy : c.made k y) (count : Nat) :
    ∃ z t, Sweep.advance c.callbacks c.verify (count + 1) k y r =
        Sweep.advance c.callbacks c.verify count (k + 1) z t ∧
      c.made (k + 1) z ∧ c.Reached t (k + 1) ⟨k + 1, 0, 0⟩ ∧
      t.headings = r.headings ++ [(.update, (k : Int))] := by
  obtain ⟨z, r₁, hu, hz, h₁, _, hcalls⟩ := h.update hc hk (.inl hy)
  obtain ⟨b, ho, hb, hadds⟩ := h₁.holds.offer hc (Nat.lt_succ_self k) hk hz
  have hcounts := h₁.counts.forward hadds hb.rooted.size_le (h₁.size_le_budget hk)
  have htold : c.Told b ⟨k, 0, 0⟩ := h₁.told.of_eq fun _ => by rw [hadds.journal]
  have h₂ : c.Reached (r₁.withBench (b.mapJournal Journal.recordForward)) (k + 1) ⟨k + 1, 0, 0⟩ :=
    h₁.withBench (hb.of_eq rfl rfl) (hcounts.of_eq rfl rfl)
      (htold.mapJournal (fun q => ⟨q.forward + 1, q.replayed, q.reversed⟩) fun _ => rfl)
  obtain ⟨t, hlog, ht, _, hheads⟩ := h₂.logged "forward" (k + 1)
  refine ⟨z, t, ?_, hz, ht, hheads.trans hcalls⟩
  rw [Sweep.advance, Sweep.bind_of_ok hu, Sweep.bind_of_ok (Sweep.onBench_of_ok ho),
    Sweep.bind_of_ok (Sweep.verified_of_lockstep hb.lockstep _)]
  exact Sweep.bind_of_ok hlog _

theorem Reached.recompute (h : c.Reached r k p) (hc : c.Steady) (hk : k < c.steps) :
    ∃ t, Sweep.recompute c.callbacks c.verify k r = (.ok (), t) ∧
      c.Reached t (k + 1) ⟨p.forward, p.replayed + 1, p.reversed⟩ ∧
      t.bench.schedule.size = min (r.bench.schedule.size + 1) (c.budget + 1) ∧
      t.headings = r.headings ++ [(.update, (k : Int))] := by
  obtain ⟨y, hget, hy⟩ := h.holds.exists_get_eq_ok
  obtain ⟨z, r₁, hu, hz, h₁, hs, hcalls⟩ := h.update hc hk (.inr hy)
  obtain ⟨b, ho, hb, hadds⟩ := h₁.holds.offer hc (Nat.lt_succ_self k) hk hz
  have hcounts := h₁.counts.replay hadds (h₁.size_le_budget hk)
  have htold : c.Told b p := h₁.told.of_eq fun _ => by rw [hadds.journal]
  have hagain : r₁.bench.offerAgain (k + 1) z =
      (.ok (), b.withSchedule b.schedule.countRecomputation) := by
    simp only [Bench.offerAgain, show r₁.bench.offer (k + 1) z = (.ok true, b) from ho]
  have h₂ : c.Reached (r₁.withBench ((b.withSchedule b.schedule.countRecomputation).mapJournal
      Journal.recordRecomputed)) (k + 1) ⟨p.forward, p.replayed + 1, p.reversed⟩ :=
    h₁.withBench (hb.countRecomputation.of_eq rfl rfl) (hcounts.of_eq rfl rfl)
      (htold.mapJournal (fun q => ⟨q.forward, q.replayed + 1, q.reversed⟩) fun _ => rfl)
  refine ⟨_, ?_, h₂, ?_, hcalls⟩
  · rw [Sweep.recompute, Sweep.bind_of_ok (Sweep.askBench_of_ok hget), Sweep.bind_of_ok hu,
      Sweep.bind_of_ok (Sweep.onBench_of_ok hagain),
      Sweep.bind_of_ok (Sweep.verified_of_lockstep hb.countRecomputation.lockstep _)]
    rfl
  · rw [← hs]
    exact hadds.size

theorem Reached.reach (hc : c.Steady) (count : Nat) (h : c.Reached r k p)
    (hk : k + count ≤ c.steps) :
    ∃ t, Sweep.reach c.callbacks c.verify ((k + count : Nat) : Int) r = (.ok (), t) ∧
      c.Reached t (k + count) ⟨p.forward, p.replayed + count, p.reversed⟩ ∧
      t.bench.schedule.size = min (r.bench.schedule.size + count) (c.budget + 1) ∧
      t.headings = r.headings ++ updates k count := by
  -- the latest step moves on by one with each state that is recomputed
  induction count generalizing r k p with
  | zero =>
    have hsize := h.holds.rooted.size_le
    refine ⟨r, Sweep.reach_of_le h.holds.latest (Int.le_refl _), h, by omega, ?_⟩
    simp [updates]
  | succ count ih =>
    obtain ⟨r₁, hr, h₁, hsize₁, hcalls₁⟩ := h.recompute hc (by omega)
    obtain ⟨t, ht, hreached, hsize, hcalls⟩ := ih h₁ (by omega)
    have hnext : k + 1 + count = k + (count + 1) := by omega
    rw [hnext] at ht hreached
    refine ⟨t, ?_, ?_, by omega, ?_⟩
    · rw [Sweep.reach_of_lt h.holds.latest (by omega) hr, ht]
    · rwa [Nat.add_assoc, Nat.add_comm 1] at hreached
    · rw [hcalls, hcalls₁, updates_succ]
      simp

/-- A step back: what is missing is recomputed, and the step is given up once it was called. -/
theorem Reached.stepBack (h : c.Reached r k p) (hc : c.Steady) (hk : k ≤ i)
    (hi : p.reversed + i = c.steps) :
    ∃ t j, Sweep.stepBack c.callbacks c.verify i r = (.ok (), t) ∧ j ≤ i - 1 ∧
      c.Reached t j ⟨p.forward, p.replayed + (i - k), p.reversed + 1⟩ ∧
      t.bench.schedule.size + min i 1 =
        min (r.bench.schedule.size + (i - k)) (c.budget + 1) ∧
      t.headings = r.headings ++ (updates k (i - k) ++ [(.reverse, (i : Int))]) := by
  obtain ⟨r₁, hr, h₁, hsize, hcalls₁⟩ := h.reach hc (i - k) (by omega)
  rw [show k + (i - k) = i by omega] at hr h₁
  obtain ⟨y, hget, hy⟩ := h₁.holds.exists_get_eq_ok
  obtain ⟨r₂, hrev, h₂, hs₂, hcalls₂⟩ := h₁.reverse hc (by omega) hy
  obtain ⟨b, j, hrel, hj, hb, hgives⟩ := h₂.holds.release
  have hcounts := h₂.counts.back hgives hi
  have htold : c.Told b _ := h₂.told.of_eq fun _ => by rw [hgives.journal]
  have h₃ : c.Reached (r₂.withBench (b.mapJournal Journal.recordReverse)) j
      ⟨p.forward, p.replayed + (i - k), p.reversed + 1⟩ :=
    h₂.withBench (hb.of_eq rfl rfl) (hcounts.of_eq rfl rfl)
      (htold.mapJournal (fun q => ⟨q.forward, q.replayed, q.reversed + 1⟩) fun _ => rfl)
  obtain ⟨t, hlog, ht, hs, hcalls⟩ := h₃.logged "reverse" i
  refine ⟨t, j, ?_, hj, ht, ?_, ?_⟩
  · rw [Sweep.stepBack, Sweep.bind_of_ok hr, Sweep.bind_of_ok (Sweep.askBench_of_ok hget),
      Sweep.bind_of_ok hrev, Sweep.bind_of_ok (Sweep.onBench_of_ok hrel),
      Sweep.bind_of_ok (Sweep.verified_of_lockstep hb.lockstep _)]
    exact hlog
  · rw [hs, ← hsize, ← hs₂]
    exact hgives.size
  · rw [hcalls, ← List.append_assoc, ← hcalls₁]
    exact hcalls₂

end Course

end ReverseSweep
