import ReverseSweep.Proofs.Ensures
import ReverseSweep.Proofs.Interventions
import ReverseSweep.Proofs.Setup

/-! What a sweep can come to, whatever its callbacks do to schedule and store. Step 0 is held for
good, and each pass of the search for a target moves the latest step on, so that the updates are
bounded by the number of steps. -/

namespace ReverseSweep

variable {ω α β γ ε : Type}

def Run.updateCount (r : Run ω α) : Nat := r.calls.countP (·.kind == .update)

theorem Run.updateCount_eq (r : Run ω α) :
    r.updateCount = r.headings.countP (·.1 == .update) := by
  rw [headings, List.countP_map]
  rfl

def Run.HoldsRoot (r : Run ω α) : Prop := ⟨0, true⟩ ∈ r.bench.schedule.slots

theorem Run.HoldsRoot.exists_latest {r : Run ω α} (h : r.HoldsRoot) :
    ∃ last, r.bench.schedule.latest? = some last ∧ 0 ≤ last :=
  Schedule.le_latest_of_holds (Schedule.holds_of_mem ⟨0, true⟩ h)

namespace Sweep

/-- A part that makes at most `k` updates, and does not lose step 0. -/
def Spends (k : Nat) (x : Sweep ω α ε β) : Prop :=
  ∀ r, r.HoldsRoot → (x r).2.HoldsRoot ∧ (x r).2.updateCount ≤ r.updateCount + k

namespace Spends

variable {j k : Nat}

theorem mono {x : Sweep ω α ε β} (h : Spends j x) (hle : j ≤ k) : Spends k x := by
  intro r hr
  obtain ⟨hroot, hupdates⟩ := h r hr
  exact ⟨hroot, by omega⟩

theorem holdsRoot_of_eq {x : Sweep ω α ε β} (h : Spends k x) {r t : Run ω α}
    {result : Except (Stop ε) β} (hx : x r = (result, t)) (hr : r.HoldsRoot) : t.HoldsRoot := by
  have hroot := (h r hr).1
  rwa [hx] at hroot

theorem done (a : β) : Spends 0 (pure a : Sweep ω α ε β) := fun _ hr => ⟨hr, Nat.le_refl _⟩

theorem andThen {x : Sweep ω α ε β} {f : β → Sweep ω α ε γ} (hx : Spends j x)
    (hf : ∀ a, Spends k (f a)) : Spends (j + k) (x >>= f) := by
  intro r hr
  obtain ⟨hroot, hupdates⟩ := hx r hr
  rw [bind_apply]
  generalize x r = p at hroot hupdates
  obtain ⟨e | a, t⟩ := p
  · exact ⟨hroot, by dsimp only at hupdates ⊢; omega⟩
  · obtain ⟨hroot', hupdates'⟩ := hf a t hroot
    exact ⟨hroot', by dsimp only at hupdates ⊢; omega⟩

variable [Movable α]

theorem onBench {f : Bench α → Except Fault β × Bench α} (h : ∀ b : Bench α, b.Reaches (f b).2) :
    Spends 0 (onBench f : Sweep ω α ε β) := fun r hr =>
  ⟨(h r.bench).mem_of_persistent rfl hr, Nat.le_refl _⟩

theorem askBench (f : Bench α → Except Fault β) : Spends 0 (askBench f : Sweep ω α ε β) :=
  onBench fun b => .refl b

theorem mapJournal (f : Journal → Journal) :
    Spends 0 (changeBench fun b => b.mapJournal f : Sweep ω α ε Unit) :=
  onBench fun _ => .of_eq rfl rfl

theorem verified (verify : Bool) : Spends 0 (verified verify : Sweep ω α ε Unit) := by
  unfold Sweep.verified
  split
  · exact askBench _
  · exact done ()

omit [Movable α] in
theorem logIfDue (phase : String) (step : Int) :
    Spends 0 (logIfDue phase step : Sweep ω α ε Unit) := by
  intro r hr
  unfold Sweep.logIfDue
  split <;> exact ⟨hr, Nat.le_refl _⟩

variable {cb : Callbacks ω α ε} {verify : Bool}

theorem update (hcb : cb.Intervenes) (n : Int) (y : α) : Spends 1 (update cb n y) := by
  intro r hr
  refine ⟨(hcb.update n y r.world r.bench).mem_of_persistent rfl hr, ?_⟩
  simp [Sweep.update, callback, Run.updateCount, Run.calls]

theorem reverse (hcb : cb.Intervenes) (n : Int) (y : α) : Spends 0 (reverse cb n y) := by
  intro r hr
  refine ⟨(hcb.reverse n y r.world r.bench).mem_of_persistent rfl hr, ?_⟩
  simp [Sweep.reverse, callback, Run.updateCount, Run.calls]

theorem recompute (hcb : cb.Intervenes) (last : Int) : Spends 1 (recompute cb verify last) := by
  refine (askBench _).andThen (j := 0) (k := 1) fun y => ?_
  refine (update hcb last y).andThen (k := 0) fun next => ?_
  refine (onBench fun b => b.reaches_offerAgain (last + 1) next).andThen (k := 0) fun _ => ?_
  exact (verified verify).andThen fun _ => mapJournal _

theorem forward (hcb : cb.Intervenes) (n : Nat) (y : α) : Spends 1 (forward cb verify n y) := by
  refine (update hcb n y).andThen (k := 0) fun next => ?_
  refine (onBench fun b => b.reaches_offer (n + 1) next).andThen (k := 0) fun _ => ?_
  refine (verified verify).andThen (k := 0) fun _ => ?_
  refine (mapJournal _).andThen (k := 0) fun _ => ?_
  exact (logIfDue _ _).andThen fun _ => done next

end Spends

variable [Movable α] {cb : Callbacks ω α ε} {verify : Bool} {target : Int} {q r t u : Run ω α}
  {last : Int} {lasts : List Int}

/-- Passes of the search for a target that succeed one after another, and the latest step that each
of them finds. -/
inductive Searches (cb : Callbacks ω α ε) (verify : Bool) (target : Int) :
    Run ω α → List Int → Run ω α → Prop
  | none (r : Run ω α) : Searches cb verify target r [] r
  | pass {r s t : Run ω α} {last : Int} {lasts : List Int}
      (hlast : r.bench.schedule.latest? = some last) (hlt : last < target)
      (hpass : recompute cb verify last r = (.ok (), s))
      (hrest : Searches cb verify target s lasts t) : Searches cb verify target r (last :: lasts) t

/-- How a search ends when no further pass succeeds. -/
inductive SearchEnds (cb : Callbacks ω α ε) (verify : Bool) (target : Int) (u : Run ω α) :
    Except (Stop ε) Unit × Run ω α → Prop
  | empty (h : u.bench.schedule.latest? = none) :
      SearchEnds cb verify target u (.error (.fault .emptySchedule), u)
  | there {last : Int} (h : u.bench.schedule.latest? = some last) (hle : target ≤ last) :
      SearchEnds cb verify target u (.ok (), u)
  | fails {last : Int} {e : Stop ε} {t : Run ω α} (h : u.bench.schedule.latest? = some last)
      (hlt : last < target) (hpass : recompute cb verify last u = (.error e, t)) :
      SearchEnds cb verify target u (.error e, t)

theorem exists_searches (cb : Callbacks ω α ε) (verify : Bool) (target : Int) (r : Run ω α) :
    ∃ lasts u, Searches cb verify target r lasts u ∧
      SearchEnds cb verify target u (reach cb verify target r) := by
  induction r using reach.induct cb verify target with
  | case1 r hnone =>
    rw [reach_of_empty hnone]
    exact ⟨[], r, .none r, .empty hnone⟩
  | case2 r last hlast hlt t ht ih =>
    obtain ⟨lasts, u, hsearches, hends⟩ := ih
    rw [reach_of_lt hlast hlt ht]
    exact ⟨last :: lasts, u, .pass hlast hlt ht hsearches, hends⟩
  | case3 r last hlast hlt e t ht =>
    rw [reach_of_error hlast hlt ht]
    exact ⟨[], r, .none r, .fails hlast hlt ht⟩
  | case4 r last hlast hle =>
    have hle' : target ≤ last := by omega
    rw [reach_of_le hlast hle']
    exact ⟨[], r, .none r, .there hlast hle'⟩

theorem ensures_recompute_headings (r : Run ω α) :
    Ensures (fun t => t = r) (recompute cb verify last)
      (fun _ t => t.headings = r.headings ++ [(.update, last)])
      fun _ t => t.headings = r.headings ∨ t.headings = r.headings ++ [(.update, last)] := by
  refine Ensures.andThen (Q := fun _ t => t = r) (Ensures.askBench (fun _ _ ht _ => ht) ?_)
    fun y => ?_
  · rintro t _ rfl _
    exact .inl rfl
  refine Ensures.andThen (Q := fun _ t => t.headings = r.headings ++ [(CallKind.update, last)])
    (Ensures.callback ?_ ?_) fun next => ?_
  · rintro t _ w b rfl _
    exact Run.headings_cons t w b _
  · rintro t _ w b rfl _
    exact .inr (Run.headings_cons t w b _)
  refine Ensures.andThen (Q := fun _ t => t.headings = r.headings ++ [(CallKind.update, last)])
    (Ensures.onBench (fun _ _ _ ht _ => ht) fun _ _ _ ht _ => .inr ht) fun _ => ?_
  refine (Ensures.verified (fun _ ht _ => ht) fun _ _ ht => .inr ht).andThen fun _ => ?_
  exact Ensures.changeBench fun _ ht => ht

namespace Searches

theorem ascending {first : Int} (h : Searches cb verify target q lasts u)
    (hfirst : q.bench.schedule.latest? = some first) :
    ∃ last, u.bench.schedule.latest? = some last ∧ (lasts ++ [last]).Pairwise (· < ·) ∧
      ∀ a ∈ lasts ++ [last], first ≤ a := by
  induction h generalizing first with
  | none r => exact ⟨first, hfirst, by simp, by simp⟩
  | pass hlast hlt hpass hrest ih =>
    obtain rfl := Option.some.inj (hlast.symm.trans hfirst)
    obtain ⟨next, hnext, hmoves⟩ := latest_lt_of_recompute hpass
    obtain ⟨last, hend, hpairwise, hle⟩ := ih hnext
    refine ⟨last, hend, ?_, ?_⟩
    · rw [List.cons_append, List.pairwise_cons]
      exact ⟨fun a ha => Int.lt_of_lt_of_le hmoves (hle a ha), hpairwise⟩
    · intro a ha
      rcases List.mem_cons.mp ha with rfl | ha
      · exact Int.le_refl _
      · exact Int.le_of_lt (Int.lt_of_lt_of_le hmoves (hle a ha))

theorem lt_target (h : Searches cb verify target q lasts u) : ∀ a ∈ lasts, a < target := by
  induction h with
  | none r => simp
  | pass hlast hlt hpass hrest ih =>
    intro a ha
    rcases List.mem_cons.mp ha with rfl | ha
    · exact hlt
    · exact ih a ha

theorem headings (h : Searches cb verify target q lasts u) :
    u.headings = q.headings ++ lasts.map fun last => (.update, last) := by
  induction h with
  | none r => simp
  | pass hlast hlt hpass hrest ih =>
    rw [ih, (ensures_recompute_headings _).ok_of rfl hpass]
    simp

theorem holdsRoot (hcb : cb.Intervenes) (h : Searches cb verify target q lasts u)
    (hq : q.HoldsRoot) : u.HoldsRoot := by
  induction h with
  | none r => exact hq
  | pass hlast hlt hpass hrest ih => exact ih ((Spends.recompute hcb _).holdsRoot_of_eq hpass hq)

/-- The latest steps lie between 0 and the target, so that there are not more passes than that. -/
theorem exists_latest {i : Nat} (h : Searches cb verify i q lasts u) (hq : q.HoldsRoot) :
    ∃ last, u.bench.schedule.latest? = some last ∧ (lasts ++ [last]).Pairwise (· < ·) ∧
      lasts.length ≤ i ∧ (last < i → (lasts ++ [last]).length ≤ i) := by
  obtain ⟨first, hfirst, hpos⟩ := hq.exists_latest
  obtain ⟨last, hlast, hpairwise, hfrom⟩ := h.ascending hfirst
  have hrange (a : Int) (ha : a ∈ lasts) : 0 ≤ a ∧ a < i :=
    ⟨hpos.trans (hfrom a (List.mem_append_left _ ha)), h.lt_target a ha⟩
  refine ⟨last, hlast, hpairwise, ?_, fun hlt => ?_⟩
  · exact Schedule.length_le_of_ascending (List.pairwise_append.mp hpairwise).1 hrange
  · refine Schedule.length_le_of_ascending hpairwise fun a ha => ?_
    rcases List.mem_append.mp ha with ha | ha
    · exact hrange a ha
    · obtain rfl := List.mem_singleton.mp ha
      exact ⟨hpos.trans (hfrom a (by simp)), hlt⟩

end Searches

/-- What is sure of the search for a step, whatever the callbacks do. Each time that the latest step
is asked for there is one, it is larger than before, and no pass is left after as many as the step
says. The replays are on ascending steps, and there are not more of them than passes. -/
structure Progresses (cb : Callbacks ω α ε) (verify : Bool) (i : Nat) (q : Run ω α) : Prop where
  latest : ∀ lasts u, Searches cb verify i q lasts u →
    ∃ last, u.bench.schedule.latest? = some last ∧ (lasts ++ [last]).Pairwise (· < ·) ∧
      lasts.length ≤ i ∧ (last < i → (lasts ++ [last]).length ≤ i)
  passes : ∃ lasts u, Searches cb verify i q lasts u ∧
    SearchEnds cb verify i u (reach cb verify i q)
  replays : ∃ steps : List Int, (reach cb verify i q).2.headings =
      q.headings ++ steps.map (fun step => (.update, step)) ∧
    steps.Pairwise (· < ·) ∧ steps.length ≤ i

theorem progresses {i : Nat} (hq : q.HoldsRoot) : Progresses cb verify i q := by
  obtain ⟨lasts, u, h, hends⟩ := exists_searches cb verify i q
  refine ⟨fun _ _ h => h.exists_latest hq, ⟨lasts, u, h, hends⟩, ?_⟩
  obtain ⟨last, hlast, hpairwise, hle, hlt⟩ := h.exists_latest hq
  have hbefore := (List.pairwise_append.mp hpairwise).1
  generalize reach cb verify i q = p at hends
  cases hends with
  | empty hnone => exact ⟨lasts, h.headings, hbefore, hle⟩
  | there => exact ⟨lasts, h.headings, hbefore, hle⟩
  | fails hlast' hbelow hpass =>
    obtain rfl := Option.some.inj (hlast'.symm.trans hlast)
    -- the pass that fails has made its update or not
    rcases (ensures_recompute_headings u).error_of rfl hpass with hsame | hmore
    · exact ⟨lasts, hsame.trans h.headings, hbefore, hle⟩
    · refine ⟨lasts ++ [_], ?_, hpairwise, hlt hbelow⟩
      rw [hmore, h.headings]
      simp

namespace Spends

theorem reach (hcb : cb.Intervenes) (i : Nat) : Spends i (reach cb verify i) := by
  intro r hr
  constructor
  · obtain ⟨lasts, u, h, hends⟩ := exists_searches cb verify i r
    have hroot := h.holdsRoot hcb hr
    generalize Sweep.reach cb verify i r = p at hends
    cases hends with
    | empty => exact hroot
    | there => exact hroot
    | fails _ _ hpass => exact (recompute hcb _).holdsRoot_of_eq hpass hroot
  · have hprogresses : Progresses cb verify i r := progresses hr
    obtain ⟨steps, hheadings, _, hlen⟩ := hprogresses.replays
    rw [Run.updateCount_eq, hheadings, Run.updateCount_eq, List.countP_append, List.countP_map]
    exact Nat.add_le_add_left (List.countP_le_length.trans hlen) _

theorem stepBack (hcb : cb.Intervenes) (i : Nat) : Spends i (stepBack cb verify i) := by
  refine (reach hcb i).andThen (k := 0) fun _ => ?_
  refine (askBench _).andThen (k := 0) fun y => ?_
  refine (reverse hcb i y).andThen (k := 0) fun _ => ?_
  refine (onBench fun b => b.reaches_release i).andThen (k := 0) fun _ => ?_
  refine (verified verify).andThen (k := 0) fun _ => ?_
  exact (mapJournal _).andThen fun _ => logIfDue _ _

theorem advance (hcb : cb.Intervenes) (count n : Nat) (y : α) :
    Spends count (advance cb verify count n y) := by
  induction count generalizing n y with
  | zero => exact done y
  | succ count ih =>
    rw [advance_succ, Nat.add_comm]
    exact (forward hcb n y).andThen fun next => ih (n + 1) next

theorem stepsBack (hcb : cb.Intervenes) (top count : Nat) :
    Spends (∑ a ∈ Finset.range count, (top - a)) (stepsBack cb verify top count) := by
  induction count with
  | zero => exact done ()
  | succ count ih =>
    rw [Finset.sum_range_succ]
    exact ih.andThen fun _ => stepBack hcb (top - count)

theorem retreat (hcb : cb.Intervenes) (top : Nat) :
    Spends (top * (top + 1) / 2) (retreat cb verify top) := by
  have hall : Spends _ (Sweep.stepsBack cb verify top (top + 1)) := stepsBack hcb top (top + 1)
  -- the most for each step back, added from the last step down, is 0 + 1 + … + top
  have hsum := Finset.sum_range_reflect (fun i => i) (top + 1)
  simp only [Nat.add_sub_cancel] at hsum
  rwa [hsum, Finset.sum_range_id, Nat.add_sub_cancel, Nat.mul_comm, ← retreat_eq_stepsBack] at hall

end Spends

theorem ensures_start {budget : Int} (verify : Bool) (y : α) :
    Ensures (fun r => r.bench.schedule.Sound budget ∧ r.latestCalls = [])
      (start verify y : Sweep ω α ε Unit) (fun _ r => r.HoldsRoot ∧ r.latestCalls = [])
      fun _ r => r.latestCalls = [] := by
  refine Ensures.andThen (Q := fun _ r => r.HoldsRoot ∧ r.latestCalls = []) ?_ fun _ =>
    Ensures.verified (fun _ hr _ => hr) fun _ _ hr => hr.2
  refine Ensures.onBench ?_ fun _ _ _ hr _ => hr.2
  rintro r _ c ⟨hsound, hcalls⟩ hkeep
  refine ⟨?_, hcalls⟩
  unfold Bench.keep at hkeep
  split at hkeep
  · cases hkeep
  · rename_i hoffer
    change ⟨0, true⟩ ∈ c.schedule.slots
    rw [Bench.schedule_of_put hkeep]
    exact hsound.mem_of_offer hoffer

theorem holdsRoot_of_upTo {budget : Int} (hcb : cb.Intervenes) {steps i : Nat} {y : α}
    (hsound : r.bench.schedule.Sound budget) (hcalls : r.latestCalls = [])
    (h : upTo cb verify steps y i r = (.ok (), q)) : q.HoldsRoot := by
  obtain ⟨_, r₀, hstart, h⟩ := exists_of_bind_eq_ok h
  obtain ⟨_, r₁, hadvance, hback⟩ := exists_of_bind_eq_ok h
  have h₀ := ((ensures_start verify y).ok_of ⟨hsound, hcalls⟩ hstart).1
  have h₁ := (Spends.advance hcb steps 0 y).holdsRoot_of_eq hadvance h₀
  exact (Spends.stepsBack hcb steps (steps - i)).holdsRoot_of_eq hback h₁

theorem updateCount_start_bind_le {budget : Int} {y : α} {k : Nat} {x : Sweep ω α ε β}
    (hx : Spends k x) (hsound : r.bench.schedule.Sound budget) (hcalls : r.latestCalls = []) :
    ((start verify y >>= fun _ => x) r).2.updateCount ≤ k := by
  have hnone (t : Run ω α) (ht : t.latestCalls = []) : t.updateCount = 0 := by
    simp [Run.updateCount, Run.calls, ht]
  have hstart := ensures_start (ε := ε) verify y r ⟨hsound, hcalls⟩
  rw [bind_apply]
  generalize (start verify y : Sweep ω α ε Unit) r = p at hstart
  cases hstart with
  | error e t ht =>
    rw [hnone t ht]
    exact Nat.zero_le k
  | ok _ t ht =>
    have hmost := (hx t ht.1).2
    rwa [hnone t ht.2, Nat.zero_add] at hmost

theorem updateCount_sweepOf_le {budget : Int} (hcb : cb.Intervenes) {n : Nat}
    {steps : Except Fault Nat} (hsteps : ∀ m, steps = .ok m → m = n) (y : α)
    (hsound : r.bench.schedule.Sound budget) (hcalls : r.latestCalls = []) :
    (sweepOf cb verify steps y r).2.updateCount ≤ n + n * (n + 1) / 2 := by
  cases steps with
  | error fault =>
    have hask : Spends 0 (askBench fun _ => .error fault : Sweep ω α ε α) := Spends.askBench _
    exact updateCount_start_bind_le (hask.mono (Nat.zero_le _)) hsound hcalls
  | ok m =>
    obtain rfl := hsteps m rfl
    refine updateCount_start_bind_le ?_ hsound hcalls
    refine (Spends.advance hcb m 0 y).andThen fun final => ?_
    exact (Spends.retreat hcb m).andThen fun _ => Spends.done final

end Sweep

namespace Setup

variable [Movable α] {s : Setup α} {cb : Callbacks ω α ε}

/-- Whatever the callbacks do to schedule and store at any call, each search for a step progresses.
A run that is not refused comes to its result or to a failure, and makes until then at most `n`
updates forward and `i` of them for each step `i` on the way back. -/
theorem updates_bounded {n : Nat} {fresh : Schedule} {budget : Int} (hn : s.steps = .int n)
    (hs : s.schedule = .ok fresh) (hfresh : fresh.Reachable budget) (hcb : cb.Intervenes) (w : ω) :
    (∀ i ≤ n, ∀ q, Sweep.upTo cb s.verify n s.state i
        ⟨w, ⟨fresh, s.store, s.journal, s.now⟩, [], 0⟩ = (.ok (), q) →
      Sweep.Progresses cb s.verify i q) ∧
    ((fresh.size ≠ 0 ∨ s.store.size ≠ 0) ∧ s.run cb w = .error .notFresh ∨
      ∃ result t, s.run cb w = .ok (result, t) ∧ t.updateCount ≤ n + n * (n + 1) / 2) := by
  refine ⟨fun i _ q hq => ?_, ?_⟩
  · exact Sweep.progresses (Sweep.holdsRoot_of_upTo hcb hfresh.sound rfl hq)
  have hbench := bench_eq_of_steps hn hs
  by_cases hused : fresh.size ≠ 0 ∨ s.store.size ≠ 0
  · rw [if_pos hused] at hbench
    exact .inl ⟨hused, by rw [run, hbench, Except.map]⟩
  rw [if_neg hused] at hbench
  have hcount (m : Nat) (hm : s.steps.count = .ok m) : m = n := by
    simp only [hn, Json.count, Json.whole?, Json.number?, Option.bind_some, Number.whole?] at hm
    split at hm <;> cases hm
    exact Int.toNat_natCast n
  refine .inr ⟨_, _, by rw [run, hbench, Except.map], ?_⟩
  exact Sweep.updateCount_sweepOf_le hcb hcount s.state hfresh.sound rfl

/-- Schedule and store are emptied late on the way forward, and again at each step back, where a
step is put out of the order. -/
def emptyingScript : Script Nat where
  next := fun _ _ x => .ok (x + 1)
  interventions :=
    [(⟨.update, some 2, none⟩, [.schedule .reset, .store .clear]),
      (⟨.reverse, none, none⟩, [.schedule .reset, .schedule (.offer 1 false), .store .clear])]

def emptied : Setup Nat := ⟨.int 3, .int 2, 0, .fromStorageSize, {}, none, false, 0⟩

def emptiedBench : Bench Nat := ⟨.ofBudget 2, {}, none, 0⟩

theorem exists_upTo_emptied :
    ∃ q, Sweep.upTo emptyingScript.callbacks false 3 0 3 ⟨0, emptiedBench, [], 0⟩ = (.ok (), q) ∧
      q.bench.schedule.steps = [0, 3] := by
  have hfst : (Sweep.upTo emptyingScript.callbacks false 3 0 3 ⟨0, emptiedBench, [], 0⟩).1 =
      .ok () := by decide +kernel
  have hsteps : (Sweep.upTo emptyingScript.callbacks false 3 0 3
      ⟨0, emptiedBench, [], 0⟩).2.bench.schedule.steps = [0, 3] := by decide +kernel
  generalize Sweep.upTo emptyingScript.callbacks false 3 0 3 ⟨0, emptiedBench, [], 0⟩ = p
    at hfst hsteps
  exact ⟨p.2, Prod.ext hfst rfl, hsteps⟩

theorem updates_bounded_emptied :
    let cb := emptyingScript.callbacks
    (∃ q, Sweep.upTo cb false 3 0 3 ⟨0, emptiedBench, [], 0⟩ = (.ok (), q) ∧
      q.bench.schedule.steps = [0, 3] ∧
      ∃ steps : List Int, (Sweep.reach cb false 3 q).2.headings =
        q.headings ++ steps.map (fun step => (.update, step)) ∧ steps.length ≤ 3) ∧
    ∃ result t, emptied.run cb 0 = .ok (result, t) ∧ t.updateCount ≤ 9 := by
  intro cb
  have hfresh : (Schedule.ofBudget 2).Reachable 2 := ⟨.whole 2, _, [], rfl, rfl, rfl⟩
  obtain ⟨hprogresses, hrun⟩ := updates_bounded (s := emptied) (n := 3) rfl rfl hfresh
    emptyingScript.callbacks_intervenes 0
  obtain ⟨q, hq, hsteps⟩ := exists_upTo_emptied
  have hsearch := hprogresses 3 (Nat.le_refl 3) q hq
  obtain ⟨steps, hheadings, _, hlen⟩ := hsearch.replays
  refine ⟨⟨q, hq, hsteps, steps, hheadings, hlen⟩, ?_⟩
  rcases hrun with ⟨_, hrefused⟩ | hrun
  · cases hrefused
  · exact hrun

end Setup
end ReverseSweep
