import ReverseSweep.Proofs.Parallel
import ReverseSweep.Proofs.Setup

/-! Sweeps whose callbacks may fail, beside the sweep of callbacks that do the same and go on. Both
are alike up to the failure, and what was called until then are the first calls of the other one. -/

namespace ReverseSweep

variable {ω ω' α β γ ε : Type}

namespace Run

variable {r : Run ω α} {call : Call α} {earlier : List (Call α)}

theorem take_calls_of_suffix (h : call :: earlier <:+ r.latestCalls) :
    r.calls.take (earlier.length + 1) = (call :: earlier).reverse := by
  have hp := List.prefix_iff_eq_take.mp (List.reverse_prefix.mpr h)
  rw [hp]
  simp [calls]

theorem getElem?_calls_of_suffix (h : call :: earlier <:+ r.latestCalls) :
    r.calls[earlier.length]? = some call := by
  have hj : (r.calls.take (earlier.length + 1))[earlier.length]? = some call := by
    simp [take_calls_of_suffix h]
  simpa using hj

theorem exists_suffix_of_getElem? {k : Nat} (h : r.calls[k]? = some call) :
    ∃ earlier, call :: earlier <:+ r.latestCalls ∧ earlier.reverse = r.calls.take k := by
  refine ⟨(r.calls.take k).reverse, ?_, List.reverse_reverse _⟩
  have htake : r.calls.take (k + 1) = (call :: (r.calls.take k).reverse).reverse := by
    simp [List.take_add_one, h]
  have hp := List.take_prefix (k + 1) r.calls
  rwa [htake, calls, List.reverse_prefix] at hp

end Run

/-- How two sweeps go on alike: which worlds correspond after so many calls, and with what a call may
fail then, and what bench it may leave. -/
structure Interruption (ω ω' α ε : Type) where
  same : Nat → ω → ω' → Prop
  fails : Nat → Call α → ε → Bench α → Prop

namespace Interruption

variable (I : Interruption ω ω' α ε)

/-- In corresponding worlds a call does the same on both sides, or fails on the first one. -/
def Agree (kind : CallKind) (step : Int) (y : α) (f : ω → Bench α → Except ε β × ω × Bench α)
    (f' : ω' → Bench α → Except ε β × ω' × Bench α) : Prop :=
  ∀ j w w', I.same j w w' → ∀ b,
    (∃ result v v' c, f w b = (result, v, c) ∧ f' w' b = (result, v', c) ∧ I.same (j + 1) v v') ∨
      ∃ e v c, f w b = (.error e, v, c) ∧ I.fails j ⟨kind, step, y, b⟩ e c

structure Cuts (cb : Callbacks ω α ε) (cb' : Callbacks ω' α ε) : Prop where
  update : ∀ n y, I.Agree .update n y (cb.update n y) (cb'.update n y)
  reverse : ∀ n y, I.Agree .reverse n y (cb.reverse n y) (cb'.reverse n y)

structure Alike (r : Run ω α) (r' : Run ω' α) : Prop where
  bench : r.bench = r'.bench
  calls : r.latestCalls = r'.latestCalls
  logged : r.logged = r'.logged
  same : I.same r.latestCalls.length r.world r'.world

/-- A run that ended with the failure of its latest call, which the other run made as well. -/
def Stopped (e : ε) (t : Run ω α) (t' : Run ω' α) : Prop :=
  ∃ call earlier, t.latestCalls = call :: earlier ∧ call :: earlier <:+ t'.latestCalls ∧
    I.fails earlier.length call e t.bench

inductive Outcome : Except (Stop ε) β × Run ω α → Except (Stop ε) β × Run ω' α → Prop
  | alike (result : Except (Stop ε) β) (t : Run ω α) (t' : Run ω' α) (h : I.Alike t t') :
    Outcome (result, t) (result, t')
  | stopped (e : ε) (t : Run ω α) (p : Except (Stop ε) β × Run ω' α) (h : I.Stopped e t p.2) :
    Outcome (.error (.callback e), t) p

variable {I}

theorem Stopped.mono {e : ε} {t : Run ω α} {t' u' : Run ω' α} (h : I.Stopped e t t')
    (hu : t'.latestCalls <:+ u'.latestCalls) : I.Stopped e t u' := by
  obtain ⟨call, earlier, ht, hsuffix, hfails⟩ := h
  exact ⟨call, earlier, ht, hsuffix.trans hu, hfails⟩

theorem Agree.callback {kind : CallKind} {step : Int} {y : α}
    {f : ω → Bench α → Except ε β × ω × Bench α} {f' : ω' → Bench α → Except ε β × ω' × Bench α}
    (h : I.Agree kind step y f f') {r : Run ω α} {r' : Run ω' α} (hr : I.Alike r r') :
    I.Outcome (Sweep.callback kind step y f r) (Sweep.callback kind step y f' r') := by
  obtain ⟨hbench, hcalls, hlogged, hsame⟩ := hr
  rcases h _ _ _ hsame r.bench with ⟨result, v, v', c, hf, hf', hv⟩ | ⟨e, v, c, hf, hfails⟩
  · rw [hbench] at hf hf'
    simp only [Sweep.callback, hbench, hf, hf', hcalls, hlogged]
    refine .alike _ _ _ ⟨rfl, rfl, rfl, ?_⟩
    rw [hcalls] at hv
    exact hv
  · simp only [Sweep.callback, hf, Except.mapError]
    refine .stopped e _ _ ⟨_, _, rfl, ?_, hfails⟩
    rw [hbench, hcalls]

theorem Outcome.andThen {x : Sweep ω α ε β} {x' : Sweep ω' α ε β} {f : β → Sweep ω α ε γ}
    {f' : β → Sweep ω' α ε γ} {r : Run ω α} {r' : Run ω' α} (h : I.Outcome (x r) (x' r'))
    (hf : ∀ a t t', I.Alike t t' → I.Outcome (f a t) (f' a t'))
    (hgrows : ∀ a t', t'.latestCalls <:+ (f' a t').2.latestCalls) :
    I.Outcome ((x >>= f) r) ((x' >>= f') r') := by
  rw [Sweep.bind_apply, Sweep.bind_apply]
  generalize x r = p at h
  generalize x' r' = p' at h
  cases h with
  | alike result t t' h =>
    cases result with
    | error e => exact .alike _ t t' h
    | ok a => exact hf a t t' h
  | stopped e t p' h =>
    -- the other run goes on after the failure, but takes no call back
    obtain ⟨result, t'⟩ := p'
    cases result with
    | error e' => exact .stopped e t _ h
    | ok a => exact .stopped e t _ (h.mono (hgrows a t'))

theorem Outcome.initial_calls {p : Except (Stop ε) β × Run ω α} {p' : Except (Stop ε) β × Run ω' α}
    (h : I.Outcome p p') : p.2.calls <+: p'.2.calls := by
  rw [Run.calls, Run.calls, List.reverse_prefix]
  cases h with
  | alike _ t t' h =>
    rw [h.calls]
  | stopped _ t _ h =>
    obtain ⟨call, earlier, ht, hsuffix, _⟩ := h
    rwa [ht]

end Interruption

namespace Sweep

/-- What was called stays called. -/
def Grows (x : Sweep ω α ε β) : Prop := ∀ r, r.latestCalls <:+ (x r).2.latestCalls

theorem Grows.keeps {x : Sweep ω α ε β} (h : Grows x) (calls : List (Call α)) :
    Keeps (calls <:+ ·.latestCalls) x := fun r hr => hr.trans (h r)

theorem grows_callback (kind : CallKind) (step : Int) (y : α)
    (f : ω → Bench α → Except ε β × ω × Bench α) : Grows (callback kind step y f) :=
  fun _ => List.suffix_cons _ _

theorem Grows.andThen {x : Sweep ω α ε β} {f : β → Sweep ω α ε γ} (hx : Grows x)
    (hf : ∀ a, Grows (f a)) : Grows (x >>= f) := fun r =>
  Keeps.andThen (hx.keeps _) (fun a => (hf a).keeps _) r (List.suffix_refl _)

theorem bind_of_error {x : Sweep ω α ε β} {e : Stop ε} {r t : Run ω α} (h : x r = (.error e, t))
    (f : β → Sweep ω α ε γ) : (x >>= f) r = (.error e, t) := by
  rw [bind_apply, h]

theorem suffix_andThen (x : Sweep ω α ε β) {f : β → Sweep ω α ε γ} (hf : ∀ a, Grows (f a))
    (r : Run ω α) : (x r).2.latestCalls <:+ ((x >>= f) r).2.latestCalls := by
  rw [bind_apply]
  split
  · rename_i a t hr
    rw [hr]
    exact hf a t
  · rename_i e t hr
    rw [hr]

variable [Movable α]

theorem parallel_grows (cb : Callbacks ω α ε) : Parallel cb cb fun _ x => Grows x := by
  have h (calls : List (Call α)) : Parallel cb cb fun _ x => Keeps (calls <:+ ·.latestCalls) x :=
    parallel_keeps (fun _ _ _ h => h) (fun _ _ => (grows_callback _ _ _ _).keeps calls)
      fun _ _ => (grows_callback _ _ _ _).keeps calls
  exact
    { done := fun _ _ => List.suffix_refl _
      andThen := Grows.andThen
      onBench := fun _ _ => List.suffix_refl _
      logIfDue := fun phase step r => (h _).logIfDue phase step r (List.suffix_refl _)
      update := fun _ _ => grows_callback _ _ _ _
      reverse := fun _ _ => grows_callback _ _ _ _
      reach := fun verify target hrec r =>
        (h _).reach verify target (fun last => (hrec last).keeps _) r (List.suffix_refl _) }

structure Follows (I : Interruption ω ω' α ε) (x : Sweep ω α ε β) (x' : Sweep ω' α ε β) : Prop where
  grows : Grows x'
  outcome : ∀ r r', I.Alike r r' → I.Outcome (x r) (x' r')

theorem follows_reach {I : Interruption ω ω' α ε} {cb : Callbacks ω α ε} {cb' : Callbacks ω' α ε}
    {verify : Bool} {target : Int}
    (h : ∀ last, Follows I (recompute cb verify last) (recompute cb' verify last)) (r : Run ω α)
    (r' : Run ω' α) (hr : I.Alike r r') :
    I.Outcome (reach cb verify target r) (reach cb' verify target r') := by
  have hgrows : Grows (reach cb' verify target) :=
    (parallel_grows cb').reach verify target fun last => (h last).grows
  -- along the search of the first sweep, which is not longer than the other one
  induction r using reach.induct cb verify target generalizing r' with
  | case1 r hnone =>
    rw [reach_of_empty hnone, reach_of_empty (hr.bench ▸ hnone)]
    exact .alike _ r r' hr
  | case2 r last hlast hlt t ht ih =>
    have hlast' := hr.bench ▸ hlast
    have hout := (h last).outcome r r' hr
    rw [reach_of_lt hlast hlt ht]
    rw [ht] at hout
    generalize hp : recompute cb' verify last r' = p at hout
    cases hout with
    | alike _ _ t' h' =>
      rw [reach_of_lt hlast' hlt hp]
      exact ih t' h'
  | case3 r last hlast hlt e t ht =>
    have hlast' := hr.bench ▸ hlast
    have hout := (h last).outcome r r' hr
    rw [reach_of_error hlast hlt ht]
    rw [ht] at hout
    generalize hp : recompute cb' verify last r' = p at hout
    cases hout with
    | alike _ _ t' h' =>
      rw [reach_of_error hlast' hlt hp]
      exact .alike _ t t' h'
    | stopped e _ _ hstopped =>
      obtain ⟨result, t'⟩ := p
      cases result with
      | error e' =>
        rw [reach_of_error hlast' hlt hp]
        exact .stopped e t _ hstopped
      | ok _ =>
        rw [reach_of_lt hlast' hlt hp]
        exact .stopped e t _ (hstopped.mono (hgrows t'))
  | case4 r last hlast hle =>
    rw [reach_of_le hlast (by omega), reach_of_le (hr.bench ▸ hlast) (by omega)]
    exact .alike _ r r' hr

theorem parallel_follows {I : Interruption ω ω' α ε} {cb : Callbacks ω α ε}
    {cb' : Callbacks ω' α ε} (h : I.Cuts cb cb') : Parallel cb cb' fun x x' => Follows I x x' where
  done := fun a => ⟨(parallel_grows cb').done a, fun r r' hr => .alike _ r r' hr⟩
  andThen := fun hx hf =>
    ⟨hx.grows.andThen fun a => (hf a).grows, fun r r' hr =>
      (hx.outcome r r' hr).andThen (fun a => (hf a).outcome) fun a => (hf a).grows⟩
  onBench := by
    intro _ f
    refine ⟨(parallel_grows cb').onBench f, fun r r' hr => ?_⟩
    simp only [onBench, hr.bench]
    exact .alike _ _ _ ⟨rfl, hr.calls, hr.logged, hr.same⟩
  logIfDue := by
    intro phase step
    refine ⟨(parallel_grows cb').logIfDue phase step, fun r r' hr => ?_⟩
    unfold logIfDue
    rw [hr.bench, hr.logged]
    split
    · exact .alike _ _ _ ⟨rfl, hr.calls, rfl, hr.same⟩
    · exact .alike _ r r' hr
  update := fun n y =>
    ⟨(parallel_grows cb').update n y, fun _ _ hr => (h.update n y).callback hr⟩
  reverse := fun n y =>
    ⟨(parallel_grows cb').reverse n y, fun _ _ hr => (h.reverse n y).callback hr⟩
  reach := fun verify target hrec =>
    ⟨(parallel_grows cb').reach verify target fun last => (hrec last).grows, follows_reach hrec⟩

end Sweep

theorem Setup.exists_run_outcome [Movable α] {I : Interruption ω ω' α ε} {cb : Callbacks ω α ε}
    {cb' : Callbacks ω' α ε} (h : I.Cuts cb cb') {w : ω} {w' : ω'} (hw : I.same 0 w w')
    {s : Setup α} {p' : Except (Stop ε) α × Run ω' α} (hrun : s.run cb' w' = .ok p') :
    ∃ p, s.run cb w = .ok p ∧ I.Outcome p p' := by
  obtain ⟨b, hb, rfl⟩ := exists_bench_of_run hrun
  refine ⟨_, by rw [run, hb, Except.map], ?_⟩
  exact ((Sweep.parallel_follows h).sweepOf s.verify s.steps.count s.state).outcome _ _
    ⟨rfl, rfl, rfl, hw⟩

end ReverseSweep
