import ReverseSweep.Sweep.Basic

/-! The sweep: forward over all steps, keeping what the schedule admits, then back to step 0. A
state that is missing on the way back is recomputed from the latest one before it. -/

namespace ReverseSweep.Sweep

variable {ω α ε : Type}

def verified (verify : Bool) : Sweep ω α ε Unit :=
  if verify then askBench Bench.requireLockstep else pure ()

def logIfDue (phase : String) (step : Int) : Sweep ω α ε Unit := fun r =>
  if r.bench.journal.any Journal.due then
    let index := r.logged + 1
    (.ok (), ⟨r.world, r.bench.log index phase step r.bench.reported, r.latestCalls, index⟩)
  else (.ok (), r)

variable [Movable α]

/-- Step 0 is persistent: from it everything can be recomputed. -/
def start (verify : Bool) (state : α) : Sweep ω α ε Unit := do
  onBench fun b => b.keep 0 state
  verified verify

/-- From step `n`, `count` steps forward; the result is the last state. -/
def advance (cb : Callbacks ω α ε) (verify : Bool) : Nat → Nat → α → Sweep ω α ε α
  | 0, _, state => pure state
  | count + 1, n, state => do
    let next ← update cb n state
    let _ ← onBench fun b => b.offer (n + 1) next
    verified verify
    changeBench fun b => b.mapJournal Journal.recordForward
    logIfDue "forward" (n + 1)
    advance cb verify count (n + 1) next

/-- Recomputes the state after the step `last`, which has to be resident. -/
def recompute (cb : Callbacks ω α ε) (verify : Bool) (last : Int) : Sweep ω α ε Unit := do
  let state ← askBench fun b => b.store.get last
  let next ← update cb last state
  onBench fun b => b.offerAgain (last + 1) next
  verified verify
  changeBench fun b => b.mapJournal Journal.recordRecomputed

/-- A recomputation that succeeds moves the latest step on, whatever the callback has done. -/
theorem latest_lt_of_recompute {cb : Callbacks ω α ε} {verify : Bool} {last : Int} {r t : Run ω α}
    (h : recompute cb verify last r = (.ok (), t)) :
    ∃ next, t.bench.schedule.latest? = some next ∧ last < next := by
  simp only [recompute, bind_apply] at h
  split at h <;> try cases h
  split at h <;> try cases h
  rename_i next r _
  split at h <;> try cases h
  rename_i r₁ ha
  split at h <;> cases h
  rename_i r₂ hv
  have hb : r₂.bench = r₁.bench := by
    unfold verified at hv
    split at hv
    · exact bench_of_askBench hv
    · cases hv
      rfl
  have hh : r₁.bench.schedule.holds (last + 1) = true := by
    unfold onBench at ha
    split at ha
    rename_i result b hc
    cases result with
    | error _ => cases ha
    | ok _ =>
      cases ha
      exact Bench.holds_of_offerAgain hc
  obtain ⟨next, hn, hle⟩ := Schedule.le_latest_of_holds hh
  refine ⟨next, ?_, by omega⟩
  change r₂.bench.schedule.latest? = some next
  rw [hb, hn]

/-- Recomputes state after state until the one at `target` is resident. -/
def reach (cb : Callbacks ω α ε) (verify : Bool) (target : Int) (r : Run ω α) :
    Except (Stop ε) Unit × Run ω α :=
  match _h : r.bench.schedule.latest? with
  | none => (.error (.fault .emptySchedule), r)
  | some last =>
    if last < target then
      match _hr : recompute cb verify last r with
      | (.ok (), r) => reach cb verify target r
      | (.error e, r) => (.error e, r)
    else (.ok (), r)
termination_by (target - r.bench.schedule.latest?.getD 0).toNat
decreasing_by
  obtain ⟨next, hn, hlt⟩ := latest_lt_of_recompute _hr
  rw [hn, _h]
  simp only [Option.getD_some]
  omega

/-- One step back: its state is made resident, given to the callback, and given up. -/
def stepBack (cb : Callbacks ω α ε) (verify : Bool) (i : Nat) : Sweep ω α ε Unit := do
  reach cb verify i
  let state ← askBench fun b => b.store.get i
  reverse cb i state
  onBench fun b => b.release i
  verified verify
  changeBench fun b => b.mapJournal Journal.recordReverse
  logIfDue "reverse" i

def retreat (cb : Callbacks ω α ε) (verify : Bool) : Nat → Sweep ω α ε Unit
  | 0 => stepBack cb verify 0
  | i + 1 => do
    stepBack cb verify (i + 1)
    retreat cb verify i

/-- The whole sweep over `steps` steps; the result is the last state of the way forward. -/
def sweep (cb : Callbacks ω α ε) (verify : Bool) (steps : Nat) (state : α) : Sweep ω α ε α := do
  start verify state
  let final ← advance cb verify steps 0 state
  retreat cb verify steps
  pure final

/-- A sweep whose number of steps cannot be made out ends when it has started. -/
def sweepOf (cb : Callbacks ω α ε) (verify : Bool) (steps : Except Fault Nat) (state : α) :
    Sweep ω α ε α :=
  match steps with
  | .ok steps => sweep cb verify steps state
  | .error fault => do
    start verify state
    askBench fun _ => .error fault

end ReverseSweep.Sweep
