import ReverseSweep.Bench

/-! What a sweep consists of: callbacks that may fail and may touch the bench, a run that records
every call of them, and steps of a run that stop at the first failure and keep what was done. -/

namespace ReverseSweep

inductive CallKind
  | update | reverse
deriving DecidableEq, Repr

/-- A call as it starts: what is called, on which step and state, and the bench at that moment. -/
structure Call (α : Type) where
  kind : CallKind
  step : Int
  state : α
  bench : Bench α

/-- The caller's side of a sweep: `update n x` gives the state after `x`, and `reverse n x` is told
the states backward. Both see a world of their own and the bench, and may change either. -/
structure Callbacks (ω α ε : Type) where
  update : Int → α → ω → Bench α → Except ε α × ω × Bench α
  reverse : Int → α → ω → Bench α → Except ε Unit × ω × Bench α

inductive Stop (ε : Type)
  | fault (f : Fault)
  | callback (e : ε)
deriving DecidableEq, Repr

structure Run (ω α : Type) where
  world : ω
  bench : Bench α
  /-- The calls so far, the latest first. -/
  latestCalls : List (Call α) := []
  logged : Nat := 0

def Run.calls {ω α : Type} (r : Run ω α) : List (Call α) := r.latestCalls.reverse

def Run.withBench {ω α : Type} (r : Run ω α) (b : Bench α) : Run ω α :=
  ⟨r.world, b, r.latestCalls, r.logged⟩

def Sweep (ω α ε β : Type) : Type := Run ω α → Except (Stop ε) β × Run ω α

namespace Sweep

variable {ω α ε β γ : Type}

instance : Monad (Sweep ω α ε) where
  pure a := fun r => (.ok a, r)
  bind x f := fun r =>
    match x r with
    | (.ok a, r) => f a r
    | (.error e, r) => (.error e, r)

theorem pure_apply (a : β) (r : Run ω α) : (pure a : Sweep ω α ε β) r = (.ok a, r) := rfl

theorem bind_apply (x : Sweep ω α ε β) (f : β → Sweep ω α ε γ) (r : Run ω α) :
    (x >>= f) r = match x r with
      | (.ok a, r) => f a r
      | (.error e, r) => (.error e, r) := rfl

def onBench (f : Bench α → Except Fault β × Bench α) : Sweep ω α ε β := fun r =>
  let (result, b) := f r.bench
  (result.mapError .fault, r.withBench b)

def askBench (f : Bench α → Except Fault β) : Sweep ω α ε β := onBench fun b => (f b, b)

theorem bench_of_askBench {f : Bench α → Except Fault β} {r t : Run ω α} {result}
    (h : (askBench f : Sweep ω α ε β) r = (result, t)) : t.bench = r.bench := by
  cases h
  rfl

def changeBench (f : Bench α → Bench α) : Sweep ω α ε Unit := onBench fun b => (.ok (), f b)

def callback (kind : CallKind) (step : Int) (state : α)
    (f : ω → Bench α → Except ε β × ω × Bench α) : Sweep ω α ε β := fun r =>
  let call : Call α := ⟨kind, step, state, r.bench⟩
  let (result, world, bench) := f r.world r.bench
  (result.mapError .callback, ⟨world, bench, call :: r.latestCalls, r.logged⟩)

def update (cb : Callbacks ω α ε) (step : Int) (state : α) : Sweep ω α ε α :=
  callback .update step state (cb.update step state)

def reverse (cb : Callbacks ω α ε) (step : Int) (state : α) : Sweep ω α ε Unit :=
  callback .reverse step state (cb.reverse step state)

end Sweep
end ReverseSweep
