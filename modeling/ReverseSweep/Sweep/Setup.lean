import ReverseSweep.Sweep.Replay

/-! What a caller asks a sweep to do, when that is refused, and the run that follows otherwise. -/

namespace ReverseSweep

/-- The schedule that a caller supplies: none, a schedule, or an object of some other kind. -/
inductive Supply
  | fromStorageSize
  | schedule (s : Schedule)
  | foreign (kind : String)

structure Setup (α : Type) where
  steps : Json
  storageSize : Json
  state : α
  supply : Supply := .fromStorageSize
  store : Store α := {}
  journal : Option Journal := none
  verify : Bool := false
  now : Float := 0

namespace Setup

variable {ω α ε : Type}

def schedule (s : Setup α) : Except Fault Schedule :=
  match s.supply with
  | .fromStorageSize => do
    let size ← s.storageSize.number
    if size.below 1 then .error (.storageTooSmall size) else Schedule.create size
  | .schedule schedule => .ok schedule
  | .foreign kind => .error (.notASchedule kind)

/-- The bench to start on, or why the sweep is refused before anything is touched. -/
def bench (s : Setup α) : Except Fault (Bench α) := do
  let steps ← s.steps.number
  if steps.below 0 then .error (.negativeSteps steps)
  else
    let schedule ← s.schedule
    if schedule.size ≠ 0 ∨ s.store.size ≠ 0 then .error .notFresh
    else .ok ⟨schedule, s.store, s.journal, s.now⟩

/-- Refused, or run with a result or a failure; what was done before a failure stands. -/
def run [Movable α] (s : Setup α) (cb : Callbacks ω α ε) (world : ω) :
    Except Fault (Except (Stop ε) α × Run ω α) :=
  s.bench.map fun b => Sweep.sweepOf cb s.verify s.steps.count s.state ⟨world, b, [], 0⟩

end Setup
end ReverseSweep
