import ReverseSweep.Experiment.Differentiation
import ReverseSweep.Payload
import ReverseSweep.RunFolder
import ReverseSweep.Schedule.Choice
import ReverseSweep.Seeding
import ReverseSweep.Sweep.Setup

/-! The gradient of half the squared norm of the last state of a recurrence with respect to its
first state: once by a checkpointed sweep, once with every state kept. Numbers are whole. -/

namespace ReverseSweep.RecurrenceGradient

inductive Activation
  | identity
  | tanh
deriving DecidableEq, Repr

namespace Activation

/-- The hyperbolic tangent by what it is of whole numbers at 0 and far from 0. -/
abbrev sign : Activation := tanh

def record : Activation → Graph → Graph
  | identity, g => g
  | tanh, g => .tanh g

end Activation

/-- The step `x ↦ activation (weight x + bias)`. -/
structure Recurrence where
  weight : Weight
  bias : Vector
  activation : Activation

namespace Recurrence

def record (r : Recurrence) (g : Graph) : Graph :=
  r.activation.record (.sum (.product r.weight g) r.bias)

def recorded (r : Recurrence) : Nat → Graph
  | 0 => .leaf
  | steps + 1 => r.record (r.recorded steps)

variable [Differentiator]

def step (r : Recurrence) (x : Vector) : Except Fault Vector := (r.record .leaf).value x

/-- The gradient of a step at `x`, which is made once more, for a cotangent of its result. -/
def pullback (r : Recurrence) (x cotangent : Vector) : Except Fault Vector := do
  let _ ← r.step x
  .ok (Differentiator.pullback (r.record .leaf) x cotangent)

/-- The gradient with all steps recorded. -/
def fullGradient (r : Recurrence) (steps : Nat) (x : Vector) : Except Fault Vector := do
  let _ ← (r.recorded steps).value x
  .ok (Differentiator.gradient (r.recorded steps) x)

/-- The adjoint at step `n` of so many, from the adjoint at the step after it. -/
def adjoint (r : Recurrence) (steps n : Int) (next : Option Vector) (x : Vector) :
    Except Fault (Option Vector) :=
  if n = steps then .ok (some x)
  else
    match next with
    | none => .ok none
    | some cotangent => (r.pullback x cotangent).map some

end Recurrence

variable [Differentiator]

/-- The callbacks of the adjoint sweep, which work on the host. Their world is the adjoint so far,
if there is one. -/
def callbacks (r : Recurrence) (steps : Int) :
    Callbacks (Option Vector) (Placed Vector) Fault where
  update _ x adjoint b := ((x.onHost.bind r.step).map .data, adjoint, b)
  reverse n x adjoint b :=
    match x.onHost.bind (r.adjoint steps n adjoint) with
    | .ok adjoint => (.ok (), adjoint, b)
    | .error fault => (.error fault, adjoint, b)

structure Result where
  gradient : Option Vector
  final : Vector
  stats : Schedule.Stats
  journal : Option Journal

structure Config where
  folder : Json := .str "outputs/linear_adjoint"
  steps : Json := .int 200
  dimension : Json := .int 16
  weightScale : Json := .float (nearestQuotient 9 10)
  strategy : Json := .str Schedule.knownStrategy
  storageSize : Json := .int 10
  offloadDevice : Option String := none
  interval : Json := .int 50
  seed : Json := .int 42

def defaults : Settings :=
  [("output_dir", .str "outputs/linear_adjoint"),
   ("num_steps", .int 200),
   ("state_dim", .int 16),
   ("weight_scale", .float (nearestQuotient 9 10)),
   ("checkpoint_strategy", .str Schedule.knownStrategy),
   ("storage_size", .int 10),
   ("offload_device", .null),
   ("checkpoint_interval", .int 50),
   ("progress_bar", .bool true),
   ("seed", .int 42),
   ("device", .str "cuda")]

def Config.ofSettings (s : Settings) : Config where
  folder := s.get "output_dir"
  steps := s.get "num_steps"
  dimension := s.get "state_dim"
  weightScale := s.get "weight_scale"
  strategy := s.get "checkpoint_strategy"
  storageSize := s.get "storage_size"
  offloadDevice := (s.get "offload_device").str?
  interval := s.get "checkpoint_interval"
  seed := s.get "seed"

/-- The number of steps of a sweep that is not refused. -/
def Config.length (c : Config) : Nat := (c.steps.whole?.getD 0).toNat

/-- The gradient by a sweep under the configured budget. -/
def sweptGradient (r : Recurrence) (x : Vector) (c : Config) (journal : Option Journal)
    (now : Float) : Except Fault Result := do
  let schedule ← Schedule.choose c.strategy (.ok c.storageSize)
  let setup : Setup (Placed Vector) :=
    { steps := c.steps, storageSize := c.storageSize, state := .data x,
      supply := .schedule schedule, store := { device := c.offloadDevice }, journal := journal,
      now := now }
  match ← setup.run (callbacks r c.length) none with
  | (.error (.fault fault), _) => .error fault
  | (.error (.callback fault), _) => .error fault
  | (.ok final, run) =>
    let final ← final.onHost
    .ok ⟨run.world, final, run.bench.schedule.stats, run.bench.journal⟩

structure Report where
  config : Config
  gradient : Option Vector
  reference : Vector
  stats : Schedule.Stats
  journal : Journal
  summary : Journal.Summary

/-- Random weights are as many rows as columns. -/
def checkDimension (dimension : Json) : Except Fault Unit :=
  match dimension.whole? with
  | some n => if n < 0 then .error (.negativeSize n) else .ok ()
  | none => .ok ()

/-- Random weights are a block that the scale is multiplied with. -/
def checkScale (scale : Json) : Except Fault Unit :=
  (Payload.scale scale (.block .shape)).map fun _ => ()

/-- The seed is checked first; then the folder of the run is made, which the strategy labels, and
random weights are; then the journal is opened and the sweep is made. Without components there is no
greatest difference of the gradients. -/
def report (r : Recurrence) (x : Vector) (c : Config) (now : Float) : Except Fault Report := do
  let _ ← checkSeed c.seed
  RunFolder.check c.folder c.strategy
  checkDimension c.dimension
  checkScale c.weightScale
  let journal ← Journal.create (← c.interval.number) now
  let result ← sweptGradient r x c (some journal) now
  let reference ← r.fullGradient c.length x
  let journal := result.journal.getD journal
  if c.dimension.whole? = some 0 then .error .noGreatest
  else .ok ⟨c, result.gradient, reference, result.stats, journal, journal.summary now⟩

def Report.lines (r : Report) : List String :=
  [Journal.rule, "Checkpointed Adjoint: tanh recurrence", Journal.rule,
   "",
   "Steps: " ++ r.config.steps.display ++ ", storage size: " ++
     r.config.storageSize.display ++ " (" ++ r.config.strategy.display ++ ")",
   "",
   "Computing full-storage reference gradient...",
   "  Stores                 : " ++ Decimal.integer r.stats.counters.stores,
   "  Evictions              : " ++ Decimal.integer r.stats.counters.evictions,
   "  Recomputations         : " ++ Decimal.integer r.stats.counters.recomputations] ++
    r.summary.lines ++ ["", ""]

end ReverseSweep.RecurrenceGradient
