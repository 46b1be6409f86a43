import ReverseSweep.Sweep.Basic

/-! Callbacks that follow a script: a rule for the next state, requests made of the bench at chosen
calls, and a call at which they fail. Their world is the number of updates so far. -/

namespace ReverseSweep

/-- The calls that something is meant for. What is left open fits every call. -/
structure CallPattern where
  kind : CallKind
  step : Option Int := none
  updates : Option Nat := none
deriving DecidableEq, Repr

def CallPattern.fits (p : CallPattern) (kind : CallKind) (step : Int) (updates : Nat) : Bool :=
  p.kind == kind && p.step.all (· == step) && p.updates.all (· == updates)

/-- Which parts of the bench the callbacks have at hand. Those that the caller did not supply are
out of their reach. -/
structure Reach where
  schedule : Bool := true
  store : Bool := true

/-- What is asked of a part out of reach, if anything is. -/
def Reach.missing? {α β : Type} (r : Reach) (b : Bench α) : Bench.Request β → Option String
  | .schedule request => if r.schedule then none else some request.name
  | .store request => if r.store then none else some request.name
  | .requireLockstep =>
    if !r.store then some "check_lockstep"
    else if !r.schedule then some (if b.store.size = 0 then "size" else "contains_step")
    else none
  | _ => none

structure Script (α : Type) where
  next : Int → Nat → α → Except Fault α
  reach : Reach := {}
  /-- Seconds that an update takes. -/
  seconds : Float := 0
  interventions : List (CallPattern × List (Bench.Request (Except Fault α))) := []
  failure : Option (CallPattern × String) := none

/-- A refusal of something the script asked for, or the failure that it sets. -/
inductive ScriptError
  | fault (f : Fault)
  | failure (message : String)
deriving DecidableEq, Repr

namespace Script

variable {α : Type} [Movable α]

/-- Makes a request, unless it is for a part out of reach or for a state that is refused. -/
def request (reach : Reach) (r : Bench.Request (Except Fault α)) (b : Bench α) :
    Except Fault Unit × Bench α :=
  match reach.missing? b r with
  | some name => (.error (.missingAttribute Json.null.kindName name), b)
  | none =>
    match r.resolve with
    | .error fault => (.error fault, b)
    | .ok r =>
      let (result, b) := b.perform r
      (result.map fun _ => (), b)

def requests (reach : Reach) :
    List (Bench.Request (Except Fault α)) → Bench α → Except Fault Unit × Bench α
  | [], b => (.ok (), b)
  | r :: rs, b =>
    match request reach r b with
    | (.ok (), b) => requests reach rs b
    | (.error fault, b) => (.error fault, b)

def intervene (s : Script α) (kind : CallKind) (step : Int) (updates : Nat) (b : Bench α) :
    Except ScriptError Unit × Bench α :=
  let chosen := s.interventions.filter fun i => i.1.fits kind step updates
  match requests s.reach (chosen.flatMap (·.2)) b with
  | (.error fault, b) => (.error (.fault fault), b)
  | (.ok (), b) =>
    match s.failure with
    | some (pattern, message) =>
      if pattern.fits kind step updates then (.error (.failure message), b) else (.ok (), b)
    | none => (.ok (), b)

def callbacks (s : Script α) : Callbacks Nat α ScriptError where
  update step state updates b :=
    let updates := updates + 1
    let (result, b) := s.intervene .update step updates (b.advanceClock s.seconds)
    (result.bind fun _ => (s.next step updates state).mapError .fault, updates, b)
  reverse step _ updates b :=
    let (result, b) := s.intervene .reverse step updates b
    (result, updates, b)

end Script
end ReverseSweep
