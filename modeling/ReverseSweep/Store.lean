import ReverseSweep.Device
import ReverseSweep.Settings

/-! The states that are resident, by step. A store may keep them on a device of its own. -/

namespace ReverseSweep

structure Store (α : Type) where
  device : Option String := none
  entries : List (Int × α) := []
  puts : Nat := 0
  discards : Nat := 0
deriving Repr

namespace Store

variable {α : Type}

/-- Puts a state in the order of steps, in place of an earlier one of the same step. -/
def insertEntry (step : Int) (state : α) : List (Int × α) → List (Int × α)
  | [] => [(step, state)]
  | entry :: rest =>
    if step < entry.1 then (step, state) :: entry :: rest
    else if step = entry.1 then (step, state) :: rest
    else entry :: insertEntry step state rest

def steps (s : Store α) : List Int := s.entries.map (·.1)

def size (s : Store α) : Nat := s.entries.length

def holds (s : Store α) (step : Int) : Bool := s.entries.any (·.1 == step)

def get? (s : Store α) (step : Int) : Option α :=
  (s.entries.find? (·.1 == step)).map (·.2)

def get (s : Store α) (step : Int) : Except Fault α :=
  match s.get? step with
  | none => .error (.notResident step)
  | some state => .ok state

/-- The state as this store keeps it, unless it cannot be moved to the device. -/
def settle [Movable α] (s : Store α) (state : α) : Except Fault α :=
  match s.device with
  | none => .ok state
  | some device => Movable.moveTo device state

/-- Keeps a state that is settled. -/
def insert (s : Store α) (step : Int) (state : α) : Store α :=
  ⟨s.device, insertEntry step state s.entries, s.puts + 1, s.discards⟩

def put [Movable α] (s : Store α) (step : Int) (state : α) : Except Fault (Store α) :=
  (s.settle state).map (s.insert step)

/-- Drops a state, and says whether it was resident. -/
def discard (s : Store α) (step : Int) : Bool × Store α :=
  if s.holds step then
    (true, ⟨s.device, s.entries.eraseP (·.1 == step), s.puts, s.discards + 1⟩)
  else (false, s)

/-- Drops every state; none of them counts as discarded. -/
def clear (s : Store α) : Store α := ⟨s.device, [], s.puts, s.discards⟩

structure Stats where
  size : Nat
  puts : Nat
  discards : Nat
  device : Option String
deriving DecidableEq, Repr

def Stats.settings (s : Stats) : Settings :=
  [("size", .int s.size), ("total_puts", .int s.puts), ("total_discards", .int s.discards),
   ("device", (s.device.map Json.str).getD .null)]

def stats (s : Store α) : Stats := ⟨s.size, s.puts, s.discards, s.device⟩

inductive Request (α : Type)
  | put (step : Int) (state : α)
  | get (step : Int)
  | discard (step : Int)
  | holds (step : Int)
  | steps
  | size
  | clear
  | stats

inductive Reply (α : Type)
  | done
  | state (state : α)
  | truth (b : Bool)
  | number (n : Nat)
  | steps (steps : List Int)
  | stats (stats : Stats)

/-- What a request asks for, by the name that messages use. -/
def Request.name : Request α → String
  | put _ _ => "put"
  | get _ => "get"
  | discard _ => "discard"
  | holds _ => "__contains__"
  | steps => "steps"
  | size => "__len__"
  | clear => "clear"
  | stats => "get_stats"

/-- The request, unless the state in it is refused. -/
def Request.resolve : Request (Except Fault α) → Except Fault (Request α)
  | .put step state => state.map (.put step)
  | .get step => .ok (.get step)
  | .discard step => .ok (.discard step)
  | .holds step => .ok (.holds step)
  | .steps => .ok .steps
  | .size => .ok .size
  | .clear => .ok .clear
  | .stats => .ok .stats

def perform [Movable α] (s : Store α) : Request α → Except Fault (Reply α) × Store α
  | .put step state =>
    match s.put step state with
    | .ok s => (.ok .done, s)
    | .error fault => (.error fault, s)
  | .get step => ((s.get step).map .state, s)
  | .discard step =>
    let (dropped, s) := s.discard step
    (.ok (.truth dropped), s)
  | .holds step => (.ok (.truth (s.holds step)), s)
  | .steps => (.ok (.steps s.steps), s)
  | .size => (.ok (.number s.size), s)
  | .clear => (.ok .done, s.clear)
  | .stats => (.ok (.stats s.stats), s)

end Store
end ReverseSweep
