import ReverseSweep.Decimal.Fixed
import ReverseSweep.Schedule.Basic
import ReverseSweep.Text.Csv

/-! The journal of a sweep: how many steps it went forward, recomputed and went back, and rows that
record these counts with the state of schedule and store. The rows are kept as a table. -/

namespace ReverseSweep

/-- What is reported of schedule and store. Only the utilization has to be a number. -/
structure Reported where
  size : Json
  capacity : Json
  utilization : Float
  stores : Json
  evictions : Json
  recomputations : Json
  storeSize : Json

namespace Reported

def ofStats (s : Schedule.Stats) (storeSize : Nat) : Reported where
  size := .int s.size
  capacity := .ofNumber s.capacity
  utilization := s.utilization
  stores := .int s.counters.stores
  evictions := .int s.counters.evictions
  recomputations := .int s.counters.recomputations
  storeSize := .int storeSize

/-- A value that can be set with a number of decimal places. -/
def decimal (value : Json) : Except Fault Float :=
  match value.number? with
  | some n => n.toFloat
  | none =>
    match value with
    | .str _ => .error (.unknownFormat "f" value.kindName)
    | _ => .error (.unsupportedFormat value.kindName)

/-- What statistics report under their names. What they leave out counts as zero. -/
def ofSettings (schedule store : Settings) : Except Fault Reported := do
  let find (s : Settings) (name : String) : Json := (s.get? name).getD (.int 0)
  let utilization ← decimal (find schedule "utilization")
  .ok ⟨find schedule "size", find schedule "capacity", utilization, find schedule "stores",
    find schedule "evictions", find schedule "recomputations", find store "size"⟩

end Reported

structure Row where
  index : Int
  phase : String
  step : Int
  forward : Nat
  recomputed : Nat
  reverse : Nat
  reported : Reported
  elapsed : Float

def Row.fields (r : Row) : List (List Char) :=
  [Decimal.integerChars r.index, r.phase.toList, Decimal.integerChars r.step,
   Decimal.digits r.forward, Decimal.digits r.recomputed, Decimal.digits r.reverse,
   r.reported.size.cell, r.reported.capacity.cell, Decimal.fixedChars 4 r.reported.utilization,
   r.reported.stores.cell, r.reported.evictions.cell, r.reported.recomputations.cell,
   r.reported.storeSize.cell, Decimal.fixedChars 2 r.elapsed]

structure Journal where
  interval : Number
  start : Float
  forward : Nat := 0
  recomputed : Nat := 0
  reverse : Nat := 0
  /-- The rows, the latest first. -/
  latestRows : List Row := []

namespace Journal

def defaultInterval : Int := 100

def create (interval : Number) (now : Float) : Except Fault Journal :=
  if interval.below 1 then .error (.intervalTooSmall interval)
  else .ok ⟨interval, now, 0, 0, 0, []⟩

def recordForward (j : Journal) : Journal :=
  ⟨j.interval, j.start, j.forward + 1, j.recomputed, j.reverse, j.latestRows⟩

def recordRecomputed (j : Journal) : Journal :=
  ⟨j.interval, j.start, j.forward, j.recomputed + 1, j.reverse, j.latestRows⟩

def recordReverse (j : Journal) : Journal :=
  ⟨j.interval, j.start, j.forward, j.recomputed, j.reverse + 1, j.latestRows⟩

/-- Steps forward and back; recomputed ones are not counted. -/
def stepsMade (j : Journal) : Nat := j.forward + j.reverse

/-- Whether the control steps are a positive multiple of the interval. -/
def due (j : Journal) : Bool := 0 < j.stepsMade && j.interval.divides j.stepsMade

def log (j : Journal) (now : Float) (index : Int) (phase : String) (step : Int)
    (reported : Reported) : Journal :=
  let row : Row :=
    ⟨index, phase, step, j.forward, j.recomputed, j.reverse, reported, now - j.start⟩
  ⟨j.interval, j.start, j.forward, j.recomputed, j.reverse, row :: j.latestRows⟩

def rows (j : Journal) : List Row := j.latestRows.reverse

def header : List (List Char) :=
  ["checkpoint_idx", "phase", "step", "forward_steps", "recomputed_steps", "reverse_steps",
   "strategy_size", "strategy_capacity", "strategy_utilization", "stores", "evictions",
   "recomputations", "store_size", "elapsed_seconds"].map String.toList

def textChars (j : Journal) : List Char := Csv.encode (header :: j.rows.map Row.fields)

def text (j : Journal) : String := String.ofList j.textChars

structure Summary where
  forward : Nat
  recomputed : Nat
  reverse : Nat
  ratio : Float
  elapsed : Float

/-- Recomputed steps for each step forward. -/
def ratio (recomputed : Int) (forward : Nat) : Float := nearestQuotient recomputed (max forward 1)

def summary (j : Journal) (now : Float) : Summary :=
  ⟨j.forward, j.recomputed, j.reverse, ratio j.recomputed j.forward, now - j.start⟩

def rule : String := String.ofList (List.replicate 60 '=')

def Summary.lines (s : Summary) : List String :=
  ["", rule, "Replay Metrics Summary", rule,
   "  Forward steps        : " ++ Decimal.natural s.forward,
   "  Recomputed steps     : " ++ Decimal.natural s.recomputed,
   "  Reverse steps        : " ++ Decimal.natural s.reverse,
   "  Recompute ratio      : " ++ Decimal.fixed 4 s.ratio,
   "  Elapsed time         : " ++ Decimal.fixed 1 s.elapsed ++ "s",
   rule, ""]

def Summary.text (s : Summary) : String := String.join (s.lines.map (· ++ "\n"))

end Journal
end ReverseSweep
