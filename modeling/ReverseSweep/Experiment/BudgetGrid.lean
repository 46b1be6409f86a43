import ReverseSweep.RunFolder
import ReverseSweep.Schedule.Choice
import ReverseSweep.Summation
import ReverseSweep.Sweep.Setup

/-! What recomputation costs at each budget: sweeps over a grid of step counts and storage sizes, as
a table of counters, a table of ratios, and the mean ratio of each storage size. -/

namespace ReverseSweep.BudgetGrid

def defaults : Settings :=
  [("output_dir", .str "outputs/capacity_sweep"),
   ("checkpoint_strategy", .str Schedule.knownStrategy),
   ("num_steps", .list [.int 100, .int 1000, .int 10000]),
   ("storage_sizes", .list [.int 2, .int 4, .int 8, .int 16, .int 32, .int 64]),
   ("storage_size", .int 0)]

structure Config where
  strategy : Json := .str Schedule.knownStrategy
  steps : List Json
  storageSizes : List Json

/-- Without step counts only the number of storage sizes matters. -/
def Config.ofSettings (s : Settings) : Except Fault Config := do
  let steps ← (s.get "num_steps").items
  let sizes := s.get "storage_sizes"
  match sizes.items? with
  | some storageSizes => .ok ⟨s.get "checkpoint_strategy", steps, storageSizes⟩
  | none =>
    .error (if steps.isEmpty then .notSized sizes.kindName else .notIterable sizes.kindName)

structure Cell where
  steps : Json
  storageSize : Json
  counters : Counters
  ratio : Float

/-- Callbacks of a chain whose states only count their own steps. -/
def counting : Callbacks Unit Nat Empty where
  update _ x world b := (.ok (x + 1), world, b)
  reverse _ _ world b := (.ok (), world, b)

instance : Movable Nat := ⟨fun _ x => .ok x⟩

def measure (strategy steps storageSize : Json) : Except Fault Cell := do
  let schedule ← Schedule.choose strategy (.ok storageSize)
  let setup : Setup Nat :=
    { steps := steps, storageSize := storageSize, state := 0, supply := .schedule schedule }
  match ← setup.run counting () with
  | (.error (.fault fault), _) => .error fault
  | (.ok _, run) =>
    let counters := run.bench.schedule.counters
    let forward := (steps.whole?.getD 0).toNat
    .ok ⟨steps, storageSize, counters, Journal.ratio counters.recomputations forward⟩

def Config.grid (c : Config) : List (Json × Json) :=
  c.steps.flatMap fun n => c.storageSizes.map fun s => (n, s)

/-- The cells of the grid, or the first fault in the order of the grid. -/
def Config.cells (c : Config) : Except Fault (List Cell) :=
  c.grid.mapM fun (n, s) => measure c.strategy n s

def header : List (List Char) :=
  ["num_steps", "storage_size", "stores", "evictions", "recomputations",
   "recompute_ratio"].map String.toList

def Cell.fields (c : Cell) : List (List Char) :=
  [c.steps.cell, c.storageSize.cell,
   Decimal.integerChars c.counters.stores, Decimal.integerChars c.counters.evictions,
   Decimal.integerChars c.counters.recomputations, Decimal.fixedChars 4 c.ratio]

/-- How the numbers in a table are averaged, which is not exact: the mean of one of so many columns,
and a number to four decimal places. -/
class Averaging where
  mean : Nat → List Float → Float
  rounded : Float → Float

/-- The numbers of a single column are added in pairs of partial sums, those of several columns row
by row. -/
instance Averaging.summing : Averaging where
  mean columns xs :=
    (if columns = 1 then pairwiseSum xs else runningSum xs) / nearestQuotient xs.length 1
  rounded := roundedToFour

structure Report where
  config : Config
  cells : List Cell

namespace Report

def csv (r : Report) : String :=
  String.ofList (Csv.encode (header :: r.cells.map Cell.fields))

def ratioRows (width : Nat) : List Json → List Cell → List (List Float)
  | [], _ => []
  | _ :: rest, cells => (cells.take width).map (·.ratio) :: ratioRows width rest (cells.drop width)

def rows (r : Report) : List (List Float) :=
  ratioRows r.config.storageSizes.length r.config.steps r.cells

def wholeText (value : Json) : Except Fault String :=
  match value.whole? with
  | some n => .ok (Decimal.integer n)
  | none =>
    match value with
    | .float _ | .str _ => .error (.unknownFormat "d" value.kindName)
    | _ => .error (.unsupportedFormat value.kindName)

def ratioText (ratio : Float) : String := Decimal.alignRight 8 (Decimal.fixed 2 ratio)

def tableRow (steps : Json) (ratios : List Float) : Except Fault String := do
  let steps ← wholeText steps
  .ok ("  " ++ Decimal.alignRight 8 steps ++ " " ++ " ".intercalate (ratios.map ratioText))

def tableLines (r : Report) : Except Fault (List String) := do
  let sizes ← r.config.storageSizes.mapM wholeText
  let rows ← (r.config.steps.zip r.rows).mapM fun (steps, ratios) => tableRow steps ratios
  .ok ("Recompute ratio (rows: num_steps, columns: storage_size)" ::
    ("  " ++ " ".intercalate (sizes.map (Decimal.alignRight 8))) :: rows)

def table (r : Report) : Except Fault String := r.tableLines.map ("\n".intercalate ·)

def heading : List String :=
  [Journal.rule, "Online Checkpointing Capacity Sweep", Journal.rule, ""]

def column (r : Report) (j : Nat) : List Float := r.rows.map fun row => row.getD j 0

/-- The mean ratio by storage size; of equal sizes the last one counts. -/
def means [Averaging] (r : Report) : Settings :=
  let columns := r.config.storageSizes.length
  Settings.ofPairs <| r.config.storageSizes.zipIdx.map fun (size, j) =>
    (size.display, .float (Averaging.rounded (Averaging.mean columns (r.column j))))

end Report

def report (c : Config) : Except Fault Report := c.cells.map fun cells => ⟨c, cells⟩

/-- The report for settings. The folder of the run is made first, and the strategy labels it. -/
def run (s : Settings) : Except Fault Report := do
  RunFolder.check (s.get "output_dir") (s.get "checkpoint_strategy")
  report (← Config.ofSettings s)

end ReverseSweep.BudgetGrid
