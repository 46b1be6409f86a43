import ReverseSweep.Schedule.Basic

/-! A fresh schedule chosen by settings: the name of the strategy, then the budget. -/

namespace ReverseSweep.Schedule

def knownStrategy : String := "online_r2"

def choose (strategy : Json) (budget : Except Fault Json) : Except Fault Schedule :=
  if strategy.str? = some knownStrategy then do
    create (← (← budget).number)
  else .error (.unknownStrategy strategy.display)

/-- The kind of object that holds loose settings, as messages name it. -/
def settingsKind : String := "types.SimpleNamespace"

def required (s : Settings) (name : String) : Except Fault Json :=
  match s.get? name with
  | some value => .ok value
  | none => .error (.missingAttribute settingsKind name)

def ofSettings (s : Settings) : Except Fault Schedule := do
  let strategy ← required s "checkpoint_strategy"
  choose strategy (required s "storage_size")

end ReverseSweep.Schedule
