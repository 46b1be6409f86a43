import ReverseSweep.Json.Arithmetic

/-! Named values in order. Setting a name again keeps its first place and takes the later value. -/

namespace ReverseSweep

abbrev Settings := List (String × Json)

namespace Settings

def get? (s : Settings) (name : String) : Option Json :=
  (s.find? fun field => field.1 == name).map (·.2)

def put : Settings → String → Json → Settings
  | [], name, value => [(name, value)]
  | field :: rest, name, value =>
    if field.1 = name then (name, value) :: rest else field :: put rest name value

/-- Sets the later values one after another. -/
def update (s later : Settings) : Settings := later.foldl (fun s field => s.put field.1 field.2) s

def ofPairs (pairs : List (String × Json)) : Settings := update [] pairs

/-- The defaults with the given values put in; names that have no default are dropped. -/
def override (defaults given : Settings) : Settings :=
  let last := ofPairs given
  defaults.map fun (name, value) => (name, (last.get? name).getD value)

/-- The defaults with the given values put in, for an owner that takes no other names. -/
def given (defaults : Settings) (owner : String) (values : Settings) : Except Fault Settings :=
  match values.find? fun field => (defaults.get? field.1).isNone with
  | some field => .error (.unknownField owner field.1)
  | none => .ok (defaults.override values)

/-- How messages name the settings of an experiment. -/
def configName : String := "Config"

/-- The settings that a structured value holds. -/
def ofJson : Json → Except Fault Settings
  | .object fields => .ok fields
  | value => .error (.missingAttribute value.kindName "items")

def get (s : Settings) (name : String) : Json := (s.get? name).getD .null

end Settings
end ReverseSweep
