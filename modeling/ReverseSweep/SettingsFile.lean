import ReverseSweep.Json.Printer
import ReverseSweep.Settings
import ReverseSweep.Text.Folded

/-! Values as a settings file keeps them: written as JSON, with texts in full, and read as YAML 1.1.
There a floating number needs a point, and quoted texts are folded. -/

namespace ReverseSweep.SettingsFile

/-- A floating number that is written without a point is a text. -/
def readFloat (x : Float) : Json :=
  let cs := Json.numberLayout.chars x
  if cs.contains '.' then .float x else .str (String.ofList cs)

mutual

/-- What is read of a value that was written. -/
def readBack : Json → Json
  | .float x => readFloat x
  | .str text => .str (Text.folded text)
  | .list items => .list (readItems items)
  | .object fields => .object (readFields fields)
  | value => value

def readItems : List Json → List Json
  | [] => []
  | item :: items => readBack item :: readItems items

def readFields : List (String × Json) → List (String × Json)
  | [] => []
  | (name, value) :: fields => (Text.folded name, readBack value) :: readFields fields

end

/-- The settings in a file that holds a value; names that have no default are dropped. -/
def settings (defaults : Settings) (value : Json) : Except Fault Settings :=
  (Settings.ofJson (readBack value)).map defaults.override

end ReverseSweep.SettingsFile
