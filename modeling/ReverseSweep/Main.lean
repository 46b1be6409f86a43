import ReverseSweep.Experiment.BudgetGrid
import ReverseSweep.Experiment.RecurrenceGradient
import ReverseSweep.Json.Reader
import ReverseSweep.SettingsFile

/-! The command line: the name of an experiment and a file of settings, a JSON object. -/

namespace ReverseSweep.CommandLine

def budgetGrid (file : Json) : Except Fault String := do
  let settings ← SettingsFile.settings BudgetGrid.defaults file
  let report ← BudgetGrid.run settings
  let lines ← report.tableLines
  .ok ("\n".intercalate (BudgetGrid.Report.heading ++ lines ++ ["", report.csv]))

/-- The recurrence has no components: all that is printed depends on the schedule alone. -/
def recurrenceGradient (file : Json) : Except Fault String := do
  let settings ← SettingsFile.settings RecurrenceGradient.defaults file
  let config := RecurrenceGradient.Config.ofSettings settings
  let report ← RecurrenceGradient.report ⟨.matrix [], [], .sign⟩ [] config 0
  .ok ("\n".intercalate report.lines)

def experiment? : String → Option (Json → Except Fault String)
  | "capacity_sweep" => some budgetGrid
  | "linear_adjoint" => some recurrenceGradient
  | _ => none

/-- What an experiment prints for the text of a settings file. -/
def output (experiment : Json → Except Fault String) (text : String) : Except String String :=
  match Json.parse text with
  | none => .error "The settings are not a JSON text"
  | some value => (experiment value).mapError Fault.message

def usage : String := "usage: (capacity_sweep | linear_adjoint) --config FILE"

def run : List String → IO UInt32
  | [name, "--config", path] => do
    match experiment? name with
    | none =>
      IO.eprintln usage
      return 2
    | some experiment =>
      let text? ← try some <$> IO.FS.readFile path catch _ => pure none
      match text? with
      | none =>
        IO.println ("Config file not found: " ++ path)
        return 1
      | some text =>
        match output experiment text with
        | .ok printed =>
          IO.println printed
          return 0
        | .error message =>
          IO.eprintln message
          return 1
  | _ => do
    IO.eprintln usage
    return 2

end ReverseSweep.CommandLine

def main (args : List String) : IO UInt32 := ReverseSweep.CommandLine.run args
