import ReverseSweep.Calendar
import ReverseSweep.Json.Printer
import ReverseSweep.Revision
import ReverseSweep.Settings

/-! The record of a run: what was run, when, on which revision and with which settings, and what
came of it. -/

namespace ReverseSweep

structure RunRecord where
  revision : Revision
  start : Moment
  finish : Option Moment := none
  command : String
  config : Json
  environment : Json
  strategy : Option Settings := none
  replay : Option Settings := none
  extra : Settings := []

namespace RunRecord

def fileName : String := "run_info.json"

def orNull {β : Type} (f : β → Json) : Option β → Json
  | none => .null
  | some b => f b

def builtIn (r : RunRecord) : Settings :=
  [("git_commit", orNull .str r.revision.commit),
   ("git_dirty", orNull .bool r.revision.dirty),
   ("start_time", .str r.start.iso),
   ("end_time", orNull (.str ·.iso) r.finish),
   ("duration_seconds", orNull (fun f => .float (r.start.secondsBetween f)) r.finish),
   ("command", .str r.command),
   ("config", r.config),
   ("environment", r.environment),
   ("strategy", orNull .object r.strategy),
   ("replay", orNull .object r.replay)]

/-- Extra values take the place of built-in ones of the same name, or come after them. -/
def fields (r : RunRecord) : Settings := r.builtIn.update r.extra

def text (r : RunRecord) : String := (Json.object r.fields).indented

end RunRecord
end ReverseSweep
