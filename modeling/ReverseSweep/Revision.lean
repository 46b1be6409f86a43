import ReverseSweep.Text.Blank

/-! The revision of the working copy, as the version control tool describes it. -/

namespace ReverseSweep

structure Revision where
  commit : Option String := none
  dirty : Option Bool := none
deriving DecidableEq, Repr

namespace Revision

/-- What the tool answered: its exit code and its output. -/
structure Description where
  exitCode : Int
  output : String

def dirtyMark : String := "-dirty"

/-- Nothing is known if the tool is missing or fails. One mark at the end is taken off. -/
def ofDescription : Option Description → Revision
  | none => {}
  | some d =>
    if d.exitCode ≠ 0 then {}
    else
      let text := Text.trim d.output
      match Text.beforeEnding? dirtyMark text with
      | some commit => ⟨some commit, some true⟩
      | none => ⟨some text, some false⟩

end Revision
end ReverseSweep
