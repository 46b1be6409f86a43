import ReverseSweep.Schedule.Slot

/-! The choice of the slot that makes room: the one whose removal leaves the smallest gap between
its neighbours, the first of several. Persistent slots are never chosen. -/

namespace ReverseSweep

/-- The distance between two steps, without bound if the right one is below the left one. -/
inductive Gap
  | finite (width : Int)
  | unbounded
deriving DecidableEq, Repr

namespace Gap

def between (left right : Int) : Gap :=
  if left ≤ right then finite (right - left) else unbounded

def lt : Gap → Gap → Bool
  | finite a, finite b => a < b
  | finite _, unbounded => true
  | unbounded, _ => false

end Gap

namespace Slot

/-- The gap that the removal of each slot would leave, nothing for a persistent one. The first slot
has `left` before it, the last one the incoming step after it. -/
def mergedGaps (incoming : Int) : Int → List Slot → List (Option Gap)
  | _, [] => []
  | left, s :: rest =>
    let right := match rest with
      | [] => incoming
      | next :: _ => next.step
    (if s.persistent then none else some (.between left right)) :: mergedGaps incoming s.step rest

/-- The place of the least gap, the first of several. -/
def leastGap? : List (Option Gap) → Option (Nat × Gap)
  | [] => none
  | gap? :: rest =>
    match gap?, leastGap? rest with
    | none, later => later.map fun (i, g) => (i + 1, g)
    | some g, none => some (0, g)
    | some g, some (i, h) => if h.lt g then some (i + 1, h) else some (0, g)

/-- The place of the slot to evict for an incoming step. Before the first slot stands step 0. -/
def candidate? (incoming : Int) (slots : List Slot) : Option Nat :=
  (leastGap? (mergedGaps incoming 0 slots)).map (·.1)

/-- The evicted step and the slots that stay. -/
def evict? (incoming : Int) (slots : List Slot) : Option (Int × List Slot) :=
  match candidate? incoming slots with
  | none => none
  | some i => slots[i]?.map fun s => (s.step, slots.eraseIdx i)

end Slot
end ReverseSweep
