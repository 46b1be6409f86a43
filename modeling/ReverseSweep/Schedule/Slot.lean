import ReverseSweep.Decimal.Digits

/-! A checkpoint slot, lists of slots in the order of their steps, and what admitting or removing a
step can come to. -/

namespace ReverseSweep

/-- Stands for "no step" where a step is expected, and is never held. -/
def noStep : Int := 0x7fffffffffffffff

def isStep (step : Int) : Bool := step != noStep

/-- A held step. A persistent one is never evicted and never removed. -/
structure Slot where
  step : Int
  persistent : Bool := false
deriving DecidableEq, Repr

namespace Slot

def describe (s : Slot) : String :=
  "Slot(step=" ++ Decimal.integer s.step ++ (if s.persistent then ", persistent" else "") ++ ")"

def mark (s : Slot) : String := Decimal.integer s.step ++ (if s.persistent then "*" else "")

/-- Puts a slot before the first one whose step is not smaller. -/
def insert (slot : Slot) : List Slot → List Slot
  | [] => [slot]
  | s :: rest => if slot.step ≤ s.step then slot :: s :: rest else s :: insert slot rest

theorem mem_insert_self (slot : Slot) (slots : List Slot) : slot ∈ slot.insert slots := by
  induction slots with
  | nil => simp [insert]
  | cons s rest ih =>
    simp only [insert]
    split
    · exact List.mem_cons_self
    · exact List.mem_cons_of_mem _ ih

end Slot

/-- What became of an offered step. -/
inductive Admission
  | kept
  | evicted (step : Int)
  | dropped
deriving DecidableEq, Repr

/-- The evicted step, or the number that stands for none. -/
def Admission.code : Admission → Int
  | evicted step => step
  | _ => noStep

/-- What became of a step that was to be removed. -/
inductive Removal
  | removed
  | notHeld
  | persistent
deriving DecidableEq, Repr

namespace Removal

def value : Removal → String
  | removed => "removed"
  | notHeld => "not_found"
  | persistent => "protected"

def name : Removal → String
  | removed => "REMOVED"
  | notHeld => "NOT_FOUND"
  | persistent => "PROTECTED"

def ofValue? (text : String) : Option Removal :=
  [removed, notHeld, persistent].find? fun r => r.value == text

end Removal

/-- How often steps were stored, evicted and recomputed. -/
structure Counters where
  stores : Int := 0
  evictions : Int := 0
  recomputations : Int := 0
deriving DecidableEq, Repr

namespace Counters

/-- How messages name counters. -/
def ownerName : String := "CheckpointMetrics"

def describe (c : Counters) : String :=
  ownerName ++ "(stores=" ++ Decimal.integer c.stores ++ ", evictions=" ++
    Decimal.integer c.evictions ++ ", recomputations=" ++ Decimal.integer c.recomputations ++ ")"

/-- Every admission counts as a store, a dropped one too. -/
def count (c : Counters) : Admission → Counters
  | .evicted _ => ⟨c.stores + 1, c.evictions + 1, c.recomputations⟩
  | _ => ⟨c.stores + 1, c.evictions, c.recomputations⟩

end Counters
end ReverseSweep
