import ReverseSweep.Schedule.Eviction
import ReverseSweep.Settings

/-! The schedule of held checkpoints. It keeps at most a budget of slots besides the persistent ones
and spreads them over the steps that it was offered: while there is room a step is kept, after that
it takes the place of the slot that is missed least. -/

namespace ReverseSweep

namespace Counters

def settings (c : Counters) : Settings :=
  [("stores", .int c.stores), ("evictions", .int c.evictions),
   ("recomputations", .int c.recomputations)]

/-- Counters by name. Those that are left out are zero. -/
def ofSettings (values : Settings) : Except Fault Counters := do
  let s ← Settings.given ({} : Counters).settings ownerName values
  let count (name : String) : Int := (s.get name).int?.getD 0
  .ok ⟨count "stores", count "evictions", count "recomputations"⟩

end Counters

structure Schedule where
  slots : List Slot
  capacity : Number
  counters : Counters
deriving DecidableEq, Repr

namespace Schedule

def ofBudget (budget : Nat) : Schedule := ⟨[], .whole budget, {}⟩

def create (budget : Number) : Except Fault Schedule :=
  if budget.below 0 then .error (.negativeBudget budget) else .ok ⟨[], budget, {}⟩

def defaultBudget : Int := 20

def size (s : Schedule) : Nat := s.slots.length

def steps (s : Schedule) : List Int := s.slots.map (·.step)

def holds (s : Schedule) (step : Int) : Bool := s.slots.any (·.step == step)

def latest? (s : Schedule) : Option Int := s.steps.max?

def latest (s : Schedule) : Except Fault Int :=
  match s.latest? with
  | none => .error .emptySchedule
  | some step => .ok step

/-- Puts a slot that is not held among the others, and says at whose cost. -/
def place (s : Schedule) (slot : Slot) : Admission × List Slot :=
  if s.capacity.above s.size then (.kept, slot.insert s.slots)
  else
    match Slot.evict? slot.step s.slots with
    | some (step, rest) => (.evicted step, slot.insert rest)
    | none => (.dropped, s.slots)

def store (s : Schedule) (slot : Slot) : Admission × Schedule :=
  let (admission, slots) := s.place slot
  (admission, ⟨slots, s.capacity, s.counters.count admission⟩)

/-- A persistent step brings its own room. -/
def offer (s : Schedule) (step : Int) (persistent : Bool := false) :
    Except Fault Admission × Schedule :=
  if step < 0 ∨ step = noStep then (.error (.invalidStep step), s)
  else if s.holds step then (.error (.alreadyHeld step), s)
  else if persistent then
    let s : Schedule := ⟨s.slots, s.capacity.succ, s.counters⟩
    if s.capacity.atMost s.size then (.error (.overfull s.size s.capacity), s)
    else
      let (admission, s) := s.store ⟨step, true⟩
      (.ok admission, s)
  else
    let (admission, s) := s.store ⟨step, false⟩
    (.ok admission, s)

theorem place_mem {s : Schedule} {slot : Slot} {admission : Admission} {slots : List Slot}
    (h : s.place slot = (admission, slots)) (hk : admission ≠ .dropped) : slot ∈ slots := by
  unfold place at h
  split at h
  · cases h
    exact Slot.mem_insert_self slot _
  · split at h <;> cases h
    · exact Slot.mem_insert_self slot _
    · exact absurd rfl hk

theorem holds_of_mem {s : Schedule} (slot : Slot) (h : slot ∈ s.slots) :
    s.holds slot.step = true :=
  List.any_eq_true.mpr ⟨slot, h, beq_self_eq_true _⟩

/-- A step that is not dropped is held afterwards. -/
theorem holds_of_offer {s t : Schedule} {step : Int} {persistent : Bool} {admission : Admission}
    (h : s.offer step persistent = (.ok admission, t)) (hk : admission ≠ .dropped) :
    t.holds step = true := by
  unfold offer store at h
  split at h
  · cases h
  split at h
  · cases h
  split at h
  · dsimp only at h
    split at h
    · cases h
    · cases h
      exact holds_of_mem ⟨step, true⟩ (place_mem rfl hk)
  · cases h
    exact holds_of_mem ⟨step, false⟩ (place_mem rfl hk)

/-- No held step is larger than the latest one. -/
theorem le_latest_of_holds {s : Schedule} {step : Int} (h : s.holds step = true) :
    ∃ last, s.latest? = some last ∧ step ≤ last := by
  obtain ⟨slot, hm, he⟩ := List.any_eq_true.mp h
  have hmem : step ∈ s.steps := List.mem_map.mpr ⟨slot, hm, eq_of_beq he⟩
  cases hl : s.steps.max? with
  | none => simp [List.max?_eq_none_iff.mp hl] at hmem
  | some last => exact ⟨last, hl, (List.max?_eq_some_iff.mp hl).2 step hmem⟩

/-- Admits one step after another, up to the first that is refused. -/
def offerEach (s : Schedule) : List Int → Except Fault (List Admission) × Schedule
  | [] => (.ok [], s)
  | step :: steps =>
    match s.offer step with
    | (.error fault, s) => (.error fault, s)
    | (.ok admission, s) =>
      match s.offerEach steps with
      | (.error fault, s) => (.error fault, s)
      | (.ok admissions, s) => (.ok (admission :: admissions), s)

def remove (s : Schedule) (step : Int) : Removal × Schedule :=
  match s.slots.find? (·.step == step) with
  | none => (.notHeld, s)
  | some slot =>
    if slot.persistent then (.persistent, s)
    else (.removed, ⟨s.slots.eraseP (·.step == step), s.capacity, s.counters⟩)

/-- Whether the step was removed; a persistent step and one that is not held look alike. -/
def erase (s : Schedule) (step : Int) : Bool × Schedule :=
  let (removal, s) := s.remove step
  (removal == .removed, s)

/-- Drops all but the persistent slots. -/
def reset (s : Schedule) : Schedule := ⟨s.slots.filter (·.persistent), s.capacity, s.counters⟩

def resetCounters (s : Schedule) : Schedule := ⟨s.slots, s.capacity, {}⟩

def countRecomputation (s : Schedule) : Schedule :=
  ⟨s.slots, s.capacity,
    ⟨s.counters.stores, s.counters.evictions, s.counters.recomputations + 1⟩⟩

/-- The place of the slot that an incoming step would evict, the number of slots if none. -/
def candidate (s : Schedule) (incoming : Int) : Nat :=
  (Slot.candidate? incoming s.slots).getD s.size

structure Stats where
  size : Nat
  capacity : Number
  utilization : Float
  counters : Counters
  persistent : Nat

def utilization (s : Schedule) : Float :=
  if s.capacity.above 0 then s.capacity.share s.size else 0

def stats (s : Schedule) : Stats where
  size := s.size
  capacity := s.capacity
  utilization := s.utilization
  counters := s.counters
  persistent := s.slots.countP (·.persistent)

def strategyName : String := "OnlineR2CheckpointStrategy"

def Stats.settings (s : Stats) : Settings :=
  [("strategy", .str strategyName), ("size", .int s.size), ("capacity", .ofNumber s.capacity),
   ("utilization", .float s.utilization)] ++ s.counters.settings ++
    [("persistent", .int s.persistent)]

def describe (s : Schedule) : String :=
  strategyName ++ "(capacity=" ++ s.capacity.display ++ ", steps=[" ++
    ", ".intercalate (s.slots.map Slot.mark) ++ "])"

end Schedule
end ReverseSweep
