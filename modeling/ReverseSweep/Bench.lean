import ReverseSweep.Journal
import ReverseSweep.Schedule.Request
import ReverseSweep.Store

/-! A schedule and a store worked together, with a journal beside them. What the schedule admits is
put into the store, what it evicts or gives up is discarded. In lockstep both have the same
steps. -/

namespace ReverseSweep

structure Bench (α : Type) where
  schedule : Schedule
  store : Store α
  journal : Option Journal := none
  /-- The reading of the clock that the journal goes by. -/
  now : Float := 0

namespace Bench

variable {α : Type}

def withSchedule (b : Bench α) (s : Schedule) : Bench α := ⟨s, b.store, b.journal, b.now⟩

def withStore (b : Bench α) (s : Store α) : Bench α := ⟨b.schedule, s, b.journal, b.now⟩

def mapJournal (b : Bench α) (f : Journal → Journal) : Bench α :=
  ⟨b.schedule, b.store, b.journal.map f, b.now⟩

def advanceClock (b : Bench α) (seconds : Float) : Bench α :=
  ⟨b.schedule, b.store, b.journal, b.now + seconds⟩

def put [Movable α] (b : Bench α) (step : Int) (state : α) : Except Fault Unit × Bench α :=
  match b.store.put step state with
  | .error fault => (.error fault, b)
  | .ok store => (.ok (), b.withStore store)

theorem schedule_of_put [Movable α] {b c : Bench α} {step : Int} {state : α} {result}
    (h : b.put step state = (result, c)) : c.schedule = b.schedule := by
  unfold put at h
  split at h <;> cases h <;> rfl

/-- Keeps a state for good, on a step of which nothing is held yet. -/
def keep [Movable α] (b : Bench α) (step : Int) (state : α) : Except Fault Unit × Bench α :=
  match b.schedule.offer step true with
  | (.error fault, s) => (.error fault, b.withSchedule s)
  | (.ok _, s) => (b.withSchedule s).put step state

def putOffered [Movable α] (b : Bench α) (step : Int) (state : α) : Except Fault Bool × Bench α :=
  match b.put step state with
  | (.error fault, b) => (.error fault, b)
  | (.ok (), b) => (.ok true, b)

theorem schedule_of_putOffered [Movable α] {b c : Bench α} {step : Int} {state : α} {result}
    (h : b.putOffered step state = (result, c)) : c.schedule = b.schedule := by
  unfold putOffered at h
  split at h <;> cases h <;> exact schedule_of_put ‹_›

/-- Offers a step and says whether its state is resident afterwards. A state that cannot be put
leaves its step to the schedule. -/
def offer [Movable α] (b : Bench α) (step : Int) (state : α) : Except Fault Bool × Bench α :=
  match b.schedule.offer step with
  | (.error fault, s) => (.error fault, b.withSchedule s)
  | (.ok .dropped, s) => (.ok false, b.withSchedule s)
  | (.ok .kept, s) => (b.withSchedule s).putOffered step state
  | (.ok (.evicted old), s) =>
    match b.store.discard old with
    | (false, _) => (.error (.evictedNotResident old), b.withSchedule s)
    | (true, store) => ((b.withSchedule s).withStore store).putOffered step state

/-- A state that is resident afterwards has a step that is held. -/
theorem holds_of_offer [Movable α] {b c : Bench α} {step : Int} {state : α}
    (h : b.offer step state = (.ok true, c)) : c.schedule.holds step = true := by
  unfold offer at h
  split at h
  · cases h
  · cases h
  · rename_i s hs
    rw [schedule_of_putOffered h]
    exact Schedule.holds_of_offer hs (by simp)
  · rename_i old s hs
    split at h
    · cases h
    · rw [schedule_of_putOffered h]
      exact Schedule.holds_of_offer hs (by simp)

/-- Offers a recomputed state, which must not be dropped, and counts it. -/
def offerAgain [Movable α] (b : Bench α) (step : Int) (state : α) : Except Fault Unit × Bench α :=
  match b.offer step state with
  | (.ok true, b) => (.ok (), b.withSchedule b.schedule.countRecomputation)
  | (.ok false, b) => (.error (.replayDropped step), b)
  | (.error fault, b) => (.error fault, b)

theorem holds_of_offerAgain [Movable α] {b c : Bench α} {step : Int} {state : α}
    (h : b.offerAgain step state = (.ok (), c)) : c.schedule.holds step = true := by
  unfold offerAgain at h
  split at h <;> cases h
  rename_i d hd
  have hh := holds_of_offer hd
  exact hh

/-- Gives up a step. A persistent one stays, and so does its state. -/
def release (b : Bench α) (step : Int) : Except Fault Unit × Bench α :=
  match b.schedule.remove step with
  | (.removed, s) => (.ok (), (b.withSchedule s).withStore (b.store.discard step).2)
  | (.notHeld, s) => (.error (.retiredNotHeld step), b.withSchedule s)
  | (.persistent, s) => (.ok (), b.withSchedule s)

/-- Equal sizes and one inclusion: as no step occurs twice on either side, that is equality. -/
def inLockstep (b : Bench α) : Bool :=
  b.store.steps.all b.schedule.holds && b.schedule.size == b.store.size

def requireLockstep (b : Bench α) : Except Fault Unit :=
  if b.inLockstep then .ok () else .error (.outOfLockstep b.store.steps b.schedule.steps)

def reported (b : Bench α) : Reported := .ofStats b.schedule.stats b.store.size

def log (b : Bench α) (index : Int) (phase : String) (step : Int) (reported : Reported) :
    Bench α :=
  b.mapJournal fun j => j.log b.now index phase step reported

/-- What can be asked of the bench and of its parts. In a row, statistics that are not given are
taken from schedule and store as they stand. -/
inductive Request (α : Type)
  | schedule (r : Schedule.Request)
  | store (r : Store.Request α)
  | offer (step : Int) (state : α)
  | release (step : Int)
  | requireLockstep
  | tick (seconds : Float)
  | recordForward
  | recordRecomputed
  | recordReverse
  | due
  | stepsMade
  | log (index : Int) (phase : String) (step : Int) (schedule store : Option Settings)
  | journalText
  | summary
  | printedSummary

inductive Reply (α : Type)
  | done
  | schedule (r : Schedule.Reply)
  | store (r : Store.Reply α)
  | truth (b : Bool)
  | number (n : Nat)
  | text (text : String)
  | summary (s : Journal.Summary)
  | printed (text : String)

/-- The request, unless the state in it is refused. -/
def Request.resolve : Request (Except Fault α) → Except Fault (Request α)
  | .schedule r => .ok (.schedule r)
  | .store r => r.resolve.map .store
  | .offer step state => state.map (.offer step)
  | .release step => .ok (.release step)
  | .requireLockstep => .ok .requireLockstep
  | .tick seconds => .ok (.tick seconds)
  | .recordForward => .ok .recordForward
  | .recordRecomputed => .ok .recordRecomputed
  | .recordReverse => .ok .recordReverse
  | .due => .ok .due
  | .stepsMade => .ok .stepsMade
  | .log index phase step ofSchedule ofStore => .ok (.log index phase step ofSchedule ofStore)
  | .journalText => .ok .journalText
  | .summary => .ok .summary
  | .printedSummary => .ok .printedSummary

/-- What the journal answers, if there is one. The name is that of what was asked for. -/
def ask (b : Bench α) (name : String) (f : Journal → Reply α) : Except Fault (Reply α) :=
  match b.journal with
  | some j => .ok (f j)
  | none => .error (.missingAttribute "NoneType" name)

def perform [Movable α] (b : Bench α) : Request α → Except Fault (Reply α) × Bench α
  | .schedule r =>
    let (result, s) := b.schedule.perform r
    (result.map .schedule, b.withSchedule s)
  | .store r =>
    let (result, s) := b.store.perform r
    (result.map .store, b.withStore s)
  | .offer step state =>
    let (result, b) := b.offer step state
    (result.map .truth, b)
  | .release step =>
    let (result, b) := b.release step
    (result.map fun _ => .done, b)
  | .requireLockstep => (b.requireLockstep.map fun _ => .done, b)
  | .tick seconds => (.ok .done, b.advanceClock seconds)
  | .recordForward => (b.ask "log_forward_step" fun _ => .done, b.mapJournal Journal.recordForward)
  | .recordRecomputed =>
    (b.ask "log_recomputation" fun _ => .done, b.mapJournal Journal.recordRecomputed)
  | .recordReverse => (b.ask "log_reverse_step" fun _ => .done, b.mapJournal Journal.recordReverse)
  | .due => (b.ask "should_checkpoint" fun j => .truth j.due, b)
  | .stepsMade => (b.ask "num_control_steps" fun j => .number j.stepsMade, b)
  | .log index phase step schedule store =>
    let schedule := schedule.getD b.schedule.stats.settings
    let store := store.getD b.store.stats.settings
    match Reported.ofSettings schedule store with
    | .error fault => ((b.ask "log_checkpoint" fun _ => .done).bind fun _ => .error fault, b)
    | .ok reported =>
      let b := b.log index phase step reported
      (b.ask "log_checkpoint" fun j => .text j.text, b)
  | .journalText => (b.ask "metrics_file" fun j => .text j.text, b)
  | .summary => (b.ask "get_summary" fun j => .summary (j.summary b.now), b)
  | .printedSummary => (b.ask "print_summary" fun j => .printed (j.summary b.now).text, b)

/-- The bench after a history of requests, refused ones included. -/
def after [Movable α] (b : Bench α) (history : List (Request α)) : Bench α :=
  history.foldl (fun b r => (b.perform r).2) b

end Bench
end ReverseSweep
