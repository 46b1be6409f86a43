import ReverseSweep.Schedule.Basic

/-! Everything that can be asked of a schedule, so that histories of requests can be spoken of. -/

namespace ReverseSweep.Schedule

/-- The steps from `first` on by `stride`, as long as `stop` is not reached. -/
def progression (first stop stride : Int) : Except Fault (List Int) :=
  if stride = 0 then .error .zeroStride
  else
    let length :=
      if 0 < stride then (stop - first + stride - 1) / stride
      else (first - stop - stride - 1) / -stride
    .ok ((List.range length.toNat).map fun (i : Nat) => first + stride * (i : Int))

inductive Request
  | offer (step : Int) (persistent : Bool)
  | offerRange (first stop stride : Int)
  | remove (step : Int)
  | erase (step : Int)
  | reset
  | countRecomputation
  | resetCounters
  | latest
  | holds (step : Int)
  | steps
  | slots
  | size
  | capacity
  | counters
  | stats
  | describe
  | candidate (incoming : Int)
deriving DecidableEq, Repr

inductive Reply
  | done
  | offered (admission : Admission)
  | offeredEach (admissions : List Admission)
  | removal (removal : Removal)
  | truth (b : Bool)
  | number (n : Int)
  | capacity (capacity : Number)
  | steps (steps : List Int)
  | slots (slots : List Slot)
  | counters (counters : Counters)
  | stats (stats : Stats)
  | text (text : String)

/-- What a request asks for, by the name that messages use. -/
def Request.name : Request → String
  | offer _ _ | offerRange _ _ _ => "admit"
  | remove _ => "remove_step"
  | erase _ => "erase_step"
  | reset => "reset"
  | countRecomputation => "record_recomputation"
  | resetCounters => "reset_metrics"
  | latest => "last_checkpoint_step"
  | holds _ => "contains_step"
  | steps => "steps"
  | slots => "slots"
  | size => "size"
  | capacity => "capacity"
  | counters => "metrics"
  | stats => "get_stats"
  | describe => "__repr__"
  | candidate _ => "_find_eviction_candidate"

def perform (s : Schedule) : Request → Except Fault Reply × Schedule
  | .offer step persistent =>
    let (result, s) := s.offer step persistent
    (result.map .offered, s)
  | .offerRange first stop stride =>
    match progression first stop stride with
    | .error fault => (.error fault, s)
    | .ok steps =>
      let (result, s) := s.offerEach steps
      (result.map .offeredEach, s)
  | .remove step =>
    let (removal, s) := s.remove step
    (.ok (.removal removal), s)
  | .erase step =>
    let (removed, s) := s.erase step
    (.ok (.truth removed), s)
  | .reset => (.ok .done, s.reset)
  | .countRecomputation => (.ok .done, s.countRecomputation)
  | .resetCounters => (.ok .done, s.resetCounters)
  | .latest => (s.latest.map .number, s)
  | .holds step => (.ok (.truth (s.holds step)), s)
  | .steps => (.ok (.steps s.steps), s)
  | .slots => (.ok (.slots s.slots), s)
  | .size => (.ok (.number s.size), s)
  | .capacity => (.ok (.capacity s.capacity), s)
  | .counters => (.ok (.counters s.counters), s)
  | .stats => (.ok (.stats s.stats), s)
  | .describe => (.ok (.text s.describe), s)
  | .candidate incoming => (.ok (.number (s.candidate incoming)), s)

/-- The schedule after a history of requests, refused ones included. -/
def after (s : Schedule) (history : List Request) : Schedule :=
  history.foldl (fun s r => (s.perform r).2) s

end ReverseSweep.Schedule
