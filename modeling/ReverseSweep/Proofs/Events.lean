import ReverseSweep.Proofs.Histories

/-! What a history of requests comes to, event by event. What each single request keeps true of the
events so far and the schedule is true after any history. -/

namespace ReverseSweep.Schedule

/-- What has come of a request. A request that is refused, or that only asks, leaves no event. -/
inductive Event
  | offered (step : Int) (persistent : Bool) (admission : Admission)
  | removed (step : Int)
  | cleared (slots : Nat)
  | recomputed
  | countersReset
deriving DecidableEq

def offerEvents (step : Int) (persistent : Bool) : Except Fault Admission → List Event
  | .ok admission => [.offered step persistent admission]
  | .error _ => []

def removalEvents (step : Int) : Removal → List Event
  | .removed => [.removed step]
  | _ => []

/-- Offers one after another, up to the first that is refused. -/
def offerEachEvents (s : Schedule) : List Int → List Event
  | [] => []
  | step :: steps =>
    match s.offer step with
    | (.error _, _) => []
    | (.ok admission, s) => .offered step false admission :: s.offerEachEvents steps

def events (s : Schedule) : Request → List Event
  | .offer step persistent => offerEvents step persistent (s.offer step persistent).1
  | .offerRange first stop stride =>
    match progression first stop stride with
    | .error _ => []
    | .ok steps => s.offerEachEvents steps
  | .remove step => removalEvents step (s.remove step).1
  | .erase step => if (s.erase step).1 then [.removed step] else []
  | .reset => [.cleared (s.size - s.reset.size)]
  | .countRecomputation => [.recomputed]
  | .resetCounters => [.countersReset]
  | _ => []

def eventsAfter (s : Schedule) : List Request → List Event
  | [] => []
  | r :: history => s.events r ++ (s.perform r).2.eventsAfter history

/-- A fact about the events so far and the schedule that each request keeps. -/
structure Recorded (P : List Event → Schedule → Prop) : Prop where
  offer : ∀ all s step persistent, P all s →
    P (all ++ offerEvents step persistent (s.offer step persistent).1) (s.offer step persistent).2
  remove : ∀ all s step, P all s →
    P (all ++ removalEvents step (s.remove step).1) (s.remove step).2
  reset : ∀ all s, P all s → P (all ++ [.cleared (s.size - s.reset.size)]) s.reset
  countRecomputation : ∀ all s, P all s → P (all ++ [.recomputed]) s.countRecomputation
  resetCounters : ∀ all s, P all s → P (all ++ [.countersReset]) s.resetCounters

variable {P : List Event → Schedule → Prop} {all : List Event} {s : Schedule}

theorem events_erase (s : Schedule) (step : Int) :
    s.events (.erase step) = removalEvents step (s.remove step).1 := by
  cases hr : (s.remove step).1 <;> simp [events, erase, removalEvents, hr]

namespace Recorded

theorem offerEach (h : Recorded P) (steps : List Int) (hs : P all s) :
    P (all ++ s.offerEachEvents steps) (s.offerEach steps).2 := by
  induction steps generalizing s all with
  | nil => simpa [offerEachEvents, Schedule.offerEach] using hs
  | cons step steps ih =>
    have ht := h.offer all s step false hs
    simp only [offerEachEvents, Schedule.offerEach]
    generalize s.offer step = result at ht
    obtain ⟨_ | admission, t⟩ := result
    · exact ht
    · have hrest := ih ht
      simp only [offerEvents, List.append_assoc, List.singleton_append] at hrest
      dsimp only
      generalize t.offerEach steps = result at hrest
      obtain ⟨_ | admissions, u⟩ := result
      · exact hrest
      · exact hrest

theorem perform (h : Recorded P) (r : Request) (hs : P all s) :
    P (all ++ s.events r) (s.perform r).2 := by
  have hsame : P (all ++ []) s := by rwa [List.append_nil]
  cases r with
  | offer step persistent => exact h.offer all s step persistent hs
  | offerRange first stop stride =>
    cases hp : progression first stop stride with
    | error fault => simpa [events, Schedule.perform, hp] using hs
    | ok steps => simpa [events, Schedule.perform, hp] using h.offerEach steps hs
  | remove step => exact h.remove all s step hs
  | erase step =>
    rw [events_erase]
    exact h.remove all s step hs
  | reset => exact h.reset all s hs
  | countRecomputation => exact h.countRecomputation all s hs
  | resetCounters => exact h.resetCounters all s hs
  | _ => exact hsame

theorem after (h : Recorded P) (history : List Request) (hs : P all s) :
    P (all ++ s.eventsAfter history) (s.after history) := by
  induction history generalizing s all with
  | nil => simpa [eventsAfter, Schedule.after] using hs
  | cons r history ih =>
    rw [eventsAfter, ← List.append_assoc]
    exact ih (h.perform r hs)

end Recorded
end ReverseSweep.Schedule
